import Angel.Dispatcher.Epoll

/-!
`kqueue_base_t`, and the bounds of the vectors that it has in common with `epoll_base_t`:
both keep to them exactly as long as one doubling of the table reaches the descriptor.
-/

namespace Angel.Dispatcher

open Lib

inductive EvFilter where
  | read
  | write
  deriving DecidableEq, Repr

inductive EvFlags where
  | add
  | delete
  deriving DecidableEq, Repr

/-- `struct kevent`, as far as `EV_SET` is given something. -/
structure Kevent where
  ident : Nat
  filter : EvFilter
  flags : EvFlags
  deriving DecidableEq, Repr

instance : Inhabited Kevent := ⟨⟨0, .read, .add⟩⟩

structure KqueueBase where
  table : Table Kevent
  /-- What `kevent` is given. -/
  changes : List Kevent
  deriving DecidableEq, Repr

/-- The changes for the events of a mask. -/
def changesFor (flags : EvFlags) (fd : Nat) (events : Mask) : List Kevent :=
  (if events &&& read ≠ 0#32 then [⟨fd, .read, flags⟩] else []) ++
    if events &&& write ≠ 0#32 then [⟨fd, .write, flags⟩] else []

namespace KqueueBase

def init : KqueueBase where
  table := .init
  changes := []

def add (fd : Nat) (events : Mask) (b : KqueueBase) : Option KqueueBase := do
  let changes := b.changes ++ changesFor .add fd events
  let table ← b.table.add fd events
  some { table := table, changes := changes }

def remove (fd : Nat) (events : Mask) (b : KqueueBase) : Option KqueueBase := do
  let changes := b.changes ++ changesFor .delete fd events
  let table ← b.table.remove fd events
  some { table := table, changes := changes }

def apply (b : KqueueBase) : Op → Option KqueueBase
  | .add fd events => b.add fd events
  | .remove fd events => b.remove fd events

def step (b : KqueueBase) (op : Op) : KqueueBase := (b.apply op).getD b

/-- The call stays inside of `evmap`, and leaves `evlist` with room for what is registered. -/
def InBounds (b : KqueueBase) (op : Op) : Prop :=
  ∃ b', b.apply op = some b' ∧ b'.table.registered < b'.table.evlist.length

end KqueueBase

/-- The call stays inside of `evmap`, and leaves `evlist` with room for what is registered. -/
def EpollBase.InBounds (b : EpollBase) (c : Call) : Prop :=
  ∃ b', b.apply c = some b' ∧ b'.table.registered < b'.table.evlist.length

theorem KqueueBase.apply_table (b : KqueueBase) (op : Op) :
    (b.apply op).map (·.table) = b.table.apply op := by
  cases op with
  | add fd events =>
      simp only [apply, add, Table.apply, Option.bind_eq_bind, Option.map_bind]
      cases b.table.add fd events <;> rfl
  | remove fd events =>
      simp only [apply, remove, Table.apply, Option.bind_eq_bind, Option.map_bind]
      cases b.table.remove fd events <;> rfl

/-- Both keep to their vectors exactly when every descriptor that is added is less than
twice the size of the table. -/
theorem tables_inBounds_iff {calls : List Call} {ops : List Op}
    (hcalls : Admissible EpollBase.step (fun b c => b.table.Added c.op) .init calls)
    (hops : Admissible KqueueBase.step (fun b op => b.table.Added op) .init ops) :
    (Admissible EpollBase.step EpollBase.InBounds .init calls ↔
      Admissible EpollBase.step (fun b c => b.table.Fits c.op) .init calls) ∧
    (Admissible KqueueBase.step KqueueBase.InBounds .init ops ↔
      Admissible KqueueBase.step (fun b op => b.table.Fits op) .init ops) :=
  ⟨run_inBounds_iff_of_table EpollBase.apply_table rfl hcalls,
    run_inBounds_iff_of_table KqueueBase.apply_table rfl hops⟩

/-- A descriptor at the end of what one doubling reaches. -/
theorem tables_inBounds_atEnd :
    (Admissible EpollBase.step EpollBase.InBounds .init [⟨.add 127 read, default⟩] ↔
      Admissible EpollBase.step (fun b c => b.table.Fits c.op) .init [⟨.add 127 read, default⟩]) ∧
    (Admissible KqueueBase.step KqueueBase.InBounds .init [.add 127 read, .remove 127 read] ↔
      Admissible KqueueBase.step (fun b op => b.table.Fits op) .init
        [.add 127 read, .remove 127 read]) :=
  tables_inBounds_iff (by decide) (by decide)

/-- The first descriptor of a loop is 200, and its table has 64 entries. -/
theorem tables_inBounds_fails :
    (¬∀ calls : List Call,
      Admissible EpollBase.step (fun b c => b.table.Added c.op) .init calls →
        Admissible EpollBase.step EpollBase.InBounds .init calls) ∧
    ¬∀ ops : List Op,
      Admissible KqueueBase.step (fun b op => b.table.Added op) .init ops →
        Admissible KqueueBase.step KqueueBase.InBounds .init ops := by
  constructor
  · intro h
    obtain ⟨⟨b', hb', -⟩, -⟩ := h [⟨.add 200 read, default⟩] (by decide)
    have hnone : EpollBase.init.apply ⟨.add 200 read, default⟩ = none := by decide
    rw [hnone] at hb'
    cases hb'
  · intro h
    obtain ⟨⟨b', hb', -⟩, -⟩ := h [.add 200 read] (by decide)
    have hnone : KqueueBase.init.apply (.add 200 read) = none := by decide
    rw [hnone] at hb'
    cases hb'

end Angel.Dispatcher
