import Angel.Dispatcher.Table

/-!
`epoll_base_t`. A call comes with what its local `epoll_event` holds at first, and `EEV_SET`
only sets bits in it; what `epoll_ctl` is given is kept in the order of the calls.
-/

namespace Angel.Dispatcher

open Lib

def epollIn : Mask := 0x001

def epollOut : Mask := 0x004

/-- `struct epoll_event`, with `data.fd`. -/
structure EpollEvent where
  events : Mask
  fd : Nat
  deriving DecidableEq, Repr, Inhabited

/-- `EEV_SET`. -/
def eevSet (eev : EpollEvent) (efd : Nat) (filter : Mask) : EpollEvent :=
  let eev := { eev with fd := efd }
  let eev := if filter &&& read ≠ 0#32 then { eev with events := eev.events ||| epollIn } else eev
  if filter &&& write ≠ 0#32 then { eev with events := eev.events ||| epollOut } else eev

inductive CtlOp where
  | add
  | mod
  | del
  deriving DecidableEq, Repr

/-- What `epoll_ctl` is given. -/
structure Ctl where
  op : CtlOp
  fd : Nat
  eevp : Option EpollEvent
  deriving DecidableEq, Repr

/-- A call of `add` or `remove`, and what is in `eev` before. -/
structure Call where
  op : Op
  eev : EpollEvent
  deriving DecidableEq, Repr

structure EpollBase where
  table : Table EpollEvent
  ctls : List Ctl
  deriving DecidableEq, Repr

namespace EpollBase

def init : EpollBase where
  table := .init
  ctls := []

def add (eev : EpollEvent) (fd : Nat) (events : Mask) (b : EpollBase) : Option EpollBase := do
  let table ← b.table.add fd events
  let filter := (b.table.growTo fd).filter fd
  let op := if filter ≠ 0#32 then CtlOp.mod else CtlOp.add
  let filter := filter ||| events
  some { table := table, ctls := b.ctls ++ [⟨op, fd, some (eevSet eev fd filter)⟩] }

def remove (eev : EpollEvent) (fd : Nat) (events : Mask) (b : EpollBase) : Option EpollBase := do
  let table ← b.table.remove fd events
  let filter := table.filter fd
  let op := if filter ≠ 0#32 then CtlOp.mod else CtlOp.del
  let eevp := if filter ≠ 0#32 then some (eevSet eev fd filter) else none
  some { table := table, ctls := b.ctls ++ [⟨op, fd, eevp⟩] }

def apply (b : EpollBase) (c : Call) : Option EpollBase :=
  match c.op with
  | .add fd events => b.add c.eev fd events
  | .remove fd events => b.remove c.eev fd events

def step (b : EpollBase) (c : Call) : EpollBase := (b.apply c).getD b

/-- The mask that `epoll_ctl` was last given for a descriptor. -/
def mask (b : EpollBase) (fd : Nat) : Option Mask :=
  (b.ctls.reverse.find? (·.fd = fd)).bind fun c => c.eevp.map (·.events)

end EpollBase

/-- The mask that asks for the events of a filter. -/
def wanted (filter : Mask) : Mask :=
  (if filter &&& read ≠ 0#32 then epollIn else 0#32) ||| if filter &&& write ≠ 0#32 then epollOut else 0#32

/-- The operation for a descriptor that was registered or not, and stays so or not. -/
def expected (was stays : Bool) : Option CtlOp :=
  match was, stays with
  | false, true => some .add
  | true, true => some .mod
  | true, false => some .del
  | false, false => none

/-- The kernel was last given exactly the filter of each registered descriptor, and
`added_fds` counts them. -/
structure EpollBase.Exact (b : EpollBase) : Prop where
  mask : ∀ fd, b.table.filter fd ≠ 0#32 → b.mask fd = some (wanted (b.table.filter fd))
  addedFds : b.table.addedFds = b.table.registered

namespace EpollBase

/-- Only events that are there are removed, and the descriptor is within the table. -/
def Allows (b : EpollBase) (c : Call) : Prop := b.table.Added c.op ∧ b.table.Fits c.op

/-- The call makes the one `epoll_ctl` it should, and leaves the kernel with the filters. -/
def Refines (b : EpollBase) (c : Call) : Prop :=
  ∃ b' ctl, b.apply c = some b' ∧ b'.ctls = b.ctls ++ [ctl] ∧ ctl.fd = c.op.fd ∧
    expected (b.table.filter c.op.fd ≠ 0#32) (b'.table.filter c.op.fd ≠ 0#32) = some ctl.op ∧ b'.Exact

/-- An `add` leaves some event in the filter, and what is in `eev` before has none that the
filter does not ask for. -/
def Clean (b : EpollBase) (c : Call) : Prop :=
  (c.op.isAdd → b.table.leaves c.op ≠ 0#32) ∧
    (b.table.leaves c.op ≠ 0#32 → c.eev.events &&& ~~~wanted (b.table.leaves c.op) = 0#32)

instance (b : EpollBase) (c : Call) : Decidable (b.Allows c) := inferInstanceAs (Decidable (_ ∧ _))

instance (b : EpollBase) (c : Call) : Decidable (b.Clean c) := inferInstanceAs (Decidable (_ ∧ _))

end EpollBase

theorem eevSet_events (eev : EpollEvent) (fd : Nat) (filter : Mask) :
    (eevSet eev fd filter).events = eev.events ||| wanted filter := by
  unfold eevSet wanted
  split <;> split <;> simp only [BitVec.or_assoc, BitVec.or_zero, BitVec.zero_or]

/-- Nothing is left of a mask outside of another exactly when it adds nothing to it. -/
theorem or_eq_right_iff {w : Nat} (x m : BitVec w) : x ||| m = m ↔ x &&& ~~~m = 0#w := by
  constructor
  · intro h
    rw [← h]
    ext i hi
    simp only [BitVec.getElem_and, BitVec.getElem_not, BitVec.getElem_or,
      BitVec.getElem_zero]
    grind
  · intro h
    ext i hi
    have hbit : (x &&& ~~~m)[i] = (0#w)[i] := by rw [h]
    simp only [BitVec.getElem_and, BitVec.getElem_not, BitVec.getElem_zero] at hbit
    rw [BitVec.getElem_or]
    grind

namespace EpollBase

open Table

variable {b : EpollBase} {c : Call}

/-- What a call gives to `epoll_ctl`. -/
def ctl (b : EpollBase) (c : Call) : Ctl where
  op :=
    match c.op with
    | .add fd _ => if b.table.filter fd ≠ 0#32 then .mod else .add
    | .remove _ _ => if b.table.leaves c.op ≠ 0#32 then .mod else .del
  fd := c.op.fd
  eevp :=
    match c.op with
    | .add fd _ => some (eevSet c.eev fd (b.table.leaves c.op))
    | .remove fd _ =>
        if b.table.leaves c.op ≠ 0#32 then some (eevSet c.eev fd (b.table.leaves c.op)) else none

theorem apply_table (b : EpollBase) (c : Call) :
    (b.apply c).map (·.table) = b.table.apply c.op := by
  obtain ⟨op, eev⟩ := c
  cases op with
  | add fd events =>
      simp only [apply, add, Table.apply, Option.bind_eq_bind, Option.map_bind]
      cases b.table.add fd events <;> rfl
  | remove fd events =>
      simp only [apply, remove, Table.apply, Option.bind_eq_bind, Option.map_bind]
      cases b.table.remove fd events <;> rfl

theorem apply_eq_some {table : Table EpollEvent} (ha : b.table.Added c.op)
    (h : b.table.apply c.op = some table) :
    b.apply c = some ⟨table, b.ctls ++ [b.ctl c]⟩ := by
  have hfilter := congrFun (apply_filter ha h) c.op.fd
  rw [Function.update_self] at hfilter
  obtain ⟨op, eev⟩ := c
  cases op with
  | add fd events =>
      have htable : b.table.add fd events = some table := h
      simp only [apply, add, htable, growTo_filter, Option.bind_eq_bind, Option.bind_some]
      rfl
  | remove fd events =>
      have htable : b.table.remove fd events = some table := h
      have hleft : table.filter fd = b.table.leaves (.remove fd events) := hfilter
      simp only [apply, remove, htable, hleft, Option.bind_eq_bind, Option.bind_some]
      rfl

theorem ctl_op_iff (ha : b.table.Added c.op) :
    expected (b.table.filter c.op.fd ≠ 0#32) (b.table.leaves c.op ≠ 0#32) = some (b.ctl c).op ↔
      (c.op.isAdd → b.table.leaves c.op ≠ 0#32) := by
  obtain ⟨op, eev⟩ := c
  cases op with
  | add fd events =>
      by_cases hwas : b.table.filter fd = 0#32
      · by_cases hleft : b.table.leaves (.add fd events) = 0#32 <;>
          simp [expected, ctl, hwas, hleft]
      · simp [expected, ctl, hwas, leaves_add_ne hwas events]
  | remove fd events =>
      have hwas : b.table.filter fd ≠ 0#32 := ha.1
      by_cases hleft : b.table.leaves (.remove fd events) = 0#32 <;>
        simp [expected, ctl, hwas, hleft]

private theorem mask_append (table : Table EpollEvent) (x : Ctl) (fd : Nat) :
    mask ⟨table, b.ctls ++ [x]⟩ fd = if x.fd = fd then x.eevp.map (·.events) else b.mask fd := by
  simp only [mask, List.reverse_append, List.reverse_singleton, List.singleton_append,
    List.find?_cons]
  split <;> simp_all

private theorem ctl_mask_iff (hleft : b.table.leaves c.op ≠ 0#32) :
    (b.ctl c).eevp.map (·.events) = some (wanted (b.table.leaves c.op)) ↔
      c.eev.events &&& ~~~wanted (b.table.leaves c.op) = 0#32 := by
  have heevp : (b.ctl c).eevp = some (eevSet c.eev c.op.fd (b.table.leaves c.op)) := by
    obtain ⟨op, eev⟩ := c
    cases op with
    | add fd events => rfl
    | remove fd events => exact if_pos hleft
  rw [heevp, Option.map_some, Option.some.injEq, eevSet_events, or_eq_right_iff]

theorem exact_iff {table : Table EpollEvent} (hexact : b.Exact) (ha : b.table.Added c.op)
    (h : b.table.apply c.op = some table) :
    Exact ⟨table, b.ctls ++ [b.ctl c]⟩ ↔ b.Clean c := by
  have hfilter := apply_filter ha h
  have hself : (b.ctl c).fd = c.op.fd := rfl
  rw [Clean, ← addedFds_iff ha h hexact.addedFds]
  constructor
  · rintro ⟨hmask, hfds⟩
    refine ⟨hfds, fun hleft => ?_⟩
    have hlast := hmask c.op.fd
    rw [mask_append, hfilter, Function.update_self, if_pos hself] at hlast
    exact (ctl_mask_iff hleft).mp (hlast hleft)
  · rintro ⟨hfds, hclean⟩
    refine ⟨fun fd hne => ?_, hfds⟩
    rw [mask_append, hself]
    by_cases hfd : c.op.fd = fd
    · subst hfd
      rw [hfilter, Function.update_self] at hne ⊢
      rw [if_pos rfl]
      exact (ctl_mask_iff hne).mpr (hclean hne)
    · rw [hfilter, Function.update_of_ne (Ne.symm hfd)] at hne ⊢
      rw [if_neg hfd]
      exact hexact.mask fd hne

theorem exact_step (hexact : b.Exact) (ha : b.Allows c) (hclean : b.Clean c) :
    (b.step c).Exact := by
  obtain ⟨table, h⟩ := apply_isSome ha.1 ha.2
  rw [step, apply_eq_some ha.1 h, Option.getD_some]
  exact (exact_iff hexact ha.1 h).mpr hclean

theorem refines_iff (hexact : b.Exact) (ha : b.Allows c) : b.Refines c ↔ b.Clean c := by
  obtain ⟨hadded, hfits⟩ := ha
  obtain ⟨table, h⟩ := apply_isSome hadded hfits
  have hfilter := congrFun (apply_filter hadded h) c.op.fd
  rw [Function.update_self] at hfilter
  constructor
  · rintro ⟨b', ctl, hb', -, -, -, hexact'⟩
    rw [apply_eq_some hadded h, Option.some.injEq] at hb'
    rw [← hb'] at hexact'
    exact (exact_iff hexact hadded h).mp hexact'
  · intro hclean
    refine ⟨_, _, apply_eq_some hadded h, rfl, rfl, ?_, (exact_iff hexact hadded h).mpr hclean⟩
    rw [hfilter]
    exact (ctl_op_iff hadded).mpr hclean.1

theorem exact_init : init.Exact where
  mask fd hne := absurd (init_filter fd) hne
  addedFds := init_registered.symm

/-- The kernel has the filters after every call exactly when the calls find nothing else in
`eev`. -/
theorem refines_filters_iff {calls : List Call} (hrun : Admissible step Allows init calls) :
    Admissible step Refines init calls ↔ Admissible step Clean init calls := by
  refine admissible_congr (fun b c (hexact : b.Exact) ha => refines_iff hexact ha) ?_ exact_init hrun
  intro b c hexact ha hclean
  exact exact_step hexact ha hclean

/-- Two events for one descriptor, and no more of them; `eev` is empty at each call. -/
theorem refines_filters_twoEvents :
    Admissible step Refines init
      [⟨.add 5 read, default⟩, ⟨.add 5 write, default⟩, ⟨.remove 5 (read ||| write), default⟩] :=
  (refines_filters_iff (by decide)).mpr (by decide)

/-- `eev` is as `EPOLLET` was left on the stack. -/
theorem refines_filters_fails :
    ¬∀ calls : List Call, Admissible step Allows init calls → Admissible step Refines init calls := by
  intro h
  have hadd : init.Allows ⟨.add 5 read, ⟨0x80000000, 0⟩⟩ := by decide
  have hclean := (refines_iff exact_init hadd).mp (h [_] ⟨hadd, trivial⟩).1
  exact absurd (hclean.2 (by decide)) (by decide)

end EpollBase

end Angel.Dispatcher
