import Angel.Lib.Run
import Mathlib.Tactic.Common

/-!
What the back ends of `dispatcher` share: the masks of events, and the vectors that
`epoll_base_t` and `kqueue_base_t` index by descriptor and fill with events. `resize_if`
doubles a vector once; an access outside of a vector has no result here.
-/

namespace Angel.Dispatcher

open Lib

/-- An `int` whose bits are events. -/
abbrev Mask := BitVec 32

def read : Mask := 0x01

def write : Mask := 0x02

/-- `EVLIST_INIT_SIZE`. -/
def evlistInitSize : Nat := 64

/-- `resize_if`. -/
def resizeIf {α : Type*} [Inhabited α] (fd : Nat) (vec : List α) : List α :=
  if vec.length ≤ fd then vec ++ List.replicate vec.length default else vec

/-- A call of `add` or `remove`. -/
inductive Change (κ ε : Type) where
  | add (fd : κ) (events : ε)
  | remove (fd : κ) (events : ε)
  deriving DecidableEq, Repr

namespace Change

variable {κ ε ε' : Type}

@[simp] def fd : Change κ ε → κ
  | .add fd _ => fd
  | .remove fd _ => fd

@[simp] def events : Change κ ε → ε
  | .add _ events => events
  | .remove _ events => events

@[simp] def isAdd : Change κ ε → Bool
  | .add _ _ => true
  | .remove _ _ => false

@[simp] def map (f : ε → ε') : Change κ ε → Change κ ε'
  | .add fd events => .add fd (f events)
  | .remove fd events => .remove fd (f events)

end Change

abbrev Op := Change Nat Mask

/-- The members `added_fds`, `evlist` and `evmap`. -/
structure Table (ε : Type) where
  addedFds : Nat
  evlist : List ε
  evmap : List Mask
  deriving DecidableEq, Repr

namespace Table

variable {ε : Type}

/-- The filter of a descriptor; none is registered outside of the table. -/
def filter (t : Table ε) (fd : Nat) : Mask := t.evmap[fd]?.getD 0#32

/-- The filter that a call has for its descriptor. -/
def leaves (t : Table ε) : Op → Mask
  | .add fd events => t.filter fd ||| events
  | .remove fd events => t.filter fd &&& ~~~events

/-- How many descriptors are registered. -/
def registered (t : Table ε) : Nat := t.evmap.countP (· ≠ 0#32)

/-- The table behind `resize_if(fd, evmap)`. -/
def growTo (fd : Nat) (t : Table ε) : Table ε := { t with evmap := resizeIf fd t.evmap }

def remove (fd : Nat) (events : Mask) (t : Table ε) : Option (Table ε) := do
  let filter ← t.evmap[fd]?
  let filter := filter &&& ~~~events
  -- Where something is there to be removed, it has been counted.
  some
    { t with
      evmap := t.evmap.set fd filter
      addedFds := if filter = 0#32 then t.addedFds - 1 else t.addedFds }

/-- The call removes only events that are there. -/
def Added (t : Table ε) : Op → Prop
  | .add _ _ => True
  | .remove fd events => t.filter fd ≠ 0#32 ∧ events &&& t.filter fd = events

/-- The descriptor is less than twice the size of the table. -/
def Fits (t : Table ε) : Op → Prop
  | .add fd _ => fd < 2 * t.evmap.length
  | .remove _ _ => True

instance (t : Table ε) : (op : Op) → Decidable (t.Added op)
  | .add _ _ => inferInstanceAs (Decidable True)
  | .remove _ _ => inferInstanceAs (Decidable (_ ∧ _))

instance (t : Table ε) : (op : Op) → Decidable (t.Fits op)
  | .add _ _ => inferInstanceAs (Decidable (_ < _))
  | .remove _ _ => inferInstanceAs (Decidable True)

variable [Inhabited ε]

def init : Table ε where
  addedFds := 0
  evlist := List.replicate evlistInitSize default
  evmap := List.replicate evlistInitSize 0#32

def add (fd : Nat) (events : Mask) (t : Table ε) : Option (Table ε) := do
  let t := t.growTo fd
  let filter ← t.evmap[fd]?
  let t :=
    if filter = 0#32 then
      { t with addedFds := t.addedFds + 1, evlist := resizeIf (t.addedFds + 1) t.evlist }
    else t
  some { t with evmap := t.evmap.set fd (filter ||| events) }

def apply (t : Table ε) : Op → Option (Table ε)
  | .add fd events => t.add fd events
  | .remove fd events => t.remove fd events

/-- A run goes no further than a call that has no result. -/
def step (t : Table ε) (op : Op) : Table ε := (t.apply op).getD t

/-- The call stays inside of `evmap`, and leaves `evlist` with room for what is registered. -/
def InBounds (t : Table ε) (op : Op) : Prop :=
  ∃ t', t.apply op = some t' ∧ t'.registered < t'.evlist.length

end Table

private theorem resizeIf_length {α : Type*} [Inhabited α] (fd : Nat) (vec : List α) :
    (resizeIf fd vec).length = if vec.length ≤ fd then 2 * vec.length else vec.length := by
  unfold resizeIf
  split
  · rw [List.length_append, List.length_replicate, Nat.two_mul]
  · rfl

theorem lt_resizeIf_length_iff {α : Type*} [Inhabited α] (fd : Nat) (vec : List α) :
    fd < (resizeIf fd vec).length ↔ fd < 2 * vec.length := by
  rw [resizeIf_length]
  split <;> omega

theorem resizeIf_getElem? (fd : Nat) (vec : List Mask) (other : Nat) :
    (resizeIf fd vec)[other]?.getD 0#32 = vec[other]?.getD 0#32 := by
  unfold resizeIf
  split
  · rcases Nat.lt_or_ge other vec.length with hlt | hge
    · rw [List.getElem?_append_left hlt]
    · rw [List.getElem?_append_right hge, List.getElem?_eq_none hge, List.getElem?_replicate]
      split <;> rfl
  · rfl

theorem resizeIf_countP (fd : Nat) (vec : List Mask) :
    (resizeIf fd vec).countP (· ≠ 0#32) = vec.countP (· ≠ 0#32) := by
  unfold resizeIf
  split
  · rw [List.countP_append, List.countP_replicate, if_neg (by decide), Nat.add_zero]
  · rfl

namespace Table

variable {ε : Type}

theorem getElem?_evmap {t : Table ε} {fd : Nat} (h : fd < t.evmap.length) :
    t.evmap[fd]? = some (t.filter fd) := by
  rw [filter, List.getElem?_eq_getElem h, Option.getD_some]

theorem lt_of_filter_ne {t : Table ε} {fd : Nat} (h : t.filter fd ≠ 0#32) : fd < t.evmap.length := by
  by_contra hge
  rw [filter, List.getElem?_eq_none (Nat.le_of_not_lt hge)] at h
  exact h rfl

theorem growTo_filter (fd : Nat) (t : Table ε) : (t.growTo fd).filter = t.filter :=
  funext (resizeIf_getElem? fd t.evmap)

theorem leaves_add_ne {t : Table ε} {fd : Nat} (hwas : t.filter fd ≠ 0#32) (events : Mask) :
    t.leaves (.add fd events) ≠ 0#32 :=
  fun hleft => hwas (BitVec.or_eq_zero_iff.mp hleft).1

theorem remove_eq_some {t : Table ε} {fd : Nat} (h : fd < t.evmap.length) (events : Mask) :
    t.remove fd events = some
      { addedFds := if t.filter fd &&& ~~~events = 0#32 then t.addedFds - 1 else t.addedFds
        evlist := t.evlist
        evmap := t.evmap.set fd (t.filter fd &&& ~~~events) } := by
  rw [remove, getElem?_evmap h]
  rfl

theorem countP_set_filter {vec : List Mask} {fd : Nat} (h : fd < vec.length) (f : Mask) :
    (vec.set fd f).countP (· ≠ 0#32) + (if vec[fd]?.getD 0#32 = 0#32 then 0 else 1) =
      vec.countP (· ≠ 0#32) + if f = 0#32 then 0 else 1 := by
  have hpos : vec[fd] ≠ 0#32 → 0 < vec.countP (· ≠ 0#32) := fun hne =>
    List.countP_pos_iff.mpr ⟨vec[fd], List.getElem_mem h, decide_eq_true hne⟩
  rw [List.countP_set h, List.getElem?_eq_getElem h, Option.getD_some]
  simp only [decide_eq_true_eq, ite_not, ne_eq] at hpos ⊢
  split
  · omega
  · have := hpos ‹_›
    omega

theorem filter_set {t t' : Table ε} {fd : Nat} {vec : List Mask} {f : Mask} (hlt : fd < vec.length)
    (hvec : ∀ other, vec[other]?.getD 0#32 = t.filter other) (h : t'.evmap = vec.set fd f) :
    t'.filter = Function.update t.filter fd f := by
  funext other
  rw [filter, h, List.getElem?_set, Function.update_apply, ← hvec]
  by_cases hother : other = fd
  · simp [hother, hlt]
  · simp [hother, Ne.symm hother]

theorem remove_filter {t t' : Table ε} {fd : Nat} {events : Mask} (hlt : fd < t.evmap.length)
    (h : t.remove fd events = some t') :
    t'.filter = Function.update t.filter fd (t.filter fd &&& ~~~events) := by
  rw [remove_eq_some hlt, Option.some.injEq] at h
  subst h
  exact filter_set hlt (fun _ => rfl) rfl

theorem remove_registered {t t' : Table ε} {fd : Nat} {events : Mask} (hlt : fd < t.evmap.length)
    (h : t.remove fd events = some t') :
    t'.registered + (if t.filter fd = 0#32 then 0 else 1) =
      t.registered + if t.filter fd &&& ~~~events = 0#32 then 0 else 1 := by
  rw [remove_eq_some hlt, Option.some.injEq] at h
  subst h
  exact countP_set_filter hlt _

theorem remove_addedFds {t t' : Table ε} {fd : Nat} {events : Mask} (hlt : fd < t.evmap.length)
    (h : t.remove fd events = some t') :
    t'.addedFds = if t.filter fd &&& ~~~events = 0#32 then t.addedFds - 1 else t.addedFds := by
  rw [remove_eq_some hlt, Option.some.injEq] at h
  subst h
  rfl

theorem remove_evlist {t t' : Table ε} {fd : Nat} {events : Mask} (hlt : fd < t.evmap.length)
    (h : t.remove fd events = some t') : t'.evlist = t.evlist := by
  rw [remove_eq_some hlt, Option.some.injEq] at h
  subst h
  rfl

variable [Inhabited ε]

theorem init_filter (fd : Nat) : (init : Table ε).filter fd = 0#32 := by
  rw [filter, init, List.getElem?_replicate]
  split <;> rfl

theorem init_registered : (init : Table ε).registered = 0 := by
  rw [registered, init, List.countP_replicate, if_neg (by decide)]

theorem add_eq_some {t : Table ε} {fd : Nat} (h : fd < 2 * t.evmap.length) (events : Mask) :
    t.add fd events = some
      { addedFds := if t.filter fd = 0#32 then t.addedFds + 1 else t.addedFds
        evlist := if t.filter fd = 0#32 then resizeIf (t.addedFds + 1) t.evlist else t.evlist
        evmap := (resizeIf fd t.evmap).set fd (t.filter fd ||| events) } := by
  have hslot : (t.growTo fd).evmap[fd]? = some (t.filter fd) := by
    rw [getElem?_evmap ((lt_resizeIf_length_iff fd t.evmap).mpr h), growTo_filter]
  unfold add
  simp only [hslot, Option.bind_eq_bind, Option.bind_some]
  split <;> rfl

private theorem add_eq_none {t : Table ε} {fd : Nat} (h : ¬fd < 2 * t.evmap.length)
    (events : Mask) :
    t.add fd events = none := by
  have hslot : (t.growTo fd).evmap[fd]? = none :=
    List.getElem?_eq_none (Nat.le_of_not_lt ((lt_resizeIf_length_iff fd t.evmap).not.mpr h))
  unfold add
  simp only [hslot, Option.bind_eq_bind, Option.bind_none]

theorem lt_of_add {t t' : Table ε} {fd : Nat} {events : Mask} (h : t.add fd events = some t') :
    fd < 2 * t.evmap.length := by
  by_contra hge
  rw [add_eq_none hge] at h
  exact absurd h (by simp)

theorem add_filter {t t' : Table ε} {fd : Nat} {events : Mask} (h : t.add fd events = some t') :
    t'.filter = Function.update t.filter fd (t.filter fd ||| events) := by
  have hlt := lt_of_add h
  rw [add_eq_some hlt, Option.some.injEq] at h
  subst h
  exact filter_set ((lt_resizeIf_length_iff fd t.evmap).mpr hlt) (resizeIf_getElem? fd t.evmap) rfl

theorem add_registered {t t' : Table ε} {fd : Nat} {events : Mask}
    (h : t.add fd events = some t') :
    t'.registered + (if t.filter fd = 0#32 then 0 else 1) =
      t.registered + if t.filter fd ||| events = 0#32 then 0 else 1 := by
  have hlt := lt_of_add h
  have hcount := countP_set_filter ((lt_resizeIf_length_iff fd t.evmap).mpr hlt)
    (t.filter fd ||| events)
  rw [resizeIf_getElem?, resizeIf_countP] at hcount
  rw [add_eq_some hlt, Option.some.injEq] at h
  subst h
  exact hcount

theorem add_addedFds {t t' : Table ε} {fd : Nat} {events : Mask}
    (h : t.add fd events = some t') :
    t'.addedFds = if t.filter fd = 0#32 then t.addedFds + 1 else t.addedFds := by
  rw [add_eq_some (lt_of_add h), Option.some.injEq] at h
  subst h
  rfl

theorem add_evlist {t t' : Table ε} {fd : Nat} {events : Mask} (h : t.add fd events = some t') :
    t'.evlist = if t.filter fd = 0#32 then resizeIf (t.addedFds + 1) t.evlist else t.evlist := by
  rw [add_eq_some (lt_of_add h), Option.some.injEq] at h
  subst h
  rfl

end Table

namespace Table

variable {ε : Type}

/-- `evlist` has room for what is counted, and everything registered is counted. -/
structure Sized (t : Table ε) : Prop where
  registered_le : t.registered ≤ t.addedFds
  addedFds_lt : t.addedFds < t.evlist.length

theorem sized_remove {t t' : Table ε} {fd : Nat} {events : Mask} (hs : t.Sized)
    (hadded : t.filter fd ≠ 0#32) (h : t.remove fd events = some t') : t'.Sized := by
  have hin := lt_of_filter_ne hadded
  have hregistered := remove_registered hin h
  have hfds := remove_addedFds hin h
  have hevlist := remove_evlist hin h
  have hle := hs.registered_le
  have hlt := hs.addedFds_lt
  rw [if_neg hadded] at hregistered
  by_cases hlast : t.filter fd &&& ~~~events = 0#32
  · rw [if_pos hlast] at hregistered hfds
    exact ⟨by omega, by rw [hevlist]; omega⟩
  · rw [if_neg hlast] at hregistered hfds
    exact ⟨by omega, by rwa [hfds, hevlist]⟩

variable [Inhabited ε]

theorem sized_init : (init : Table ε).Sized := by
  constructor
  · rw [init_registered]
    exact Nat.zero_le _
  · exact List.length_replicate.symm ▸ (by decide : 0 < evlistInitSize)

theorem sized_add {t t' : Table ε} {fd : Nat} {events : Mask} (hs : t.Sized)
    (h : t.add fd events = some t') : t'.Sized := by
  have hregistered := add_registered h
  have hfds := add_addedFds h
  have hevlist := add_evlist h
  have hle := hs.registered_le
  have hlt := hs.addedFds_lt
  by_cases hnew : t.filter fd = 0#32
  · rw [if_pos hnew] at hregistered hfds hevlist
    constructor
    · split at hregistered <;> omega
    · rw [hfds, hevlist, lt_resizeIf_length_iff]
      omega
  · have hleft : t.filter fd ||| events ≠ 0#32 := leaves_add_ne hnew events
    rw [if_neg hnew] at hregistered hfds hevlist
    rw [if_neg hleft] at hregistered
    exact ⟨by omega, by rwa [hfds, hevlist]⟩

theorem apply_filter {t t' : Table ε} {op : Op} (ha : t.Added op) (h : t.apply op = some t') :
    t'.filter = Function.update t.filter op.fd (t.leaves op) := by
  cases op with
  | add fd events => exact add_filter h
  | remove fd events => exact remove_filter (lt_of_filter_ne ha.1) h

private theorem apply_registered {t t' : Table ε} {op : Op} (ha : t.Added op)
    (h : t.apply op = some t') :
    t'.registered + (if t.filter op.fd = 0#32 then 0 else 1) =
      t.registered + if t.leaves op = 0#32 then 0 else 1 := by
  cases op with
  | add fd events => exact add_registered h
  | remove fd events => exact remove_registered (lt_of_filter_ne ha.1) h

/-- `added_fds` goes on to count the registered descriptors, unless an `add` registers
nothing. -/
theorem addedFds_iff {t t' : Table ε} {op : Op} (ha : t.Added op) (h : t.apply op = some t')
    (hexact : t.addedFds = t.registered) :
    t'.addedFds = t'.registered ↔ (op.isAdd → t.leaves op ≠ 0#32) := by
  have hregistered := apply_registered ha h
  cases op with
  | add fd events =>
      have hfds := add_addedFds h
      rw [Change.isAdd, imp_iff_right rfl]
      rw [Change.fd] at hregistered
      by_cases hwas : t.filter fd = 0#32
      · rw [if_pos hwas] at hregistered hfds
        split at hregistered
        · exact iff_of_false (by omega) (not_not_intro ‹_›)
        · exact iff_of_true (by omega) ‹_›
      · have hleft := leaves_add_ne hwas events
        rw [if_neg hwas] at hregistered hfds
        rw [if_neg hleft] at hregistered
        exact iff_of_true (by omega) hleft
  | remove fd events =>
      have hwas : t.filter fd ≠ 0#32 := ha.1
      have hfds := remove_addedFds (lt_of_filter_ne hwas) h
      refine iff_of_true ?_ nofun
      rw [Change.fd, if_neg hwas, leaves] at hregistered
      by_cases hleft : t.filter fd &&& ~~~events = 0#32
      · rw [if_pos hleft] at hregistered hfds
        omega
      · rw [if_neg hleft] at hregistered hfds
        omega

theorem apply_isSome {t : Table ε} {op : Op} (ha : t.Added op) (hf : t.Fits op) :
    ∃ t', t.apply op = some t' := by
  cases op with
  | add fd events => exact ⟨_, add_eq_some hf events⟩
  | remove fd events => exact ⟨_, remove_eq_some (lt_of_filter_ne ha.1) events⟩

theorem sized_apply {t t' : Table ε} {op : Op} (hs : t.Sized) (ha : t.Added op)
    (h : t.apply op = some t') : t'.Sized := by
  cases op with
  | add fd events => exact sized_add hs h
  | remove fd events => exact sized_remove hs ha.1 h

private theorem sized_step {t : Table ε} {op : Op} (hs : t.Sized) (ha : t.Added op) :
    (t.step op).Sized := by
  rw [step]
  cases h : t.apply op with
  | none => exact hs
  | some t' => exact sized_apply hs ha h

private theorem inBounds_iff {t : Table ε} {op : Op} (hs : t.Sized) (ha : t.Added op) :
    t.InBounds op ↔ t.Fits op := by
  constructor
  · rintro ⟨t', h, -⟩
    cases op with
    | add fd events => exact lt_of_add h
    | remove fd events => trivial
  · intro hf
    obtain ⟨t', h⟩ := apply_isSome ha hf
    have hs' := sized_apply hs ha h
    exact ⟨t', h, Nat.lt_of_le_of_lt hs'.registered_le hs'.addedFds_lt⟩

private theorem run_inBounds_iff {ops : List Op}
    (hrun : Admissible step Added (init : Table ε) ops) :
    Admissible step InBounds (init : Table ε) ops ↔ Admissible step Fits (init : Table ε) ops := by
  refine admissible_congr (fun t op (hs : t.Sized) ha => inBounds_iff hs ha) ?_ sized_init hrun
  intro t op hs ha _
  exact sized_step hs ha

end Table

section

variable {β γ ε : Type} [Inhabited ε] {table : β → Table ε} {op : γ → Op}
  {apply : β → γ → Option β}

theorem run_inBounds_iff_of_table
    (happly : ∀ b c, (apply b c).map table = (table b).apply (op c)) {b : β}
    (hinit : table b = .init) {calls : List γ}
    (hrun : Admissible (fun b c => (apply b c).getD b) (fun b c => (table b).Added (op c)) b calls) :
    Admissible (fun b c => (apply b c).getD b)
        (fun b c => ∃ b', apply b c = some b' ∧ (table b').registered < (table b').evlist.length)
        b calls ↔
      Admissible (fun b c => (apply b c).getD b) (fun b c => (table b).Fits (op c)) b calls := by
  have hstep : ∀ b c, table ((apply b c).getD b) = (table b).step (op c) := by
    intro b c
    rw [Table.step, ← happly]
    cases apply b c <;> rfl
  have hbounds : (fun b c => ∃ b', apply b c = some b' ∧
      (table b').registered < (table b').evlist.length) = fun b c => (table b).InBounds (op c) := by
    funext b c
    rw [Table.InBounds, ← happly]
    cases apply b c <;> simp
  rw [hbounds, admissible_map hstep, admissible_map hstep, hinit]
  rw [admissible_map hstep, hinit] at hrun
  exact Table.run_inBounds_iff hrun

end

end Angel.Dispatcher
