import Angel.Dispatcher.Interest
import Mathlib.Data.Finset.Card

/-!
`select_base_t`: two sets of descriptors, those that are in either, and a bound of them. What
`select` reports are a part of each set and how many bits that is; `wait` goes through the
descriptors in some order, until it has seen as many that are ready.
-/

namespace Angel.Dispatcher

open Lib

/-- `FD_SETSIZE`. -/
def fdSetSize : Nat := 1024

/-- A descriptor that an `fd_set` has a bit for. -/
abbrev Fd := Fin fdSetSize

/-- The triggers of the channels, and `active_channels` by their descriptors. -/
structure Active where
  trigger : Fd → Mask
  channels : List Fd

structure SelectBase where
  rdset : Finset Fd
  wrset : Finset Fd
  fds : Finset Fd
  maxfd : Int
  deriving DecidableEq

namespace SelectBase

def init : SelectBase where
  rdset := ∅
  wrset := ∅
  fds := ∅
  maxfd := -1

def add (fd : Fd) (events : Mask) (b : SelectBase) : SelectBase :=
  let rdset := if events &&& read ≠ 0#32 then insert fd b.rdset else b.rdset
  let wrset := if events &&& write ≠ 0#32 then insert fd b.wrset else b.wrset
  if fd ∈ b.fds then { b with rdset := rdset, wrset := wrset }
  else
    { rdset := rdset, wrset := wrset, fds := insert fd b.fds, maxfd := max b.maxfd fd }

def remove (fd : Fd) (events : Mask) (b : SelectBase) : SelectBase :=
  let rdset := if events &&& read ≠ 0#32 then b.rdset.erase fd else b.rdset
  let wrset := if events &&& write ≠ 0#32 then b.wrset.erase fd else b.wrset
  if fd ∉ rdset ∧ fd ∉ wrset then
    { rdset := rdset
      wrset := wrset
      fds := b.fds.erase fd
      maxfd := if (fd : Int) = b.maxfd then b.maxfd - 1 else b.maxfd }
  else { b with rdset := rdset, wrset := wrset }

def step (b : SelectBase) : Change Fd Mask → SelectBase
  | .add fd events => b.add fd events
  | .remove fd events => b.remove fd events

/-- The loop of `wait` over descriptors, with `nevents` left. -/
def dispatch (rd wr : Finset Fd) : List Fd → Int → Active → Active
  | [], _, a => a
  | fd :: fds, nevents, a =>
      let trigger := a.trigger fd
      let trigger := if fd ∈ rd then trigger ||| read else trigger
      let trigger := if fd ∈ wr then trigger ||| write else trigger
      let a :=
        { trigger := Function.update a.trigger fd trigger, channels := a.channels ++ [fd] : Active }
      if trigger ≠ 0#32 then
        if nevents - 1 = 0 then a else dispatch rd wr fds (nevents - 1) a
      else dispatch rd wr fds nevents a

/-- `wait`, when `select` leaves `rd` and `wr` in the sets and returns `nevents`; `order` is
how `fds` is iterated. A failed `Assert` has no result. -/
def wait (order : List Fd) (rd wr : Finset Fd) (nevents : Int) (b : SelectBase) (a : Active) :
    Option Active :=
  let nfds := b.maxfd + 1
  if 0 ≤ nfds then some (if nevents > 0 then dispatch rd wr order nevents a else a) else none

/-- The events of a descriptor in what `select` reports. -/
def ready (rd wr : Finset Fd) (fd : Fd) : Mask :=
  (if fd ∈ rd then read else 0#32) ||| if fd ∈ wr then write else 0#32

/-- The sets hold an interest, and `maxfd` is a bound of the descriptors. -/
structure Covers (b : SelectBase) (m : Interest Fd) : Prop where
  rdset : ∀ fd, fd ∈ b.rdset ↔ Event.read ∈ m fd
  wrset : ∀ fd, fd ∈ b.wrset ↔ Event.write ∈ m fd
  watched : b.rdset ∪ b.wrset ⊆ b.fds
  maxfd : ∀ fd ∈ b.fds, (fd : Int) ≤ b.maxfd
  nfds : -1 ≤ b.maxfd

/-- Whatever part of the sets `select` reports, each channel that had no trigger has exactly
its events behind `wait`. -/
def Dispatches (b : SelectBase) : Prop :=
  ∀ order : List Fd, order.Nodup → (∀ fd, fd ∈ order ↔ fd ∈ b.fds) →
    ∀ rd wr, rd ⊆ b.rdset → wr ⊆ b.wrset → ∀ a : Active, (∀ fd ∈ b.fds, a.trigger fd = 0#32) →
      ∃ a', b.wait order rd wr (rd.card + wr.card) a = some a' ∧
        ∀ fd ∈ b.fds, a'.trigger fd = ready rd wr fd

variable {b : SelectBase} {m : Interest Fd} {fd : Fd} {events : Mask}

theorem add_rdset : (b.add fd events).rdset =
    if events &&& read ≠ 0#32 then insert fd b.rdset else b.rdset := by
  simp only [add, apply_ite SelectBase.rdset, ite_self]

theorem add_wrset : (b.add fd events).wrset =
    if events &&& write ≠ 0#32 then insert fd b.wrset else b.wrset := by
  simp only [add, apply_ite SelectBase.wrset, ite_self]

theorem add_fds : (b.add fd events).fds = insert fd b.fds := by
  simp only [add, apply_ite SelectBase.fds]
  exact ite_eq_right_iff.mpr fun hmem => (Finset.insert_eq_self.mpr hmem).symm

theorem add_maxfd : (b.add fd events).maxfd = if fd ∈ b.fds then b.maxfd else max b.maxfd fd := by
  simp only [add, apply_ite SelectBase.maxfd]

theorem remove_rdset : (b.remove fd events).rdset =
    if events &&& read ≠ 0#32 then b.rdset.erase fd else b.rdset := by
  simp only [remove, apply_ite SelectBase.rdset, ite_self]

theorem remove_wrset : (b.remove fd events).wrset =
    if events &&& write ≠ 0#32 then b.wrset.erase fd else b.wrset := by
  simp only [remove, apply_ite SelectBase.wrset, ite_self]

theorem remove_rdset_subset : (b.remove fd events).rdset ⊆ b.rdset := by
  rw [remove_rdset]
  split
  · exact Finset.erase_subset _ _
  · exact Finset.Subset.refl _

theorem remove_wrset_subset : (b.remove fd events).wrset ⊆ b.wrset := by
  rw [remove_wrset]
  split
  · exact Finset.erase_subset _ _
  · exact Finset.Subset.refl _

theorem remove_fds : (b.remove fd events).fds =
    if fd ∉ (b.remove fd events).rdset ∧ fd ∉ (b.remove fd events).wrset then b.fds.erase fd
    else b.fds := by
  rw [remove_rdset, remove_wrset]
  simp only [remove, apply_ite SelectBase.fds]

theorem remove_maxfd : (b.remove fd events).maxfd =
    if (fd ∉ (b.remove fd events).rdset ∧ fd ∉ (b.remove fd events).wrset) ∧ (fd : Int) = b.maxfd then
      b.maxfd - 1
    else b.maxfd := by
  rw [remove_rdset, remove_wrset, ite_and]
  simp only [remove, apply_ite SelectBase.maxfd]

theorem covers_init : init.Covers Interest.none where
  rdset _ := iff_of_false (Finset.notMem_empty _) (Finset.notMem_empty _)
  wrset _ := iff_of_false (Finset.notMem_empty _) (Finset.notMem_empty _)
  watched := Finset.empty_subset _
  maxfd _ hmem := absurd hmem (Finset.notMem_empty _)
  nfds := Int.le_refl _

section

variable {s : Finset Fd} {e : Event} {bit : Mask}

private theorem mem_set_iff (hs : ∀ fd, fd ∈ s ↔ e ∈ m fd)
    (hbit : e ∈ eventsOf events ↔ events &&& bit ≠ 0#32)
    (other : Fd) :
    (other ∈ if events &&& bit ≠ 0#32 then insert fd s else s) ↔
      e ∈ m.step (.add fd (eventsOf events)) other := by
  rw [Interest.step, Function.update_apply]
  by_cases hother : other = fd
  · subst other
    rw [if_pos rfl, Finset.mem_union, ← hs, hbit]
    split
    · exact iff_of_true (Finset.mem_insert_self _ _) (.inr ‹_›)
    · rw [or_iff_left ‹_›]
  · rw [if_neg hother, ← hs]
    split
    · rw [Finset.mem_insert, or_iff_right hother]
    · exact Iff.rfl

private theorem mem_clr_iff (hs : ∀ fd, fd ∈ s ↔ e ∈ m fd)
    (hbit : e ∈ eventsOf events ↔ events &&& bit ≠ 0#32)
    (other : Fd) :
    (other ∈ if events &&& bit ≠ 0#32 then s.erase fd else s) ↔
      e ∈ m.step (.remove fd (eventsOf events)) other := by
  rw [Interest.step, Function.update_apply]
  by_cases hother : other = fd
  · subst other
    rw [if_pos rfl, Finset.mem_sdiff, ← hs, hbit]
    split
    · exact iff_of_false (Finset.notMem_erase _ _) fun hboth => hboth.2 ‹_›
    · rw [and_iff_left ‹_›]
  · rw [if_neg hother, ← hs]
    split
    · rw [Finset.mem_erase, and_iff_right hother]
    · exact Iff.rfl

end

private theorem covers_add (h : b.Covers m) :
    (b.add fd events).Covers (m.step (.add fd (eventsOf events))) where
  rdset other := by
    rw [add_rdset]
    exact mem_set_iff h.rdset (read_mem_eventsOf events) other
  wrset other := by
    rw [add_wrset]
    exact mem_set_iff h.wrset (write_mem_eventsOf events) other
  watched := by
    obtain ⟨hrd, hwr⟩ := Finset.union_subset_iff.mp h.watched
    rw [add_fds, add_rdset, add_wrset, Finset.union_subset_iff]
    constructor <;> split
    · exact Finset.insert_subset_insert _ hrd
    · exact hrd.trans (Finset.subset_insert _ _)
    · exact Finset.insert_subset_insert _ hwr
    · exact hwr.trans (Finset.subset_insert _ _)
  maxfd other hother := by
    rw [add_fds, Finset.mem_insert] at hother
    rw [add_maxfd]
    split
    · rcases hother with rfl | hold
      · exact h.maxfd _ ‹_›
      · exact h.maxfd _ hold
    · rcases hother with rfl | hold
      · exact le_max_right _ _
      · exact (h.maxfd _ hold).trans (le_max_left _ _)
  nfds := by
    rw [add_maxfd]
    split
    · exact h.nfds
    · exact h.nfds.trans (le_max_left _ _)

private theorem covers_remove (h : b.Covers m) :
    (b.remove fd events).Covers (m.step (.remove fd (eventsOf events))) where
  rdset other := by
    rw [remove_rdset]
    exact mem_clr_iff h.rdset (read_mem_eventsOf events) other
  wrset other := by
    rw [remove_wrset]
    exact mem_clr_iff h.wrset (write_mem_eventsOf events) other
  watched := by
    have hsub : (b.remove fd events).rdset ∪ (b.remove fd events).wrset ⊆ b.fds :=
      (Finset.union_subset_union remove_rdset_subset remove_wrset_subset).trans h.watched
    rw [remove_fds]
    split
    · rename_i hgone
      refine fun other hother => Finset.mem_erase.mpr ⟨?_, hsub hother⟩
      rintro rfl
      rcases Finset.mem_union.mp hother with hrd | hwr
      · exact hgone.1 hrd
      · exact hgone.2 hwr
    · exact hsub
  maxfd other hother := by
    rw [remove_fds] at hother
    rw [remove_maxfd]
    split at hother
    · rename_i hgone
      obtain ⟨hne, hmem⟩ := Finset.mem_erase.mp hother
      have hle := h.maxfd other hmem
      have hval : (other : Nat) ≠ fd := fun hval => hne (Fin.ext hval)
      by_cases hlast : (fd : Int) = b.maxfd
      · rw [if_pos ⟨hgone, hlast⟩]
        omega
      · rw [if_neg fun hboth => hlast hboth.2]
        exact hle
    · rename_i hstays
      rw [if_neg fun hgone => hstays hgone.1]
      exact h.maxfd other hother
  nfds := by
    have := h.nfds
    rw [remove_maxfd]
    split <;> omega

private theorem covers_step (h : b.Covers m) (c : Change Fd Mask) :
    (b.step c).Covers (m.step (c.map eventsOf)) := by
  cases c with
  | add fd events => exact covers_add h
  | remove fd events => exact covers_remove h

theorem covers_run (calls : List (Change Fd Mask)) :
    (run step init calls).Covers (Interest.of (calls.map (Change.map eventsOf))) := by
  refine run_related (fun b m c h => ?_) calls covers_init
  exact covers_step h c

theorem fds_add (h : b.fds = b.rdset ∪ b.wrset) (hevents : (eventsOf events).Nonempty) :
    (b.add fd events).fds = (b.add fd events).rdset ∪ (b.add fd events).wrset := by
  rw [add_fds, add_rdset, add_wrset, h]
  by_cases hread : events &&& read ≠ 0#32
  · rw [if_pos hread]
    by_cases hwrite : events &&& write ≠ 0#32
    · rw [if_pos hwrite, Finset.insert_union_distrib]
    · rw [if_neg hwrite, Finset.insert_union]
  · obtain ⟨e, he⟩ := hevents
    have hwrite : events &&& write ≠ 0#32 := by
      cases e with
      | read => exact absurd ((read_mem_eventsOf events).mp he) hread
      | write => exact (write_mem_eventsOf events).mp he
    rw [if_neg hread, if_pos hwrite, Finset.union_insert]

private theorem remove_rdset_erase : (b.remove fd events).rdset.erase fd = b.rdset.erase fd := by
  rw [remove_rdset]
  split
  · exact Finset.erase_idem
  · rfl

private theorem remove_wrset_erase : (b.remove fd events).wrset.erase fd = b.wrset.erase fd := by
  rw [remove_wrset]
  split
  · exact Finset.erase_idem
  · rfl

private theorem fds_remove (h : b.fds = b.rdset ∪ b.wrset) :
    (b.remove fd events).fds = (b.remove fd events).rdset ∪ (b.remove fd events).wrset := by
  have herase : ((b.remove fd events).rdset ∪ (b.remove fd events).wrset).erase fd =
      (b.rdset ∪ b.wrset).erase fd := by
    rw [Finset.erase_union_distrib, remove_rdset_erase, remove_wrset_erase,
      ← Finset.erase_union_distrib]
  rw [remove_fds, h]
  split
  · rename_i hgone
    rw [← herase, Finset.erase_eq_of_notMem]
    rw [Finset.mem_union, not_or]
    exact hgone
  · rename_i hstays
    have hstays : fd ∈ (b.remove fd events).rdset ∪ (b.remove fd events).wrset := by
      rwa [Finset.mem_union, or_iff_not_and_not]
    have hbefore := Finset.union_subset_union remove_rdset_subset remove_wrset_subset hstays
    rw [← Finset.insert_erase hbefore, ← herase, Finset.insert_erase hstays]

/-- Where every `add` has an event, only descriptors with an event are kept. -/
theorem fds_step (h : b.fds = b.rdset ∪ b.wrset) {c : Change Fd Mask}
    (hc : c.isAdd → (eventsOf c.events).Nonempty) :
    (b.step c).fds = (b.step c).rdset ∪ (b.step c).wrset := by
  cases c with
  | add fd events => exact fds_add h (hc rfl)
  | remove fd events => exact fds_remove h

theorem fds_run (h : b.fds = b.rdset ∪ b.wrset) {calls : List (Change Fd Mask)}
    (hcalls : ∀ c ∈ calls, c.isAdd → (eventsOf c.events).Nonempty) :
    (run step b calls).fds = (run step b calls).rdset ∪ (run step b calls).wrset := by
  induction calls generalizing b with
  | nil => exact h
  | cons c calls ih =>
      obtain ⟨hfirst, hrest⟩ := List.forall_mem_cons.mp hcalls
      exact ih (fds_step h hfirst) hrest

theorem ready_ne_iff (rd wr : Finset Fd) (fd : Fd) : ready rd wr fd ≠ 0#32 ↔ fd ∈ rd ∪ wr := by
  unfold ready
  rw [Finset.mem_union]
  split <;> split <;> simp_all [read, write]

theorem ready_eq_zero {rd wr : Finset Fd} (h : fd ∉ rd ∪ wr) : ready rd wr fd = 0#32 :=
  not_not.mp ((ready_ne_iff rd wr fd).not.mpr h)

private theorem trigger_eq_ready (rd wr : Finset Fd) (fd : Fd) :
    (if fd ∈ wr then (if fd ∈ rd then 0#32 ||| read else 0#32) ||| write
      else if fd ∈ rd then 0#32 ||| read else 0#32) = ready rd wr fd := by
  unfold ready
  split <;> split <;> simp

private theorem dispatch_cons (rd wr : Finset Fd) (fds : List Fd) (nevents : Int) {a : Active}
    (hzero : a.trigger fd = 0#32) :
    ∃ a' : Active, a'.trigger = Function.update a.trigger fd (ready rd wr fd) ∧
      dispatch rd wr (fd :: fds) nevents a =
        if fd ∈ rd ∪ wr then if nevents - 1 = 0 then a' else dispatch rd wr fds (nevents - 1) a'
        else dispatch rd wr fds nevents a' := by
  refine ⟨⟨Function.update a.trigger fd (ready rd wr fd), a.channels ++ [fd]⟩, rfl, ?_⟩
  rw [dispatch, hzero, trigger_eq_ready]
  simp only [ready_ne_iff]

/-- While no more channels are ready than events are left, the loop stops behind the last
of them. -/
theorem dispatch_trigger {rd wr : Finset Fd} {order : List Fd} {nevents : Int} {a : Active}
    (hnodup : order.Nodup) (hcount : order.countP (· ∈ rd ∪ wr) ≤ nevents)
    (hzero : ∀ fd ∈ order, a.trigger fd = 0#32) (fd : Fd) :
    (dispatch rd wr order nevents a).trigger fd =
      if fd ∈ order then ready rd wr fd else a.trigger fd := by
  induction order generalizing nevents a with
  | nil => rfl
  | cons first order ih =>
      obtain ⟨hnew, hnodup⟩ := List.nodup_cons.mp hnodup
      obtain ⟨hfirst, hrest⟩ := List.forall_mem_cons.mp hzero
      obtain ⟨a', htrigger, hdispatch⟩ := dispatch_cons rd wr order nevents hfirst
      have hother : ∀ other ∈ order, a'.trigger other = 0#32 := by
        intro other hmem
        rw [htrigger, Function.update_of_ne (ne_of_mem_of_not_mem hmem hnew), hrest other hmem]
      have hbehind : (if fd ∈ order then ready rd wr fd else a'.trigger fd) =
          if fd ∈ first :: order then ready rd wr fd else a.trigger fd := by
        by_cases hself : fd = first
        · subst fd
          rw [if_neg hnew, if_pos List.mem_cons_self, htrigger, Function.update_self]
        · rw [htrigger, Function.update_of_ne hself]
          simp only [List.mem_cons, hself, false_or]
      rw [hdispatch, ← hbehind]
      rw [List.countP_cons] at hcount
      by_cases hready : first ∈ rd ∪ wr
      · rw [if_pos hready]
        rw [if_pos (decide_eq_true hready)] at hcount
        by_cases hlast : nevents - 1 = 0
        · -- The last event: nothing else is ready.
          rw [if_pos hlast]
          split
          · rename_i hmem
            have hnone : order.countP (· ∈ rd ∪ wr) = 0 := by omega
            have hidle : fd ∉ rd ∪ wr := by
              have := List.countP_eq_zero.mp hnone fd hmem
              simpa using this
            rw [hother fd hmem, ready_eq_zero hidle]
          · rfl
        · rw [if_neg hlast]
          exact ih hnodup (by omega) hother
      · rw [if_neg hready]
        rw [if_neg (by simpa using hready)] at hcount
        exact ih hnodup (by omega) hother

private theorem countP_le {rd wr : Finset Fd} {order : List Fd} (hnodup : order.Nodup) :
    order.countP (· ∈ rd ∪ wr) ≤ rd.card + wr.card := by
  calc order.countP (· ∈ rd ∪ wr)
      = (order.filter (· ∈ rd ∪ wr)).toFinset.card := by
        rw [List.toFinset_card_of_nodup (hnodup.filter _), List.countP_eq_length_filter]
    _ ≤ (rd ∪ wr).card := by
        apply Finset.card_le_card
        intro fd hfd
        simpa using (List.mem_filter.mp (List.mem_toFinset.mp hfd)).2
    _ ≤ rd.card + wr.card := Finset.card_union_le _ _

private theorem dispatches_of_covers (h : b.Covers m) : b.Dispatches := by
  intro order hnodup horder rd wr _ _ a hzero
  have hnfds : 0 ≤ b.maxfd + 1 := by
    have := h.nfds
    omega
  refine ⟨_, if_pos hnfds, fun fd hfd => ?_⟩
  split
  · have hcount : order.countP (· ∈ rd ∪ wr) ≤ rd.card + wr.card := countP_le hnodup
    have hidle : ∀ fd ∈ order, a.trigger fd = 0#32 := fun fd hmem => hzero fd ((horder fd).mp hmem)
    rw [dispatch_trigger hnodup (by omega) hidle, if_pos ((horder fd).mpr hfd)]
  · have hrd : rd = ∅ := Finset.card_eq_zero.mp (by omega)
    have hwr : wr = ∅ := Finset.card_eq_zero.mp (by omega)
    have hidle : fd ∉ rd ∪ wr := by
      rw [hrd, hwr]
      exact Finset.notMem_empty fd
    rw [hzero fd hfd, ready_eq_zero hidle]

/-- Behind every sequence of calls the sets hold the interest and `maxfd` bounds them; only
descriptors with an event are kept, where only events are added; and `wait` gives each
channel exactly what is ready. -/
theorem covers_interest (calls : List (Change Fd Mask)) :
    (run step init calls).Covers (Interest.of (calls.map (Change.map eventsOf))) ∧
      ((∀ c ∈ calls, c.isAdd → (eventsOf c.events).Nonempty) →
        (run step init calls).fds = (run step init calls).rdset ∪ (run step init calls).wrset) ∧
      (run step init calls).Dispatches :=
  ⟨covers_run calls, fds_run rfl, dispatches_of_covers (covers_run calls)⟩

/-- The largest descriptor is removed, and `maxfd` is only lowered by one. -/
theorem covers_interest_largest :
    let small : Fd := ⟨3, by decide⟩
    let large : Fd := ⟨9, by decide⟩
    let b := run step init [.add small read, .add large write, .remove large write]
    b.fds = b.rdset ∪ b.wrset :=
  (covers_interest [.add ⟨3, by decide⟩ read, .add ⟨9, by decide⟩ write,
    .remove ⟨9, by decide⟩ write]).2.1 (by decide)

end SelectBase

end Angel.Dispatcher
