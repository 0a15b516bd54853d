import Angel.Lib.Indexed
import Angel.Dispatcher.Interest

/-!
`poll_base_t`: a vector of `pollfd`s, and the map from a descriptor to the index of its own.
-/

namespace Angel.Dispatcher

open Lib

/-- The events of a `pollfd`, a `short`. -/
abbrev PollMask := BitVec 16

def pollIn : PollMask := 0x001

def pollOut : PollMask := 0x004

/-- `EVMAP`, from no events. -/
def evmap (events : Mask) : PollMask :=
  (if events &&& read ≠ 0#32 then pollIn else 0#16) |||
    if events &&& write ≠ 0#32 then pollOut else 0#16

structure Pollfd where
  fd : Int
  events : PollMask
  revents : PollMask
  deriving DecidableEq, Repr

structure PollBase where
  pollfds : List Pollfd
  /-- From a descriptor to an index of `pollfds`. -/
  indexs : Int → Option Nat

namespace PollBase

def init : PollBase where
  pollfds := []
  indexs := fun _ => none

def add (fd : Int) (events : Mask) (b : PollBase) : Option PollBase :=
  let pollEvents := evmap events
  match b.indexs fd with
  | none =>
      let pollfds := b.pollfds ++ [⟨fd, pollEvents, 0#16⟩]
      some { pollfds := pollfds, indexs := Function.update b.indexs fd (some (pollfds.length - 1)) }
  | some i => do
      let pfd ← b.pollfds[i]?
      let pfd := { pfd with events := pfd.events ||| pollEvents }
      some { b with pollfds := b.pollfds.set i pfd }

def remove (fd : Int) (events : Mask) (b : PollBase) : Option PollBase :=
  let pollEvents := evmap events
  match b.indexs fd with
  | none => some b
  | some i => do
      let pfd ← b.pollfds[i]?
      let pfd := { pfd with events := pfd.events &&& ~~~pollEvents }
      let pollfds := b.pollfds.set i pfd
      if pfd.events = 0#16 then
        -- The index of the last is set before the one of `fd` is erased: they may be the same.
        let back ← pollfds[pollfds.length - 1]?
        let indexs := Function.update b.indexs back.fd (some i)
        let indexs := Function.update indexs fd none
        some { pollfds := (swapAt pollfds i (pollfds.length - 1)).dropLast, indexs := indexs }
      else some { b with pollfds := pollfds }

def apply (b : PollBase) : Change Int (Finset Event) → Option PollBase
  | .add fd events => b.add fd (mask events)
  | .remove fd events => b.remove fd (mask events)

/-- The vector and the map hold an interest: each descriptor that is watched has one entry,
at its index, with exactly its events. -/
structure Refines (b : PollBase) (m : Interest Int) : Prop where
  indexed : Indexed (·.fd) b.pollfds b.indexs
  registered : ∀ fd, (b.indexs fd).isSome ↔ (m fd).Nonempty
  events : ∀ p ∈ b.pollfds, p.events = evmap (mask (m p.fd))

end PollBase

theorem evmap_union (s t : Finset Event) : evmap (mask (s ∪ t)) = evmap (mask s) ||| evmap (mask t) := by
  revert s t
  decide

theorem evmap_sdiff (s t : Finset Event) :
    evmap (mask (s \ t)) = evmap (mask s) &&& ~~~evmap (mask t) := by
  revert s t
  decide

theorem evmap_eq_zero_iff (s : Finset Event) : evmap (mask s) = 0#16 ↔ s = ∅ := by
  revert s
  decide

namespace PollBase

variable {b : PollBase} {m : Interest Int} {fd : Int} {s : Finset Event}

theorem interest_of_none (h : b.Refines m) (hnone : b.indexs fd = none) : m fd = ∅ := by
  have hregistered := (h.registered fd).not
  rw [hnone, Finset.not_nonempty_iff_eq_empty] at hregistered
  exact hregistered.mp nofun

theorem refines_set {i : Nat} {p : Pollfd} {t : Finset Event} (h : b.Refines m)
    (hp : b.pollfds[i]? = some p) (hfd : p.fd = fd) (ht : t.Nonempty) :
    Refines { b with pollfds := b.pollfds.set i { p with events := evmap (mask t) } }
      (Function.update m fd t) where
  indexed := h.indexed.set hp rfl
  registered other := by
    rw [Function.update_apply, h.registered]
    split
    · subst other
      rw [← h.registered, ← hfd, h.indexed.index_of_entry hp]
      exact iff_of_true rfl ht
    · exact Iff.rfl
  events q hq := by
    obtain ⟨j, hj⟩ := List.getElem?_of_mem hq
    rw [List.getElem?_set] at hj
    split at hj
    · rw [if_pos (List.getElem?_eq_some_iff.mp hp).1, Option.some.injEq] at hj
      rw [← hj, hfd, Function.update_self]
    · have hne : q.fd ≠ fd := fun hqfd =>
        absurd (h.indexed.position_unique hp hj (hfd.trans hqfd.symm)) ‹_›
      rw [Function.update_of_ne hne]
      exact h.events q (List.mem_of_getElem? hj)

theorem refines_add (h : b.Refines m) (hs : s.Nonempty) :
    ∃ b', b.add fd (mask s) = some b' ∧ b'.Refines (m.step (.add fd s)) := by
  unfold add
  cases hindex : b.indexs fd with
  | none =>
      have hempty := interest_of_none h hindex
      refine ⟨_, rfl, ?_⟩
      dsimp only [Interest.step]
      rw [hempty, Finset.empty_union, List.length_append, List.length_singleton, Nat.add_sub_cancel]
      constructor
      · exact h.indexed.push hindex
      · intro other
        dsimp only
        rw [Function.update_apply, Function.update_apply]
        split
        · exact iff_of_true rfl hs
        · exact h.registered other
      · intro q hq
        rcases List.mem_append.mp hq with hold | hnew
        · obtain ⟨j, hj⟩ := List.getElem?_of_mem hold
          have hne : q.fd ≠ fd := by
            intro hqfd
            rw [← hqfd, h.indexed.index_of_entry hj] at hindex
            cases hindex
          rw [Function.update_of_ne hne]
          exact h.events q hold
        · rw [List.mem_singleton.mp hnew, Function.update_self]
  | some i =>
      obtain ⟨p, hp, hfd⟩ := h.indexed.entry_of_index hindex
      have hevents := h.events p (List.mem_of_getElem? hp)
      rw [hfd] at hevents
      simp only [hp, Option.bind_eq_bind, Option.bind_some, hevents, ← evmap_union]
      refine ⟨_, rfl, ?_⟩
      exact refines_set h hp hfd (hs.mono Finset.subset_union_right)

/-- The entry of a descriptor without events leaves, and the last takes its place. -/
theorem refines_drop {i : Nat} {p back : Pollfd} {pollfds : List Pollfd} (h : b.Refines m)
    (hp : b.pollfds[i]? = some p) (hfd : p.fd = fd) {events : PollMask}
    (hset : pollfds = b.pollfds.set i { p with events := events })
    (hback : pollfds[pollfds.length - 1]? = some back) :
    Refines
      { pollfds := (swapAt pollfds i (pollfds.length - 1)).dropLast
        indexs := Function.update (Function.update b.indexs back.fd (some i)) fd none }
      (Function.update m fd ∅) := by
  have hi := (List.getElem?_eq_some_iff.mp hp).1
  have hindexed : Indexed (·.fd) pollfds b.indexs := hset ▸ h.indexed.set hp rfl
  have hvictim : pollfds[i]? = some { p with events := events } := by
    rw [hset, List.getElem?_set_self hi]
  subst hfd
  constructor
  · have hremoved := hindexed.swapRemove hvictim hback
    exact hremoved
  · intro other
    dsimp only
    rw [Function.update_apply, Function.update_apply, Function.update_apply]
    split
    · exact iff_of_false nofun (Finset.not_nonempty_empty)
    · split
      · subst other
        rw [← h.registered, hindexed.index_of_entry hback]
        exact Iff.rfl
      · exact h.registered other
  · intro q hq
    obtain ⟨hmem, hne⟩ := hindexed.mem_swapRemove hvictim hback hq
    rw [Function.update_of_ne hne]
    rw [hset] at hmem
    rcases List.mem_or_eq_of_mem_set hmem with hold | rfl
    · exact h.events q hold
    · exact absurd rfl hne

private theorem refines_remove (h : b.Refines m) :
    ∃ b', b.remove fd (mask s) = some b' ∧ b'.Refines (m.step (.remove fd s)) := by
  unfold remove
  cases hindex : b.indexs fd with
  | none =>
      have hempty := interest_of_none h hindex
      have hstep : m.step (.remove fd s) = m := by
        rw [Interest.step, hempty, Finset.empty_sdiff, ← hempty, Function.update_eq_self]
      exact ⟨b, rfl, by rwa [hstep]⟩
  | some i =>
      obtain ⟨p, hp, hfd⟩ := h.indexed.entry_of_index hindex
      have hevents := h.events p (List.mem_of_getElem? hp)
      rw [hfd] at hevents
      simp only [hp, Option.bind_eq_bind, Option.bind_some, hevents, ← evmap_sdiff]
      by_cases ht : (m fd \ s).Nonempty
      · rw [if_neg ((evmap_eq_zero_iff _).not.mpr ht.ne_empty)]
        exact ⟨_, rfl, refines_set h hp hfd ht⟩
      · have hempty := Finset.not_nonempty_iff_eq_empty.mp ht
        rw [if_pos ((evmap_eq_zero_iff _).mpr hempty)]
        have hlen : (b.pollfds.set i { p with events := evmap (mask (m fd \ s)) }).length - 1 <
            (b.pollfds.set i { p with events := evmap (mask (m fd \ s)) }).length := by
          have := (List.getElem?_eq_some_iff.mp hp).1
          rw [List.length_set]
          omega
        have hback := List.getElem?_eq_getElem hlen
        rw [hback, Option.bind_some]
        have hstep : m.step (.remove fd s) = Function.update m fd ∅ := by
          rw [Interest.step, hempty]
        rw [hstep]
        exact ⟨_, rfl, refines_drop h hp hfd rfl hback⟩

theorem refines_apply {c : Change Int (Finset Event)} (h : b.Refines m) (hc : c.events.Nonempty) :
    ∃ b', b.apply c = some b' ∧ b'.Refines (m.step c) := by
  cases c with
  | add fd s => exact refines_add h hc
  | remove fd s => exact refines_remove h

theorem refines_init : init.Refines Interest.none where
  indexed := Indexed.nil
  registered _ := iff_of_false nofun Finset.not_nonempty_empty
  events _ := nofun

/-- Every sequence of calls with some event each has a result, and it holds exactly the
events that were added and not removed since. -/
theorem refines_interest {changes : List (Change Int (Finset Event))}
    (hevents : ∀ c ∈ changes, c.events.Nonempty) :
    ∃ b, changes.foldlM apply init = some b ∧ b.Refines (Interest.of changes) := by
  apply foldlM_refines _ refines_init hevents
  intro b m c h hc
  exact refines_apply h hc

/-- The first of three descriptors leaves the table. -/
theorem refines_interest_leaves :
    ∃ b, [.add 7 {.read}, .add 3 {.read, .write}, .add 5 {.read}, .remove 7 {.read}].foldlM apply
        init = some b ∧
      b.Refines
        (Interest.of [.add 7 {.read}, .add 3 {.read, .write}, .add 5 {.read}, .remove 7 {.read}]) :=
  refines_interest (by decide)

end PollBase

end Angel.Dispatcher
