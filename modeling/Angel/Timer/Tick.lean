import Angel.Lib.Loop
import Angel.Timer.Store
import Mathlib.Algebra.GroupWithZero.Nat
import Mathlib.Algebra.BigOperators.Group.List.Basic
import Mathlib.Data.Int.Order.Basic

/-!
All of `tick`, with callbacks that leave the timers alone. A timer that is due goes out of the
store and, if it has an interval, comes back in one interval later, maybe still due. What bounds
the loop is the number of firings that are left, over all timers of the store. Where the expiry
a timer is to come back with is no `int64_t`, it comes back with another, in the past.
-/

namespace Angel.Timer

open Lib

variable {κ : Type}

/-- A pass of the loop in `tick`: the timer and the tasks whose callbacks have been called. -/
def tickPass (now : Int) (s : Timer κ × List (TimerTask κ)) :
    Pass (Timer κ × List (TimerTask κ)) (Option (Timer κ × List (TimerTask κ))) :=
  match detach now s.1 with
  | .done => .done (some s)
  | .call cur t => .again (renew cur t, s.2 ++ [cur])
  | .undefined => .done none

/-- `tick` at the clock reading `now`, if its loop is left within `fuel` passes: the timer
afterwards and the tasks whose callbacks were called, in order. -/
def tick (now : Int) (fuel : Nat) (t : Timer κ) : Option (Timer κ × List (TimerTask κ)) :=
  (loop (tickPass now) fuel (t, [])).join

/-- A task `k` intervals later. -/
def advance (k : Nat) (task : TimerTask κ) : TimerTask κ :=
  { task with expire := task.expire + k * task.interval }

/-- How often a task fires at `now`: floor((now - expire) / interval) + 1 times when it is due
and has an interval. -/
def fires (now : Int) (task : TimerTask κ) : Nat :=
  if now < task.expire then 0
  else if task.interval ≤ 0 then 1
  else ((now - task.expire) / task.interval).toNat + 1

/-- What is left of a task: a task that was not due is untouched, one without an interval is
gone once it has fired. -/
def remaining (now : Int) (task : TimerTask κ) : Option (TimerTask κ) :=
  if now < task.expire then some task
  else if task.interval ≤ 0 then none
  else some (advance (fires now task) task)

/-- The expiry of the task is an `int64_t`. -/
structure Fits (task : TimerTask κ) : Prop where
  expire_ge : -2 ^ 63 ≤ task.expire
  expire_lt : task.expire < 2 ^ 63

/-- The first expiry behind `now` of a timer that is due is an `int64_t` too. -/
def CatchesUp (now : Int) (task : TimerTask κ) : Prop :=
  0 < task.interval → task.expire ≤ now → (advance (fires now task) task).expire < 2 ^ 63

@[simp] theorem advance_id (k : Nat) (task : TimerTask κ) : (advance k task).id = task.id := rfl

theorem advance_zero (task : TimerTask κ) : advance 0 task = task := by
  simp [advance]

theorem advance_succ (k : Nat) (task : TimerTask κ) :
    advance (k + 1) task =
      { advance k task with expire := (advance k task).expire + (advance k task).interval } := by
  simp only [advance, TimerTask.mk.injEq, true_and, and_true]
  rw [Int.natCast_add, Int.natCast_one, Int.add_mul, Int.one_mul, Int.add_assoc]

/-- The firings of a task are those of its expiries that are due; without an interval there is
only the first. -/
theorem lt_fires_iff (now : Int) (task : TimerTask κ) (k : Nat) :
    k < fires now task ↔ (k = 0 ∨ 0 < task.interval) ∧ (advance k task).expire ≤ now := by
  unfold fires
  split
  case isTrue hlt =>
    constructor
    · intro h
      omega
    · rintro ⟨rfl | hinterval, hle⟩
      · rw [advance_zero] at hle
        omega
      · have hpos : 0 ≤ (k : Int) * task.interval := Int.mul_nonneg (Int.natCast_nonneg k) (Int.le_of_lt hinterval)
        simp only [advance] at hle
        omega
  split
  case isTrue hlt hnone =>
    constructor
    · intro h
      obtain rfl : k = 0 := by omega
      rw [advance_zero]
      exact ⟨.inl rfl, Int.not_lt.mp hlt⟩
    · rintro ⟨rfl | hinterval, -⟩
      · exact Nat.zero_lt_one
      · omega
  case isFalse hlt hsome =>
    have hinterval : 0 < task.interval := Int.not_le.mp hsome
    have hnonneg : 0 ≤ (now - task.expire) / task.interval :=
      Int.ediv_nonneg (by omega) (Int.le_of_lt hinterval)
    have hdiv : (k : Int) ≤ (now - task.expire) / task.interval ↔
        (k : Int) * task.interval ≤ now - task.expire := Int.le_ediv_iff_mul_le hinterval
    simp only [hinterval, or_true, true_and, advance]
    omega

theorem int64_lt (n : Int) : int64 n < 2 ^ 63 := by
  have hlt : n.bmod (2 ^ 64) < ((2 ^ 64 : Nat) + 1 : Int) / 2 := Int.bmod_lt (by decide)
  rw [int64]
  omega

theorem int64_advance {now : Int} {task : TimerTask κ} {k : Nat} (hfits : Fits task)
    (hcatch : CatchesUp now task) (hinterval : 0 < task.interval) (hlt : k < fires now task) :
    int64 ((advance k task).expire + (advance k task).interval) =
      (advance k task).expire + (advance k task).interval := by
  have hdue : task.expire ≤ now := by
    have hfirst := ((lt_fires_iff now task 0).mp (Nat.lt_of_le_of_lt (Nat.zero_le k) hlt)).2
    rwa [advance_zero] at hfirst
  have hlast := hcatch hinterval hdue
  have hnext : (k : Int) * task.interval + task.interval ≤ fires now task * task.interval := by
    have hle : (k : Int) + 1 ≤ fires now task := by omega
    have hmul := Int.mul_le_mul_of_nonneg_right hle (Int.le_of_lt hinterval)
    rwa [Int.add_mul, Int.one_mul] at hmul
  have hnonneg : 0 ≤ (k : Int) * task.interval :=
    Int.mul_nonneg (Int.natCast_nonneg k) (Int.le_of_lt hinterval)
  have hge := hfits.expire_ge
  simp only [advance] at hlast ⊢
  apply int64_eq <;> omega

/-- The task in the store when `k` firings of it are done. -/
def pending (k : Nat) (task : TimerTask κ) : Option (TimerTask κ) :=
  if k = 0 ∨ 0 < task.interval then some (advance k task) else none

/-- The tasks fired that have an id. -/
def firedFor (id : Nat) (fired : List (TimerTask κ)) : List (TimerTask κ) :=
  fired.filter fun task => task.id = id

/-- The first firings of a task are done, and the store holds what they leave of it. -/
def Progress (now : Int) (s : Timer κ × List (TimerTask κ)) (task : TimerTask κ) : Prop :=
  ∃ k ≤ fires now task, firedFor task.id s.2 = (List.range k).map (fun i => advance i task) ∧
    s.1.timerMap task.id = pending k task

/-- The loop has done the first firings of each task of the timer it began with, in the order
of their expiries, and holds what is left of it. -/
structure Ticking (t : Timer κ) (now : Int) (s : Timer κ × List (TimerTask κ)) : Prop where
  consistent : s.1.Consistent
  stored : ∀ cur ∈ s.1.timerSet, ∃ task ∈ t.timerSet, cur.id = task.id
  known : ∀ cur ∈ s.2, ∃ task ∈ t.timerSet, cur.id = task.id
  progress : ∀ task ∈ t.timerSet, Progress now s task
  ordered : s.2.Pairwise fun a b => a.expire ≤ b.expire
  before : ∀ a ∈ s.2, ∀ b ∈ s.1.timerSet, a.expire ≤ b.expire

/-- The firings that are left. -/
def firesLeft (now : Int) (ts : List (TimerTask κ)) : Nat := (ts.map (fires now)).sum

section Step

variable {t u : Timer κ} {now : Int} {cur : TimerTask κ} {rest : List (TimerTask κ)}

theorem start_ticking (h : t.Consistent) (now : Int) : Ticking t now (t, []) where
  consistent := h
  stored cur hcur := ⟨cur, hcur, rfl⟩
  known cur hcur := absurd hcur List.not_mem_nil
  progress task htask := ⟨0, Nat.zero_le _, rfl, by
    rw [h.map_mem htask, pending, if_pos (.inl rfl), advance_zero]⟩
  ordered := List.Pairwise.nil
  before a ha := absurd ha List.not_mem_nil

private theorem fires_renewed (hinterval : 0 < cur.interval) (hdue : cur.expire ≤ now) :
    fires now cur = fires now { cur with expire := cur.expire + cur.interval } + 1 := by
  have hone : advance 1 cur = { cur with expire := cur.expire + cur.interval } := by
    rw [advance_succ, advance_zero]
  have hcount : ∀ k, k + 1 < fires now cur ↔ k < fires now (advance 1 cur) := by
    intro k
    rw [lt_fires_iff, lt_fires_iff]
    have hlater : advance (k + 1) cur = advance k (advance 1 cur) := by
      simp only [advance, TimerTask.mk.injEq, true_and, and_true]
      rw [Int.natCast_add, Int.natCast_one, Int.add_mul, Int.one_mul]
      omega
    have hsame : (advance 1 cur).interval = cur.interval := rfl
    simp [hlater, hsame, hinterval]
  have hpos : 0 < fires now cur := by
    rw [lt_fires_iff, advance_zero]
    exact ⟨.inl rfl, hdue⟩
  rw [← hone]
  have hup := hcount (fires now (advance 1 cur))
  have hdown := hcount (fires now cur - 1)
  omega

theorem renew_eq (hsum : 0 < cur.interval →
      int64 (cur.expire + cur.interval) = cur.expire + cur.interval) (u : Timer κ) :
    renew cur u =
      if 0 < cur.interval then
        u.addTimerInLoop { cur with expire := cur.expire + cur.interval }
      else u := by
  unfold renew
  split
  case isTrue hinterval => rw [hsum hinterval]
  case isFalse => rfl

theorem firesLeft_renew (u : Timer κ) (hset : u.timerSet = cur :: rest) (hdue : cur.expire ≤ now)
    (hsum : 0 < cur.interval → int64 (cur.expire + cur.interval) = cur.expire + cur.interval)
    (m : Nat → Option (TimerTask κ)) :
    firesLeft now (renew cur ⟨rest, m⟩).timerSet < firesLeft now u.timerSet := by
  have hpos : 0 < fires now cur := by
    rw [lt_fires_iff, advance_zero]
    exact ⟨.inl rfl, hdue⟩
  have hleft : firesLeft now (cur :: rest) = fires now cur + firesLeft now rest := by
    simp [firesLeft]
  rw [hset, hleft, renew_eq hsum]
  split
  case isTrue hinterval =>
    have hperm := (emplaceSet_perm { cur with expire := cur.expire + cur.interval } rest).map
      (fires now)
    have hadded : firesLeft now (emplaceSet { cur with expire := cur.expire + cur.interval } rest) =
        fires now { cur with expire := cur.expire + cur.interval } + firesLeft now rest := by
      rw [firesLeft, hperm.sum_eq, List.map_cons, List.sum_cons, firesLeft]
    have hfewer := fires_renewed hinterval hdue
    change firesLeft now (emplaceSet { cur with expire := cur.expire + cur.interval } rest) < _
    omega
  case isFalse => exact Nat.lt_add_of_pos_left hpos

private theorem firedFor_append (id : Nat) (fired : List (TimerTask κ)) (cur : TimerTask κ) :
    firedFor id (fired ++ [cur]) = firedFor id fired ++ if cur.id = id then [cur] else [] := by
  rw [firedFor, List.filter_append]
  by_cases hid : cur.id = id
  · simp [firedFor, hid]
  · simp [firedFor, hid]

/-- The store behind a pass: the task that was called is gone, or back one interval later. -/
theorem renew_consistent (h : u.Consistent) (hset : u.timerSet = cur :: rest)
    (hsum : 0 < cur.interval → int64 (cur.expire + cur.interval) = cur.expire + cur.interval) :
    (renew cur ⟨rest, Function.update u.timerMap cur.id none⟩).Consistent ∧
      (∀ x ∈ (renew cur ⟨rest, Function.update u.timerMap cur.id none⟩).timerSet,
        x ∈ rest ∨ 0 < cur.interval ∧
          x = { cur with expire := cur.expire + cur.interval }) ∧
      (∀ id ≠ cur.id, (renew cur ⟨rest, Function.update u.timerMap cur.id none⟩).timerMap id =
        u.timerMap id) ∧
      (renew cur ⟨rest, Function.update u.timerMap cur.id none⟩).timerMap cur.id =
        if 0 < cur.interval then some { cur with expire := cur.expire + cur.interval } else none := by
  have herased := erase_consistent [] h hset
  rw [List.nil_append] at herased
  have hfresh : ∀ x ∈ rest, x.id ≠ cur.id := by
    have hunique := h.unique
    rw [hset, List.map_cons, List.nodup_cons] at hunique
    intro x hx hid
    exact hunique.1 (hid ▸ List.mem_map_of_mem hx)
  have hempty : Function.update u.timerMap cur.id none cur.id = none := Function.update_self _ _ _
  rw [renew_eq hsum]
  split
  case isTrue hinterval =>
    refine ⟨addTimerInLoop_consistent herased hfresh, ?_, ?_, ?_⟩
    · intro x hx
      rcases mem_addTimerInLoop.mp hx with rfl | hin
      · exact .inr ⟨hinterval, rfl⟩
      · exact .inl hin
    · intro id hid
      simp only [addTimerInLoop, emplaceMap, hempty, Function.update_of_ne hid]
    · simp only [addTimerInLoop, emplaceMap, hempty, Function.update_self]
  case isFalse =>
    refine ⟨herased, fun x hx => .inl hx, ?_, hempty⟩
    intro id hid
    exact Function.update_of_ne hid _ _

private theorem progress_call {s : Timer κ × List (TimerTask κ)} (hconsistent : s.1.Consistent)
    (hset : s.1.timerSet = cur :: rest) (hdue : cur.expire ≤ now)
    (hsum : 0 < cur.interval → int64 (cur.expire + cur.interval) = cur.expire + cur.interval)
    {task : TimerTask κ} (h : Progress now s task) :
    Progress now (renew cur ⟨rest, Function.update s.1.timerMap cur.id none⟩, s.2 ++ [cur]) task := by
  obtain ⟨k, hle, hfired, hpending⟩ := h
  obtain ⟨-, -, hother, hself⟩ := renew_consistent hconsistent hset hsum
  by_cases hid : task.id = cur.id
  · have hcur : s.1.timerMap cur.id = some cur := hconsistent.map_mem (by simp [hset])
    rw [hid, hcur, pending] at hpending
    split at hpending
    case isFalse => cases hpending
    case isTrue hk =>
      obtain rfl := Option.some.inj hpending
      have hlt : k < fires now task := (lt_fires_iff now task k).mpr ⟨hk, hdue⟩
      refine ⟨k + 1, hlt, ?_, ?_⟩
      · rw [firedFor_append, hfired, if_pos hid.symm, List.range_succ, List.map_append]
        rfl
      · have hmore : k + 1 = 0 ∨ 0 < task.interval ↔ 0 < task.interval := by simp
        dsimp only
        rw [hid, hself, pending, advance_succ]
        simp only [hmore]
        rfl
  · refine ⟨k, hle, ?_, ?_⟩
    · rw [firedFor_append, hfired, if_neg (Ne.symm hid), List.append_nil]
    · rw [hother _ hid]
      exact hpending

/-- What the store holds in the loop are tasks it began with, some firings later. -/
theorem Ticking.stored_eq {s : Timer κ × List (TimerTask κ)} (h : Ticking t now s)
    (hcur : cur ∈ s.1.timerSet) : ∃ task ∈ t.timerSet, ∃ k, cur = advance k task := by
  obtain ⟨task, htask, hid⟩ := h.stored cur hcur
  obtain ⟨k, -, -, hpending⟩ := h.progress task htask
  rw [← hid, h.consistent.map_mem hcur, pending] at hpending
  split at hpending
  case isTrue => exact ⟨task, htask, k, Option.some.inj hpending⟩
  case isFalse => cases hpending

/-- A pass leaves the loop with nothing due, or fires the first task that is. -/
theorem tickPass_ticking (hfits : ∀ task ∈ t.timerSet, Fits task)
    (hcatch : ∀ task ∈ t.timerSet, CatchesUp now task) (s : Timer κ × List (TimerTask κ))
    (h : Ticking t now s) :
    (∃ s', tickPass now s = .again s' ∧ Ticking t now s' ∧
        firesLeft now s'.1.timerSet < firesLeft now s.1.timerSet) ∨
      ∃ r, tickPass now s = .done r ∧ ∃ s', r = some s' ∧ Ticking t now s' ∧
        ∀ task ∈ s'.1.timerSet, now < task.expire := by
  rcases detach_cases now h.consistent with ⟨hdone, hlate⟩ | ⟨cur, rest, hset, hdue, hcall⟩
  · right
    exact ⟨some s, by rw [tickPass, hdone], s, rfl, h, hlate⟩
  left
  have hcur : cur ∈ s.1.timerSet := by simp [hset]
  obtain ⟨task, htask, hid⟩ := h.stored cur hcur
  have hsum : 0 < cur.interval →
      int64 (cur.expire + cur.interval) = cur.expire + cur.interval := by
    obtain ⟨old, hold, k, rfl⟩ := h.stored_eq hcur
    intro hinterval
    exact int64_advance (hfits old hold) (hcatch old hold) hinterval
      ((lt_fires_iff now old k).mpr ⟨.inr hinterval, hdue⟩)
  obtain ⟨hconsistent, hmem, -⟩ := renew_consistent h.consistent hset hsum
  have hordered := h.consistent.ordered
  rw [hset, List.pairwise_cons] at hordered
  refine ⟨(renew cur ⟨rest, Function.update s.1.timerMap cur.id none⟩, s.2 ++ [cur]),
    by rw [tickPass, hcall], ⟨hconsistent, ?_, ?_,
      fun old hold => progress_call h.consistent hset hdue hsum (h.progress old hold), ?_, ?_⟩,
    firesLeft_renew s.1 hset hdue hsum _⟩
  · -- stored
    intro x hx
    rcases hmem x hx with hin | ⟨-, rfl⟩
    · exact h.stored x (by simp [hset, hin])
    · exact ⟨task, htask, hid⟩
  · -- known
    intro x hx
    rcases List.mem_append.mp hx with hin | hlast
    · exact h.known x hin
    · obtain rfl := List.mem_singleton.mp hlast
      exact ⟨task, htask, hid⟩
  · -- ordered
    rw [List.pairwise_append]
    refine ⟨h.ordered, List.pairwise_singleton _ _, ?_⟩
    intro a ha b hb
    obtain rfl := List.mem_singleton.mp hb
    exact h.before a ha b hcur
  · -- before
    intro a ha b hb
    have hle : a.expire ≤ cur.expire := by
      rcases List.mem_append.mp ha with hin | hlast
      · exact h.before a hin cur hcur
      · obtain rfl := List.mem_singleton.mp hlast
        exact Int.le_refl _
    rcases hmem b hb with hin | ⟨hinterval, rfl⟩
    · exact Int.le_trans hle (hordered.1 b hin)
    · dsimp only
      omega

theorem Progress.all {s : Timer κ × List (TimerTask κ)} (hconsistent : s.1.Consistent)
    (hlate : ∀ task ∈ s.1.timerSet, now < task.expire) {task : TimerTask κ}
    (h : Progress now s task) :
    firedFor task.id s.2 = (List.range (fires now task)).map (fun i => advance i task) ∧
      s.1.timerMap task.id = remaining now task := by
  obtain ⟨k, hle, hfired, hpending⟩ := h
  have hk : k = fires now task := by
    by_contra hne
    have hlt : k < fires now task := Nat.lt_of_le_of_ne hle hne
    obtain ⟨hmore, hdue⟩ := (lt_fires_iff now task k).mp hlt
    rw [pending, if_pos hmore] at hpending
    have hlater := hlate _ ((hconsistent.same _ _).mp hpending).1
    omega
  subst hk
  refine ⟨hfired, hpending.trans ?_⟩
  unfold pending remaining
  by_cases hlt : now < task.expire
  · have hzero : fires now task = 0 := if_pos hlt
    rw [if_pos (.inl hzero), if_pos hlt, hzero, advance_zero]
  have hpos : fires now task ≠ 0 := by
    apply Nat.ne_of_gt
    rw [lt_fires_iff, advance_zero]
    exact ⟨.inl rfl, Int.not_lt.mp hlt⟩
  rw [if_neg hlt]
  by_cases hinterval : task.interval ≤ 0
  · rw [if_neg (by omega), if_pos hinterval]
  · rw [if_pos (by omega), if_neg hinterval]

end Step

/-- What `tick` has done at `now`: each task of the store was fired as often as it was due, at
its own expiries, the callbacks were called in the order of the expiries, and the store holds
what is left of each task. -/
structure TickedAll (now : Int) (t t' : Timer κ) (fired : List (TimerTask κ)) : Prop where
  each : ∀ task ∈ t.timerSet,
    firedFor task.id fired = (List.range (fires now task)).map (fun k => advance k task)
  known : ∀ cur ∈ fired, ∃ task ∈ t.timerSet, cur.id = task.id
  ordered : fired.Pairwise fun a b => a.expire ≤ b.expire
  consistent : t'.Consistent
  left : ∀ cur, cur ∈ t'.timerSet ↔ ∃ task ∈ t.timerSet, remaining now task = some cur

theorem Ticking.all {t : Timer κ} {now : Int} {s : Timer κ × List (TimerTask κ)}
    (h : Ticking t now s) (hlate : ∀ task ∈ s.1.timerSet, now < task.expire) :
    TickedAll now t s.1 s.2 where
  each task htask := ((h.progress task htask).all h.consistent hlate).1
  known := h.known
  ordered := h.ordered
  consistent := h.consistent
  left cur := by
    constructor
    · intro hcur
      obtain ⟨task, htask, hid⟩ := h.stored cur hcur
      refine ⟨task, htask, ?_⟩
      rw [← ((h.progress task htask).all h.consistent hlate).2, ← hid]
      exact h.consistent.map_mem hcur
    · rintro ⟨task, htask, hleft⟩
      rw [← ((h.progress task htask).all h.consistent hlate).2] at hleft
      exact ((h.consistent.same _ _).mp hleft).1

private theorem mem_of_detach {now : Int} {t u : Timer κ} {cur task : TimerTask κ}
    (h : detach now t = .call cur u) (hmem : task ∈ u.timerSet) : task ∈ t.timerSet := by
  unfold detach at h
  split at h
  · cases h
  · rename_i first rest hset
    split at h
    · cases h
    · split at h
      · cases h
      · obtain ⟨-, rfl⟩ := Detached.call.inj h
        rw [hset]
        exact List.mem_cons_of_mem first hmem

private theorem tick_lt {now : Int} {fuel : Nat} {t t' : Timer κ} {fired : List (TimerTask κ)}
    (h : ∀ task ∈ t.timerSet, task.expire < 2 ^ 63) (htick : tick now fuel t = some (t', fired)) :
    ∀ task ∈ t'.timerSet, task.expire < 2 ^ 63 := by
  have hend : loop (tickPass now) fuel (t, []) = some (some (t', fired)) :=
    Option.join_eq_some_iff.mp htick
  refine @loop_sound_of_pass _ _ (tickPass now)
    (fun s => ∀ task ∈ s.1.timerSet, task.expire < 2 ^ 63)
    (fun r => ∀ s, r = some s → ∀ task ∈ s.1.timerSet, task.expire < 2 ^ 63)
    ?_ fuel (t, []) _ h hend (t', fired) rfl
  intro s hs
  rw [tickPass]
  cases hdetach : detach now s.1 with
  | done =>
      right
      refine ⟨some s, rfl, ?_⟩
      intro s' hsame
      obtain rfl := Option.some.inj hsame
      exact hs
  | undefined =>
      right
      refine ⟨none, rfl, ?_⟩
      intro s' hsame
      cases hsame
  | call cur u =>
      left
      refine ⟨_, rfl, ?_⟩
      have hrest : ∀ task ∈ u.timerSet, task.expire < 2 ^ 63 := by
        intro task hmem
        exact hs task (mem_of_detach hdetach hmem)
      intro task hmem
      unfold renew at hmem
      split at hmem
      case isTrue =>
        rcases mem_addTimerInLoop.mp hmem with rfl | hin
        · exact int64_lt (cur.expire + cur.interval)
        · exact hrest task hin
      case isFalse => exact hrest task hmem

section Due

variable {t : Timer κ} {now : Int}

private theorem tickedAll_of_catchesUp (h : t.Consistent) (hfits : ∀ task ∈ t.timerSet, Fits task)
    (hcatch : ∀ task ∈ t.timerSet, CatchesUp now task) :
    ∃ fuel t' fired, tick now fuel t = some (t', fired) ∧ TickedAll now t t' fired := by
  obtain ⟨r, hloop, s, rfl, hticking, hlate⟩ :=
    loop_spec (fun s => firesLeft now s.1.timerSet) (tickPass_ticking hfits hcatch)
      (start_ticking h now) (Nat.lt_succ_self _)
  exact ⟨_, s.1, s.2, by rw [tick, hloop]; rfl, hticking.all hlate⟩

theorem catchesUp_of_tickedAll {fuel : Nat} {t' : Timer κ} {fired : List (TimerTask κ)}
    (hfits : ∀ task ∈ t.timerSet, Fits task) (htick : tick now fuel t = some (t', fired))
    (hall : TickedAll now t t' fired) : ∀ task ∈ t.timerSet, CatchesUp now task := by
  intro task htask hinterval hdue
  have hleft : remaining now task = some (advance (fires now task) task) := by
    rw [remaining, if_neg (Int.not_lt.mpr hdue), if_neg (Int.not_le.mpr hinterval)]
  exact tick_lt (fun old hold => (hfits old hold).expire_lt) htick _
    ((hall.left _).mpr ⟨task, htask, hleft⟩)

/-- For every consistent store of `int64_t` expiries, and every clock reading: `tick`
ends and has fired exactly what was due, exactly when the first expiry behind `now` of every
interval timer that is due is an `int64_t` too. -/
theorem tick_fires_due_iff (h : t.Consistent) (hfits : ∀ task ∈ t.timerSet, Fits task) :
    ((∃ fuel t' fired, tick now fuel t = some (t', fired) ∧ TickedAll now t t' fired) ↔
      ∀ task ∈ t.timerSet, CatchesUp now task) ∧
      ∀ task : TimerTask κ, 0 < task.interval → ∀ k,
        k < fires now task ↔ (advance k task).expire ≤ now := by
  refine ⟨⟨?_, tickedAll_of_catchesUp h hfits⟩, ?_⟩
  · rintro ⟨fuel, t', fired, htick, hall⟩
    exact catchesUp_of_tickedAll hfits htick hall
  · intro task hinterval k
    rw [lt_fires_iff]
    simp [hinterval]

end Due

/-- A timer without an interval, and one with an interval that has been missed. -/
def late : Timer Unit :=
  (init.addTimerInLoop ⟨1, 10, 0, ()⟩).addTimerInLoop ⟨2, 5, 10, ()⟩

theorem late_ticked :
    ∃ fuel t' fired, tick 25 fuel late = some (t', fired) ∧
      firedFor 1 fired = [⟨1, 10, 0, ()⟩] ∧
      firedFor 2 fired = [⟨2, 5, 10, ()⟩, ⟨2, 15, 10, ()⟩, ⟨2, 25, 10, ()⟩] ∧
      ⟨2, 35, 10, ()⟩ ∈ t'.timerSet := by
  have hfirst : (init.addTimerInLoop ⟨1, 10, 0, ()⟩ : Timer Unit).Consistent :=
    addTimerInLoop_consistent init_consistent (fun cur hcur => absurd hcur List.not_mem_nil)
  have hlate : late.Consistent := by
    apply addTimerInLoop_consistent hfirst
    intro cur hcur
    obtain rfl := List.mem_singleton.mp hcur
    decide
  have hset : late.timerSet = [⟨2, 5, 10, ()⟩, ⟨1, 10, 0, ()⟩] := rfl
  have hfits : ∀ task ∈ late.timerSet, Fits task := by
    rw [hset, List.forall_mem_cons, List.forall_mem_singleton]
    exact ⟨⟨by decide, by decide⟩, ⟨by decide, by decide⟩⟩
  have hcatch : ∀ task ∈ late.timerSet, CatchesUp 25 task := by
    rw [hset, List.forall_mem_cons, List.forall_mem_singleton]
    exact ⟨fun _ _ => by decide, fun hinterval => absurd hinterval (by decide)⟩
  obtain ⟨fuel, t', fired, htick, hall⟩ := (tick_fires_due_iff hlate hfits).1.mpr hcatch
  refine ⟨fuel, t', fired, htick, ?_, ?_, ?_⟩
  · exact hall.each ⟨1, 10, 0, ()⟩ (by decide)
  · exact hall.each ⟨2, 5, 10, ()⟩ (by decide)
  · exact (hall.left _).mpr ⟨⟨2, 5, 10, ()⟩, by decide, by decide⟩

/-- An interval that reaches behind the last `int64_t`. -/
def endless : Timer Unit := init.addTimerInLoop ⟨1, 10, 2 ^ 63 - 1, ()⟩

/-- Its next expiry wraps into the past, and so on until one is behind the clock. -/
theorem endless_fires_again :
    endless.Consistent ∧ fires 12 (⟨1, 10, 2 ^ 63 - 1, ()⟩ : TimerTask Unit) = 1 ∧
      (tick 12 12 endless).map (fun r => r.2.length) = some 11 ∧
      ¬ ∃ fuel t' fired, tick 12 fuel endless = some (t', fired) ∧ TickedAll 12 endless t' fired := by
  have hconsistent : endless.Consistent :=
    addTimerInLoop_consistent init_consistent (fun cur hcur => absurd hcur List.not_mem_nil)
  refine ⟨hconsistent, by decide, by decide, ?_⟩
  rintro ⟨fuel, t', fired, htick, hall⟩
  have hset : endless.timerSet = [⟨1, 10, 2 ^ 63 - 1, ()⟩] := rfl
  have hfits : ∀ task ∈ endless.timerSet, Fits task := by
    rw [hset, List.forall_mem_singleton]
    exact ⟨by decide, by decide⟩
  have hcatch := catchesUp_of_tickedAll hfits htick hall _ (List.mem_singleton_self _)
  exact absurd (hcatch (by decide) (by decide)) (by decide)

end Angel.Timer
