import Angel.Timer.Model
import Mathlib.Data.List.Nodup
import Mathlib.Data.List.TakeDrop
import Mathlib.Data.List.TakeWhile
import Mathlib.Tactic.Common

/-!
The two containers of `timer_t` kept in step: the invariant they share, and what
each operation does to both.
-/

namespace Angel.Timer

variable {κ : Type} {t : Timer κ} {task cur : TimerTask κ} {id : Nat}

/-- The two containers hold the same tasks, each under its own id, and the set is
in order. -/
structure Consistent (t : Timer κ) : Prop where
  ordered : t.timerSet.Pairwise fun a b => a.expire ≤ b.expire
  unique : (t.timerSet.map TimerTask.id).Nodup
  same : ∀ id task, t.timerMap id = some task ↔ task ∈ t.timerSet ∧ task.id = id

theorem init_consistent : (init : Timer κ).Consistent where
  ordered := List.Pairwise.nil
  unique := List.nodup_nil
  same := by simp [init]

namespace Consistent

theorem task_ext (h : t.Consistent) (hcur : cur ∈ t.timerSet) (htask : task ∈ t.timerSet)
    (hid : cur.id = task.id) : cur = task :=
  List.inj_on_of_nodup_map h.unique hcur htask hid

theorem map_none (h : t.Consistent) (hid : ∀ task ∈ t.timerSet, task.id ≠ id) :
    t.timerMap id = none := by
  rw [Option.eq_none_iff_forall_not_mem]
  intro task htask
  obtain ⟨hmem, heq⟩ := (h.same id task).mp htask
  exact hid task hmem heq

theorem map_mem (h : t.Consistent) (hmem : task ∈ t.timerSet) :
    t.timerMap task.id = some task :=
  (h.same task.id task).mpr ⟨hmem, rfl⟩

end Consistent

theorem emplaceSet_perm (task : TimerTask κ) (ts : List (TimerTask κ)) :
    (emplaceSet task ts).Perm (task :: ts) := by
  induction ts with
  | nil => exact List.Perm.refl _
  | cons t ts ih =>
      unfold emplaceSet
      split
      · exact List.Perm.refl _
      · exact (ih.cons t).trans (List.Perm.swap task t ts)

@[simp] theorem mem_emplaceSet (task cur : TimerTask κ) (ts : List (TimerTask κ)) :
    cur ∈ emplaceSet task ts ↔ cur = task ∨ cur ∈ ts := by
  simp [(emplaceSet_perm task ts).mem_iff]

private theorem emplaceSet_ordered (task : TimerTask κ) {ts : List (TimerTask κ)}
    (h : ts.Pairwise fun a b => a.expire ≤ b.expire) :
    (emplaceSet task ts).Pairwise fun a b => a.expire ≤ b.expire := by
  induction ts with
  | nil => simp [emplaceSet]
  | cons t ts ih =>
      rw [List.pairwise_cons] at h
      unfold emplaceSet
      split
      case isTrue hlt =>
        refine List.Pairwise.cons ?_ (List.pairwise_cons.mpr h)
        intro b hb
        rcases List.mem_cons.mp hb with rfl | hb
        · omega
        · have := h.1 b hb
          omega
      case isFalse hle =>
        refine List.Pairwise.cons ?_ (ih h.2)
        intro b hb
        rcases (mem_emplaceSet task b ts).mp hb with rfl | hb
        · omega
        · exact h.1 b hb

@[simp] theorem mem_addTimerInLoop :
    cur ∈ (t.addTimerInLoop task).timerSet ↔ cur = task ∨ cur ∈ t.timerSet :=
  mem_emplaceSet task cur t.timerSet

theorem addTimerInLoop_consistent (h : t.Consistent)
    (hfresh : ∀ cur ∈ t.timerSet, cur.id ≠ task.id) : (t.addTimerInLoop task).Consistent where
  ordered := emplaceSet_ordered task h.ordered
  unique := by
    have hperm := (emplaceSet_perm task t.timerSet).map TimerTask.id
    apply hperm.nodup_iff.mpr
    simp only [List.map_cons, List.nodup_cons, List.mem_map, not_exists, not_and]
    exact ⟨hfresh, h.unique⟩
  same := by
    intro id cur
    rw [mem_addTimerInLoop]
    simp only [addTimerInLoop, emplaceMap, h.map_none hfresh]
    by_cases hid : id = task.id
    · subst hid
      simp only [Function.update_self, Option.some.injEq]
      constructor
      · rintro rfl
        exact ⟨.inl rfl, rfl⟩
      · rintro ⟨rfl | hmem, heq⟩
        · rfl
        · exact absurd heq (hfresh cur hmem)
    · rw [Function.update_of_ne hid, h.same]
      constructor
      · rintro ⟨hmem, heq⟩
        exact ⟨.inr hmem, heq⟩
      · rintro ⟨rfl | hmem, heq⟩
        · exact absurd heq.symm hid
        · exact ⟨hmem, heq⟩

theorem erase_consistent (front : List (TimerTask κ)) {back : List (TimerTask κ)} (h : t.Consistent)
    (hset : t.timerSet = front ++ task :: back) :
    (⟨front ++ back, Function.update t.timerMap task.id none⟩ : Timer κ).Consistent where
  ordered := by
    have hsub : (front ++ back).Sublist t.timerSet := by simp [hset]
    exact h.ordered.sublist hsub
  unique := by
    have hsub : (front ++ back).Sublist t.timerSet := by simp [hset]
    exact h.unique.sublist (hsub.map _)
  same := by
    have hunique := h.unique
    rw [hset] at hunique
    simp only [List.map_append, List.map_cons, List.nodup_middle, List.nodup_cons] at hunique
    rw [← List.map_append] at hunique
    intro id cur
    by_cases hid : id = task.id
    · subst hid
      simp only [Function.update_self, reduceCtorEq, false_iff, not_and]
      intro hmem heq
      exact hunique.1 (heq ▸ List.mem_map_of_mem hmem)
    · simp only [Function.update_of_ne hid, h.same, hset]
      have hne : cur.id = id → cur ≠ task := by
        rintro rfl rfl
        exact hid rfl
      simp only [List.mem_append, List.mem_cons]
      tauto

/-- Equal expiry is not enough to be the task that goes: a stored task is in the
range of its expiry, and the id picks it out there. -/
theorem mem_range (h : t.Consistent) (hmem : task ∈ t.timerSet) :
    task ∈ (upperBound task.expire (lowerBound task.expire t.timerSet).2).1 := by
  set rest := (lowerBound task.expire t.timerSet).2 with hrest
  have hset : (lowerBound task.expire t.timerSet).1 ++ rest = t.timerSet := by
    simp [hrest, lowerBound, List.span_eq_takeWhile_dropWhile]
  have hfront : task ∉ (lowerBound task.expire t.timerSet).1 := by
    intro hin
    simp only [lowerBound, List.span_eq_takeWhile_dropWhile] at hin
    have := List.mem_takeWhile_imp hin
    simp at this
  have hmem_rest : task ∈ rest := by
    rw [← hset, List.mem_append] at hmem
    exact hmem.resolve_left hfront
  have hordered : rest.Pairwise fun a b => a.expire ≤ b.expire := by
    have := h.ordered
    rw [← hset] at this
    exact (List.pairwise_append.mp this).2.1
  simp only [upperBound, List.span_eq_takeWhile_dropWhile]
  -- everything behind the range expires later than the task
  clear_value rest
  clear hset hrest
  induction rest with
  | nil => exact absurd hmem_rest (by simp)
  | cons r rest ih =>
      rw [List.pairwise_cons] at hordered
      rcases List.mem_cons.mp hmem_rest with rfl | hin
      · simp
      · have hle := hordered.1 task hin
        rw [List.takeWhile_cons_of_pos (by simpa using hle)]
        exact List.mem_cons_of_mem r (ih hin hordered.2)

theorem cancelTimerInLoop_absent (h : t.timerMap id = none) : t.cancelTimerInLoop id = t := by
  simp [cancelTimerInLoop, h]

theorem cancelTimerInLoop_stored (h : t.Consistent) (hid : t.timerMap id = some task) :
    ∃ front back, t.timerSet = front ++ task :: back ∧
      t.cancelTimerInLoop id = ⟨front ++ back, Function.update t.timerMap id none⟩ := by
  obtain ⟨hmem, heq⟩ := (h.same id task).mp hid
  set front := (lowerBound task.expire t.timerSet).1 with hfront
  set rest := (lowerBound task.expire t.timerSet).2 with hrest
  set range := (upperBound task.expire rest).1 with hrange
  set back := (upperBound task.expire rest).2 with hback
  have hset : t.timerSet = front ++ (range ++ back) := by
    simp [hfront, hrange, hback, hrest, lowerBound, upperBound, List.span_eq_takeWhile_dropWhile]
  have hin : task ∈ range := mem_range h hmem
  have hany : range.any (fun t => t.id = id) = true :=
    List.any_eq_true.mpr ⟨task, hin, by simpa using heq⟩
  obtain ⟨other, l₁, l₂, -, hother, hsplit, herase⟩ :=
    List.exists_of_eraseP (p := fun t => decide (t.id = id)) hin (by simpa using heq)
  -- the first task of the range with this id is the task itself
  have hsame : other = task := by
    refine h.task_ext ?_ hmem ?_
    · simp [hset, hsplit]
    · simp only [decide_eq_true_eq] at hother
      rw [hother, heq]
  subst hsame
  refine ⟨front ++ l₁, l₂ ++ back, ?_, ?_⟩
  · simp [hset, hsplit]
  · simp only [cancelTimerInLoop, hid]
    rw [← hfront, ← hrest, ← hrange, ← hback, if_pos hany, herase]
    simp

private theorem cancelTimerInLoop_consistent (h : t.Consistent) (id : Nat) :
    (t.cancelTimerInLoop id).Consistent := by
  cases hid : t.timerMap id with
  | none =>
      rw [cancelTimerInLoop_absent hid]
      exact h
  | some task =>
      obtain ⟨front, back, hset, hcancel⟩ := cancelTimerInLoop_stored h hid
      obtain ⟨-, rfl⟩ := (h.same id task).mp hid
      rw [hcancel]
      exact erase_consistent front h hset

theorem mem_cancelTimerInLoop (h : t.Consistent) :
    task ∈ (t.cancelTimerInLoop id).timerSet ↔ task ∈ t.timerSet ∧ task.id ≠ id := by
  cases hid : t.timerMap id with
  | none =>
      rw [cancelTimerInLoop_absent hid, iff_self_and]
      rintro hmem rfl
      simp [h.map_mem hmem] at hid
  | some gone =>
      obtain ⟨front, back, hset, hcancel⟩ := cancelTimerInLoop_stored h hid
      obtain ⟨hmem, rfl⟩ := (h.same id gone).mp hid
      have hleft := (erase_consistent front h hset).same gone.id
      simp only [Function.update_self, reduceCtorEq, false_iff, not_and] at hleft
      rw [hcancel, hset]
      constructor
      · intro hin
        exact ⟨by simp only [List.mem_append, List.mem_cons] at hin ⊢; tauto, hleft task hin⟩
      · rintro ⟨hin, hne⟩
        have : task ≠ gone := by
          rintro rfl
          exact hne rfl
        simp only [List.mem_append, List.mem_cons] at hin ⊢
        tauto

theorem cancelTimer_consistent (h : t.Consistent) (id : Nat) : (t.cancelTimer id).Consistent := by
  unfold cancelTimer
  split
  · exact h
  · exact cancelTimerInLoop_consistent h id

/-- A pass of the loop never reads the end iterator of the map; it takes the first
task out of both containers when that is due. -/
theorem detach_cases (now : Int) (h : t.Consistent) :
    (detach now t = .done ∧ ∀ task ∈ t.timerSet, now < task.expire) ∨
    ∃ cur rest, t.timerSet = cur :: rest ∧ cur.expire ≤ now ∧
      detach now t = .call cur ⟨rest, Function.update t.timerMap cur.id none⟩ := by
  cases hset : t.timerSet with
  | nil => exact .inl ⟨by simp [detach, hset], by simp⟩
  | cons cur rest =>
      by_cases hlt : now < cur.expire
      · refine .inl ⟨by simp [detach, hset, hlt], ?_⟩
        intro task hmem
        have hordered := h.ordered
        rw [hset, List.pairwise_cons] at hordered
        rcases List.mem_cons.mp hmem with rfl | hin
        · exact hlt
        · exact Int.lt_of_lt_of_le hlt (hordered.1 task hin)
      · have hstored : t.timerMap cur.id = some cur := h.map_mem (by simp [hset])
        exact .inr ⟨cur, rest, rfl, Int.not_lt.mp hlt, by simp [detach, hset, hlt, hstored]⟩

end Angel.Timer
