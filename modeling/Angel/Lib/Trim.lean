import Mathlib.Data.List.DropRight

/-!
A list without the elements at its two ends that a predicate holds of.
-/

namespace Angel.Lib

section

variable {α : Type*} (p : α → Bool)

def trimmed (s : List α) : List α := (s.dropWhile p).rdropWhile p

variable {p} {s front back : List α}

theorem dropWhile_of_head (h : ∀ c, s.head? = some c → p c = false) : s.dropWhile p = s := by
  cases s with
  | nil => rfl
  | cons c s => rw [List.dropWhile_cons, h c rfl, if_neg Bool.false_ne_true]

theorem trimmed_of_ends (hfirst : ∀ c, s.head? = some c → p c = false)
    (hlast : ∀ c, s.getLast? = some c → p c = false) : trimmed p s = s := by
  rw [trimmed, dropWhile_of_head hfirst, List.rdropWhile, dropWhile_of_head, List.reverse_reverse]
  rwa [List.head?_reverse]

theorem trimmed_of_forall (h : ∀ c ∈ s, p c = false) : trimmed p s = s :=
  trimmed_of_ends (fun c hc => h c (List.mem_of_mem_head? hc))
    (fun c hc => h c (List.mem_of_getLast? hc))

theorem trimmed_front (hfront : ∀ c ∈ front, p c = true) : trimmed p (front ++ s) = trimmed p s := by
  rw [trimmed, List.dropWhile_append_of_pos hfront, trimmed]

theorem trimmed_back (hback : ∀ c ∈ back, p c = true) : trimmed p (s ++ back) = trimmed p s := by
  induction s with
  | nil =>
      have hall : back.dropWhile p = [] := List.dropWhile_eq_nil_iff.mpr hback
      rw [List.nil_append, trimmed, hall]
      rfl
  | cons c s ih =>
      cases hc : p c with
      | true =>
          have hdrop : ∀ t, trimmed p (c :: t) = trimmed p t := by
            intro t
            rw [trimmed, List.dropWhile_cons, hc, if_pos rfl, trimmed]
          rw [List.cons_append, hdrop, hdrop, ih]
      | false =>
          have hkeep : ∀ t, (c :: t).dropWhile p = c :: t := by
            intro t
            rw [List.dropWhile_cons, hc, if_neg Bool.false_ne_true]
          have hreverse : ∀ d ∈ back.reverse, p d = true :=
            fun d hd => hback d (List.mem_reverse.mp hd)
          rw [trimmed, List.cons_append, hkeep, ← List.cons_append, List.rdropWhile,
            List.reverse_append, List.dropWhile_append_of_pos hreverse, trimmed, hkeep,
            List.rdropWhile]

theorem trimmed_decompose (s : List α) :
    ∃ front back, (∀ c ∈ front, p c = true) ∧ (∀ c ∈ back, p c = true) ∧
      s = front ++ trimmed p s ++ back := by
  refine ⟨s.takeWhile p, (s.dropWhile p).rtakeWhile p, fun _ h => List.mem_takeWhile_imp h,
    fun _ h => List.mem_rtakeWhile_imp h, ?_⟩
  rw [trimmed, List.append_assoc, List.rdropWhile_append_rtakeWhile,
    List.takeWhile_append_dropWhile]

theorem trimmed_infix (s : List α) : trimmed p s <:+: s := by
  obtain ⟨front, back, _, _, heq⟩ := trimmed_decompose (p := p) s
  exact ⟨front, back, heq.symm⟩

theorem trimmed_head? {c : α} (h : (trimmed p s).head? = some c) : p c = false := by
  obtain ⟨rest, hrest⟩ : trimmed p s <+: s.dropWhile p := List.rdropWhile_prefix p _
  obtain ⟨tail, htail⟩ := List.head?_eq_some_iff.mp h
  have hhead := List.head?_dropWhile_not p s
  rw [← hrest, htail, List.cons_append, List.head?_cons] at hhead
  simpa using hhead

theorem trimmed_getLast? {c : α} (h : (trimmed p s).getLast? = some c) : p c = false := by
  have hhead := List.head?_dropWhile_not p (s.dropWhile p).reverse
  rw [trimmed, List.rdropWhile, List.getLast?_reverse] at h
  rw [h] at hhead
  simpa using hhead

theorem trimmed_trimmed (s : List α) : trimmed p (trimmed p s) = trimmed p s :=
  trimmed_of_ends (fun _ h => trimmed_head? h) (fun _ h => trimmed_getLast? h)

end

end Angel.Lib
