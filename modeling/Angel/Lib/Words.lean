import Mathlib.Data.List.TakeWhile
import Mathlib.Tactic.Common

/-!
The words of a text: what stands between its separators, as far as anything
does. A text falls into words on its own where it is cut behind a separator.
-/

namespace Angel.Lib

section

variable {α : Type*} (sep : α → Bool)

def words (s : List α) : List (List α) := (s.splitOnP sep).filter (!·.isEmpty)

/-- The text is empty or ends with a separator, so that no word goes on behind
it. -/
def EndsWord (s : List α) : Prop := ∀ c ∈ s.getLast?, sep c = true

instance (s : List α) : Decidable (EndsWord sep s) := by
  unfold EndsWord
  infer_instance

variable {sep}

@[simp] theorem words_nil : words sep ([] : List α) = [] := rfl

theorem words_append_cons {c : α} (hc : sep c = true) (front rest : List α) :
    words sep (front ++ c :: rest) = words sep front ++ words sep rest := by
  rw [words, List.splitOnP_append_cons front rest hc, List.filter_append]
  rfl

theorem words_cons {c : α} (hc : sep c = true) (s : List α) :
    words sep (c :: s) = words sep s :=
  words_append_cons hc [] s

theorem words_of_sep {s : List α} (h : ∀ c ∈ s, sep c = true) : words sep s = [] := by
  induction s with
  | nil => rfl
  | cons c s ih =>
      obtain ⟨hc, hs⟩ := List.forall_mem_cons.mp h
      rw [words_cons hc, ih hs]

theorem words_of_free {w : List α} (hne : w ≠ []) (h : ∀ c ∈ w, sep c = false) :
    words sep w = [w] := by
  rw [words, List.splitOnP_eq_singleton h, List.filter_cons_of_pos (by simpa using hne)]
  rfl

theorem words_word {w : List α} (hne : w ≠ []) (h : ∀ c ∈ w, sep c = false) {c : α}
    (hc : sep c = true) (rest : List α) : words sep (w ++ c :: rest) = w :: words sep rest := by
  rw [words_append_cons hc, words_of_free hne h, List.singleton_append]

theorem endsWord_nil : EndsWord sep ([] : List α) := nofun

theorem endsWord_append_singleton {s : List α} {c : α} :
    EndsWord sep (s ++ [c]) ↔ sep c = true := by
  simp [EndsWord]

theorem endsWord_of_sep {s : List α} (h : ∀ c ∈ s, sep c = true) : EndsWord sep s :=
  fun c hc => h c (List.mem_of_getLast? hc)

theorem not_endsWord_of_free {w : List α} (hne : w ≠ []) (h : ∀ c ∈ w, sep c = false) :
    ¬ EndsWord sep w := by
  intro hends
  have hlast := List.getLast?_eq_some_getLast hne
  have hsep := hends _ hlast
  rw [h _ (List.getLast_mem hne)] at hsep
  cases hsep

theorem endsWord_append_cons {c : α} (hc : sep c = true) (front rest : List α) :
    EndsWord sep (front ++ c :: rest) ↔ EndsWord sep rest := by
  rcases List.eq_nil_or_concat rest with rfl | ⟨rest, d, rfl⟩
  · exact iff_of_true (endsWord_append_singleton.mpr hc) endsWord_nil
  · have hshape : front ++ c :: rest.concat d = (front ++ c :: rest) ++ [d] := by simp
    rw [hshape, List.concat_eq_append, endsWord_append_singleton, endsWord_append_singleton]

theorem EndsWord.cases {s : List α} (h : EndsWord sep s) :
    s = [] ∨ ∃ front c, s = front ++ [c] ∧ sep c = true := by
  rcases List.eq_nil_or_concat s with rfl | ⟨front, c, rfl⟩
  · exact .inl rfl
  · rw [List.concat_eq_append] at h ⊢
    exact .inr ⟨front, c, rfl, endsWord_append_singleton.mp h⟩

theorem endsWord_append {front : List α} (h : EndsWord sep front) (rest : List α) :
    EndsWord sep (front ++ rest) ↔ EndsWord sep rest := by
  rcases h.cases with rfl | ⟨front, c, rfl, hc⟩
  · rfl
  · rw [List.append_assoc, List.singleton_append, endsWord_append_cons hc]

theorem words_append {front : List α} (h : EndsWord sep front) (rest : List α) :
    words sep (front ++ rest) = words sep front ++ words sep rest := by
  rcases h.cases with rfl | ⟨front, c, rfl, hc⟩
  · rfl
  · have hfront : words sep (front ++ [c]) = words sep front := by
      rw [words_append_cons hc, words_nil, List.append_nil]
    rw [hfront, List.append_assoc, List.singleton_append, words_append_cons hc]

/-- The first word of a text, and the end of the text or a separator behind
it. -/
theorem first_word {c : α} (hc : sep c = false) (s : List α) :
    ∃ w, (c :: s).takeWhile (!sep ·) = c :: w ∧ (∀ b ∈ c :: w, sep b = false) ∧
      (((c :: s).dropWhile (!sep ·) = [] ∧ s = w) ∨
        ∃ d rest, (c :: s).dropWhile (!sep ·) = d :: rest ∧ sep d = true ∧ s = w ++ d :: rest) := by
  have htake : (c :: s).takeWhile (!sep ·) = c :: s.takeWhile (!sep ·) := by simp [hc]
  have hdrop : (c :: s).dropWhile (!sep ·) = s.dropWhile (!sep ·) := by simp [hc]
  have hcut : s.takeWhile (!sep ·) ++ s.dropWhile (!sep ·) = s := List.takeWhile_append_dropWhile
  have hhead := List.head?_dropWhile_not (!sep ·) s
  rw [htake, hdrop]
  refine ⟨s.takeWhile (!sep ·), rfl, List.forall_mem_cons.mpr ⟨hc, fun b hb => ?_⟩, ?_⟩
  · simpa using List.mem_takeWhile_imp hb
  · cases hrest : s.dropWhile (!sep ·) with
    | nil =>
        rw [hrest, List.append_nil] at hcut
        exact .inl ⟨rfl, hcut.symm⟩
    | cons d rest =>
        rw [hrest] at hcut hhead
        exact .inr ⟨d, rest, rfl, by simpa using hhead, hcut.symm⟩

/-- Induction over the words of a text: separators, a word at its end, or a word
and the separator behind it. -/
theorem words_induction (sep : α → Bool) {motive : List α → Prop} (nil : motive [])
    (separator : ∀ c s, sep c = true → motive s → motive (c :: s))
    (last : ∀ w, w ≠ [] → (∀ c ∈ w, sep c = false) → motive w)
    (word : ∀ w c s, w ≠ [] → (∀ b ∈ w, sep b = false) → sep c = true → motive s →
      motive (w ++ c :: s)) (s : List α) : motive s := by
  induction hn : s.length using Nat.strongRecOn generalizing s with
  | ind n ih =>
      cases s with
      | nil => exact nil
      | cons b s =>
          cases hb : sep b with
          | true =>
              have hlen : s.length < n := by
                rw [← hn]
                exact Nat.lt_succ_self _
              exact separator b s hb (ih s.length hlen s rfl)
          | false =>
              obtain ⟨w, -, hfree, ⟨-, rfl⟩ | ⟨c, rest, -, hc, rfl⟩⟩ := first_word hb s
              · exact last (b :: s) (List.cons_ne_nil b s) hfree
              · have hlen : rest.length < n := by
                  rw [← hn, List.length_cons, List.length_append, List.length_cons]
                  omega
                exact word (b :: w) c rest (List.cons_ne_nil b w) hfree hc
                  (ih rest.length hlen rest rfl)

theorem mem_words {s w : List α} (h : w ∈ words sep s) :
    w ≠ [] ∧ (∀ c ∈ w, sep c = false) ∧ w ⊆ s := by
  induction s using words_induction sep with
  | nil => cases h
  | separator c s hc ih =>
      rw [words_cons hc] at h
      obtain ⟨hne, hfree, hsub⟩ := ih h
      exact ⟨hne, hfree, List.subset_cons_of_subset c hsub⟩
  | last v hne hfree =>
      rw [words_of_free hne hfree, List.mem_singleton] at h
      subst h
      exact ⟨hne, hfree, List.Subset.refl _⟩
  | word v c s hne hfree hc ih =>
      rw [words_word hne hfree hc] at h
      rcases List.mem_cons.mp h with rfl | h
      · exact ⟨hne, hfree, List.subset_append_left _ _⟩
      · obtain ⟨hne', hfree', hsub⟩ := ih h
        exact ⟨hne', hfree', List.subset_append_of_subset_right _ (List.subset_cons_of_subset c hsub)⟩

theorem words_position {s w : List α} (h : w ∈ words sep s) :
    ∃ front rest, s = front ++ (w ++ rest) ∧ EndsWord sep front := by
  induction s using words_induction sep with
  | nil => cases h
  | separator c s hc ih =>
      rw [words_cons hc] at h
      obtain ⟨front, rest, rfl, hfront⟩ := ih h
      exact ⟨c :: front, rest, rfl, (endsWord_append_cons hc [] front).mpr hfront⟩
  | last v hne hfree =>
      rw [words_of_free hne hfree, List.mem_singleton] at h
      subst h
      exact ⟨[], [], by simp, endsWord_nil⟩
  | word v c s hne hfree hc ih =>
      rw [words_word hne hfree hc] at h
      rcases List.mem_cons.mp h with rfl | h
      · exact ⟨[], c :: s, rfl, endsWord_nil⟩
      · obtain ⟨front, rest, rfl, hfront⟩ := ih h
        exact ⟨v ++ c :: front, rest, by simp, (endsWord_append_cons hc v front).mpr hfront⟩

theorem words_head {c : α} (hc : sep c = false) (s : List α) :
    ∃ w ws, words sep (c :: s) = (c :: w) :: ws := by
  obtain ⟨w, -, hfree, ⟨-, rfl⟩ | ⟨d, rest, -, hd, rfl⟩⟩ := first_word hc s
  · exact ⟨s, [], words_of_free (List.cons_ne_nil c s) hfree⟩
  · exact ⟨w, _, words_word (List.cons_ne_nil c w) hfree hd rest⟩

theorem words_eq_nil_iff {s : List α} : words sep s = [] ↔ ∀ c ∈ s, sep c = true := by
  refine ⟨fun h => ?_, words_of_sep⟩
  induction s with
  | nil => exact fun _ hc => absurd hc List.not_mem_nil
  | cons c s ih =>
      cases hc : sep c with
      | true => exact List.forall_mem_cons.mpr ⟨hc, ih (words_cons hc s ▸ h)⟩
      | false =>
          obtain ⟨w, ws, hwords⟩ := words_head hc s
          rw [hwords] at h
          cases h

end

end Angel.Lib
