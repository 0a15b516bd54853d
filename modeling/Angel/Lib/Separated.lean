import Mathlib.Data.List.Infix
import Mathlib.Tactic.Common

/-!
Text cut at the first place of a separator, which may be any text. A piece comes back from
behind its separator exactly when the separator has no place that begins in the piece.
-/

namespace Angel.Lib.Separated

variable {α : Type*}

/-- In the piece with the separator behind it, that is its only place. -/
def Clear (sep piece : List α) : Prop :=
  ∀ front back, piece ++ sep = front ++ sep ++ back → back = []

theorem clear_nil (sep : List α) : Clear sep [] := by
  intro front back h
  have hlength := congrArg List.length h
  simp only [List.nil_append, List.length_append] at hlength
  exact List.length_eq_zero_iff.mp (by omega)

theorem clear_cons {sep piece : List α} {c : α} :
    Clear sep (c :: piece) ↔ Clear sep piece ∧ ¬ sep <+: c :: piece ++ sep := by
  constructor
  · intro h
    constructor
    · intro front back heq
      exact h (c :: front) back (by rw [List.cons_append, heq]; rfl)
    · rintro ⟨back, hback⟩
      have hnil : back = [] := h [] back hback.symm
      have hlength := congrArg List.length hback
      rw [hnil] at hlength
      simp only [List.length_append, List.length_cons, List.length_nil] at hlength
      omega
  · rintro ⟨hclear, hprefix⟩ front back heq
    cases front with
    | nil => exact absurd ⟨back, heq.symm⟩ hprefix
    | cons d front =>
        obtain ⟨-, hrest⟩ := List.cons.inj heq
        exact hclear front back hrest

variable [DecidableEq α]

/-- The text in front of the first place of the separator, and the text behind it. -/
def cut (sep : List α) : List α → Option (List α × List α)
  | [] => if sep = [] then some ([], []) else none
  | c :: text =>
      if sep <+: c :: text then some ([], (c :: text).drop sep.length)
      else (cut sep text).map fun r => (c :: r.1, r.2)

theorem cut_separator (sep rest : List α) : cut sep (sep ++ rest) = some ([], rest) := by
  cases htext : sep ++ rest with
  | nil =>
      obtain ⟨rfl, rfl⟩ := List.append_eq_nil_iff.mp htext
      rfl
  | cons c text =>
      rw [cut, ← htext, if_pos (List.prefix_append sep rest), List.drop_left]

theorem cut_symbol {sep piece : List α} {c : α} (h : ¬ sep <+: c :: piece ++ sep)
    (rest : List α) :
    cut sep (c :: piece ++ sep ++ rest) =
      (cut sep (piece ++ sep ++ rest)).map fun r => (c :: r.1, r.2) := by
  have hlonger : ¬ sep <+: c :: (piece ++ sep ++ rest) := by
    intro hin
    apply h
    apply List.prefix_of_prefix_length_le hin (List.prefix_append (c :: piece ++ sep) rest)
    simp only [List.length_append, List.length_cons]
    omega
  rw [List.cons_append, List.cons_append, cut, if_neg hlonger]

/-- The piece comes back when nothing in it looks like its separator, and only then. -/
theorem cut_append_iff (sep piece rest : List α) :
    (∃ behind, cut sep (piece ++ sep ++ rest) = some (piece, behind)) ↔ Clear sep piece := by
  induction piece with
  | nil =>
      rw [List.nil_append, cut_separator]
      exact iff_of_true ⟨rest, rfl⟩ (clear_nil sep)
  | cons c piece ih =>
      rw [clear_cons]
      by_cases hprefix : sep <+: c :: piece ++ sep
      · have hcut : cut sep (c :: piece ++ sep ++ rest) =
            some ([], (c :: piece ++ sep ++ rest).drop sep.length) := by
          have hlonger := hprefix.trans (List.prefix_append (c :: piece ++ sep) rest)
          rw [List.cons_append, List.cons_append] at hlonger ⊢
          rw [cut, if_pos hlonger]
        rw [hcut]
        constructor
        · rintro ⟨behind, heq⟩
          simp at heq
        · rintro ⟨-, hnot⟩
          exact absurd hprefix hnot
      · rw [cut_symbol hprefix, and_iff_left hprefix, ← ih]
        simp

theorem cut_append {sep piece : List α} (h : Clear sep piece) (rest : List α) :
    cut sep (piece ++ sep ++ rest) = some (piece, rest) := by
  induction piece with
  | nil => exact cut_separator sep rest
  | cons c piece ih =>
      obtain ⟨hclear, hprefix⟩ := clear_cons.mp h
      rw [cut_symbol hprefix, ih hclear, Option.map_some]

end Angel.Lib.Separated
