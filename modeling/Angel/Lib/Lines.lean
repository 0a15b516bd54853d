import Mathlib.Data.List.Basic
import Mathlib.Tactic.Common

/-!
Text in lines. A line ends with a mark of two different symbols; what is behind
the last mark counts as a line too, so that the lines of a text determine it.
-/

namespace Angel.Lib.Lines

variable {α : Type*} [DecidableEq α] (cr lf : α)

/-- The pieces between the marks. -/
def lines : List α → List (List α)
  | [] => [[]]
  | [c] => [[c]]
  | c :: d :: text =>
      if c = cr ∧ d = lf then [] :: lines text
      else
        match lines (d :: text) with
        | [] => [[c]]
        | line :: more => (c :: line) :: more

/-- Every line with its mark. -/
def unlines (ls : List (List α)) : List α := ls.flatMap (· ++ [cr, lf])

variable {cr lf}

omit [DecidableEq α] in
@[simp] theorem unlines_cons (line : List α) (ls : List (List α)) :
    unlines cr lf (line :: ls) = line ++ cr :: lf :: unlines cr lf ls := by
  simp [unlines]

theorem lines_ne_nil (text : List α) : lines cr lf text ≠ [] := by
  fun_cases lines cr lf text <;> simp

theorem lines_mark (text : List α) :
    lines cr lf (cr :: lf :: text) = [] :: lines cr lf text :=
  if_pos ⟨rfl, rfl⟩

theorem lines_symbol {c d : α} {text line : List α} {more : List (List α)}
    (hmark : ¬ (c = cr ∧ d = lf)) (h : lines cr lf (d :: text) = line :: more) :
    lines cr lf (c :: d :: text) = (c :: line) :: more := by
  rw [lines, if_neg hmark, h]

theorem lines_induction (cr lf : α) {motive : List α → Prop} (nil : motive [])
    (single : ∀ c, motive [c]) (mark : ∀ text, motive text → motive (cr :: lf :: text))
    (symbol : ∀ c d text line more, ¬ (c = cr ∧ d = lf) →
      lines cr lf (d :: text) = line :: more → motive (d :: text) → motive (c :: d :: text))
    (text : List α) : motive text := by
  induction text using lines.induct cr lf with
  | case1 => exact nil
  | case2 c => exact single c
  | case3 c d text hmark ih =>
      obtain ⟨rfl, rfl⟩ := hmark
      exact mark text ih
  | case4 c d text hmark hnil => exact absurd hnil (lines_ne_nil _)
  | case5 c d text hmark line more hlines ih => exact symbol c d text line more hmark hlines ih

theorem unlines_lines (text : List α) :
    unlines cr lf (lines cr lf text) = text ++ [cr, lf] := by
  induction text using lines_induction cr lf with
  | nil => rfl
  | single c => rfl
  | mark text ih =>
      rw [lines_mark, unlines_cons, ih]
      rfl
  | symbol c d text line more hmark hlines ih =>
      rw [hlines, unlines_cons] at ih
      rw [lines_symbol hmark hlines, unlines_cons, List.cons_append, ih]
      rfl

theorem lines_append (hne : cr ≠ lf) (front rest : List α) :
    lines cr lf (front ++ cr :: lf :: rest) = lines cr lf front ++ lines cr lf rest := by
  induction front using lines_induction cr lf with
  | nil => exact lines_mark rest
  | single c =>
      have hmark : ¬ (c = cr ∧ cr = lf) := fun h => hne h.2
      rw [List.singleton_append, lines_symbol hmark (lines_mark rest)]
      rfl
  | mark text ih =>
      rw [List.cons_append, List.cons_append, lines_mark, lines_mark, ih]
      rfl
  | symbol c d text line more hmark hlines ih =>
      rw [hlines, List.cons_append, List.cons_append] at ih
      rw [lines_symbol hmark hlines, List.cons_append, List.cons_append, lines_symbol hmark ih]
      rfl

theorem lines_free {text : List α} (h : ¬ [cr, lf] <:+: text) : lines cr lf text = [text] := by
  induction text using lines_induction cr lf with
  | nil => rfl
  | single c => rfl
  | mark text => exact absurd (List.prefix_append [cr, lf] text).isInfix h
  | symbol c d text line more hmark hlines ih =>
      have hrest : ¬ [cr, lf] <:+: d :: text :=
        fun hin => h (hin.trans (List.suffix_cons c (d :: text)).isInfix)
      exact lines_symbol hmark (ih hrest)

theorem lines_unlines (hne : cr ≠ lf) {ls : List (List α)} (h : ∀ l ∈ ls, cr ∉ l)
    (rest : List α) : lines cr lf (unlines cr lf ls ++ rest) = ls ++ lines cr lf rest := by
  induction ls with
  | nil => rfl
  | cons l ls ih =>
      have hfree : ¬ [cr, lf] <:+: l := by
        intro hin
        exact h l List.mem_cons_self (hin.subset List.mem_cons_self)
      rw [unlines_cons, List.append_assoc, List.cons_append, List.cons_append,
        lines_append hne, lines_free hfree, ih fun l' hl' => h l' (List.mem_cons_of_mem l hl')]
      rfl

theorem intercalate_lines (text : List α) : [cr, lf].intercalate (lines cr lf text) = text := by
  have happend : ∀ ls : List (List α), ls ≠ [] →
      [cr, lf].intercalate ls ++ [cr, lf] = unlines cr lf ls := by
    intro ls hne
    induction ls with
    | nil => exact absurd rfl hne
    | cons line ls ih =>
        cases ls with
        | nil => simp [unlines, List.intercalate]
        | cons next ls =>
            rw [unlines_cons, ← ih (List.cons_ne_nil next ls)]
            simp [List.intercalate]
  have hmarked := happend (lines cr lf text) (lines_ne_nil text)
  rw [unlines_lines] at hmarked
  exact List.append_cancel_right hmarked

/-- A text that goes on: the complete lines are complete, and its last line goes on. -/
theorem lines_extend (text more : List α) :
    lines cr lf (text ++ more) =
      (lines cr lf text).dropLast ++
        lines cr lf ((lines cr lf text).getLast (lines_ne_nil text) ++ more) := by
  induction text using lines_induction cr lf with
  | nil => rfl
  | single c => rfl
  | mark text ih =>
      simp only [List.cons_append, lines_mark, ih, List.getLast_cons (lines_ne_nil text),
        List.dropLast_cons_of_ne_nil (lines_ne_nil text)]
  | symbol c d text line rest hmark hlines ih =>
      have hfirst := lines_symbol hmark hlines
      simp only [hfirst, hlines] at ih ⊢
      cases rest with
      | nil =>
          -- one line only, which is the text
          have htext : [cr, lf].intercalate (lines cr lf (d :: text)) = d :: text :=
            intercalate_lines _
          rw [hlines] at htext
          simp [List.intercalate] at htext
          simp [htext]
      | cons next rest =>
          simp only [List.dropLast_cons_cons, List.getLast_cons_cons, List.cons_append] at ih ⊢
          exact lines_symbol hmark ih

theorem mem_lines {c : α} (hcr : c ≠ cr) (hlf : c ≠ lf) (text : List α) :
    (∃ line ∈ lines cr lf text, c ∈ line) ↔ c ∈ text := by
  have hmem : c ∈ unlines cr lf (lines cr lf text) ↔ c ∈ text ++ [cr, lf] := by
    rw [unlines_lines]
  simpa [unlines, hcr, hlf] using hmem

end Angel.Lib.Lines
