import Angel.Buffer
import Angel.Lib.Lines

/-!
The buffer in lines: a search for CRLF finds the end of the first one.
-/

namespace Angel.Buffer

open Lib.Lines

private theorem not_infix_of_find {pattern buf : Bytes} (hpattern : pattern ≠ [])
    (h : find pattern buf = none) : ¬ pattern <:+: buf := by
  induction buf with
  | nil => exact fun hin => hpattern (List.infix_nil.mp hin)
  | cons b buf ih =>
      rw [find] at h
      split at h
      · cases h
      · next hstart =>
          rw [List.isPrefixOf_iff_prefix] at hstart
          rw [List.infix_cons_iff, not_or]
          exact ⟨hstart, ih (Option.map_eq_none_iff.mp h)⟩

theorem lines_some {buf : Bytes} {crlf : Nat} (h : findCrlf buf = some crlf) :
    lines CR LF buf = buf.take crlf :: lines CR LF (buf.drop (crlf + 2)) := by
  obtain ⟨line, rest, rfl, rfl, hfree⟩ := findCrlf_some h
  rw [take_line, drop_line, List.append_assoc]
  change lines CR LF (line ++ CR :: LF :: rest) = _
  rw [lines_append (by decide), lines_free hfree]
  rfl

theorem lines_none {buf : Bytes} (h : findCrlf buf = none) : lines CR LF buf = [buf] :=
  lines_free (not_infix_of_find (by decide) h)

theorem find_byte (c : UInt8) (buf : Bytes) :
    find [c] buf = if c ∈ buf then some (buf.idxOf c) else none := by
  split
  case isTrue hmem =>
    obtain ⟨front, rest, rfl, hfree⟩ := List.eq_append_cons_of_mem hmem
    rw [find_singleton c hfree, List.idxOf_append_of_notMem hfree]
    simp
  case isFalse hmem => exact find_eq_none hmem

theorem startsWith_line {p : Bytes} (hp : CR ∉ p) (line rest : Bytes) :
    startsWith (line ++ CRLF ++ rest) p = startsWith line p := by
  rw [Bool.eq_iff_iff, startsWith, startsWith, List.isPrefixOf_iff_prefix,
    List.isPrefixOf_iff_prefix]
  constructor
  · intro h
    rw [List.append_assoc] at h
    rcases List.prefix_or_prefix_of_prefix h (List.prefix_append line _) with hline | ⟨more, rfl⟩
    · exact hline
    · cases more with
      | nil =>
          rw [List.append_nil]
      | cons c more =>
          rw [List.prefix_append_right_inj] at h
          obtain ⟨rfl, _⟩ := List.cons_prefix_cons.mp h
          exact absurd (List.mem_append_right line List.mem_cons_self) hp
  · intro h
    rw [List.append_assoc]
    exact h.trans (List.prefix_append _ _)

end Angel.Buffer
