import Angel.Basic
import Mathlib.Data.List.Infix

/-!
The receive buffer as the queue of its readable bytes. Offsets into it are
`int` in the source and natural numbers here: a buffer holds less than 2 GiB.
`append` is `++`, `retrieve n` is `drop n` and `peek` is the list itself.
-/

namespace Angel.Buffer

/-- The offset of the first occurrence of `pattern`; `none` is the source's
-1. -/
def find (pattern : Bytes) : Bytes → Option Nat
  | [] => none
  | b :: buf =>
      if pattern.isPrefixOf (b :: buf) then some 0 else (find pattern buf).map (· + 1)

def findCrlf (buf : Bytes) : Option Nat := find CRLF buf

def startsWith (buf s : Bytes) : Bool := s.isPrefixOf buf

theorem startsWith_append (s rest : Bytes) : startsWith (s ++ rest) s = true :=
  List.isPrefixOf_iff_prefix.mpr (List.prefix_append s rest)

theorem find_singleton (c : UInt8) {front : Bytes} (h : c ∉ front) (rest : Bytes) :
    find [c] (front ++ c :: rest) = some front.length := by
  induction front with
  | nil => simp [find]
  | cons b front ih =>
      have hb : c ≠ b := fun heq => h (by simp [heq])
      have hfront : c ∉ front := fun hmem => h (by simp [hmem])
      rw [List.cons_append, find, ih hfront]
      simp [hb]

section

-- A pattern whose first byte does not occur in it again.
variable {c : UInt8} {pattern : Bytes}

/-- Behind something without it, such a pattern does not start earlier than it
does. -/
theorem not_prefix_front (hc : c ∉ pattern) {front : Bytes} (h : ¬ c :: pattern <:+: front)
    (hne : front ≠ []) (rest : Bytes) : ¬ c :: pattern <+: front ++ (c :: pattern) ++ rest := by
  rintro ⟨behind, heq⟩
  rw [List.append_assoc] at heq
  rcases List.append_eq_append_iff.mp heq with ⟨beyond, hfront, _⟩ | ⟨beyond, hpattern, hover⟩
  · exact h (hfront ▸ (List.prefix_append (c :: pattern) beyond).isInfix)
  · cases beyond with
    | nil =>
        rw [List.append_nil] at hpattern
        exact h (hpattern ▸ List.infix_refl _)
    | cons d beyond =>
        obtain ⟨b, front, rfl⟩ := List.exists_cons_of_ne_nil hne
        obtain ⟨rfl, _⟩ := List.cons.inj hover
        obtain ⟨_, htail⟩ := List.cons.inj hpattern
        exact hc (htail ▸ List.mem_append_right front List.mem_cons_self)

theorem find_pattern (hc : c ∉ pattern) {front : Bytes} (h : ¬ c :: pattern <:+: front)
    (rest : Bytes) : find (c :: pattern) (front ++ (c :: pattern) ++ rest) = some front.length := by
  induction front with
  | nil => simp [find]
  | cons b front ih =>
      have htail : ¬ c :: pattern <:+: front :=
        fun hin => h (hin.trans (List.suffix_cons b front).isInfix)
      have hprefix := not_prefix_front hc h (List.cons_ne_nil b front) rest
      rw [← List.isPrefixOf_iff_prefix] at hprefix
      rw [List.cons_append, List.cons_append] at hprefix ⊢
      rw [find, if_neg hprefix, ih htail]
      rfl

theorem find_eq_none {buf : Bytes} (h : c ∉ buf) : find (c :: pattern) buf = none := by
  induction buf with
  | nil => rfl
  | cons b buf ih =>
      have hb : c ≠ b := fun heq => h (heq ▸ List.mem_cons_self)
      have hprefix : ¬ (c :: pattern).isPrefixOf (b :: buf) = true := by
        simp [hb]
      rw [find, if_neg hprefix, ih fun hmem => h (List.mem_cons_of_mem b hmem)]
      rfl

theorem find_incomplete (hc : c ∉ pattern) {front buf tail : Bytes}
    (h : ¬ c :: pattern <:+: front) (hbuf : buf ++ tail = front ++ (c :: pattern))
    (htail : tail ≠ []) : find (c :: pattern) buf = none := by
  induction buf generalizing front with
  | nil => rfl
  | cons b buf ih =>
      cases front with
      | nil =>
          -- a proper part of the pattern: its first byte comes once
          have hsplit : b = c ∧ buf ++ tail = pattern := List.cons.inj hbuf
          obtain ⟨rfl, hrest⟩ := hsplit
          have hprefix : ¬ (b :: pattern).isPrefixOf (b :: buf) = true := by
            rw [List.isPrefixOf_iff_prefix]
            intro hpre
            have hlen := hpre.length_le
            have hpos := List.length_pos_iff.mpr htail
            rw [← hrest, List.length_cons, List.length_cons, List.length_append] at hlen
            omega
          rw [find, if_neg hprefix, find_eq_none fun hmem => hc (hrest ▸ List.mem_append_left tail hmem)]
          rfl
      | cons a front =>
          obtain ⟨rfl, hrest⟩ := List.cons.inj hbuf
          have hfront : ¬ c :: pattern <:+: front :=
            fun hin => h (hin.trans (List.suffix_cons b front).isInfix)
          have hprefix : ¬ (c :: pattern).isPrefixOf (b :: buf) = true := by
            rw [List.isPrefixOf_iff_prefix]
            intro hpre
            apply not_prefix_front hc h (List.cons_ne_nil b front) []
            rw [List.append_nil, ← hbuf]
            exact hpre.trans (List.prefix_append _ _)
          rw [find, if_neg hprefix, ih hfront hrest]
          rfl

end

theorem CR_not_mem_LF : CR ∉ [LF] := by decide

theorem crlf_infix_of_start {line : Bytes} (hline : line ≠ []) (rest : Bytes)
    (h : CRLF <+: line ++ CRLF ++ rest) : CRLF <:+: line := by
  by_contra hnot
  exact not_prefix_front CR_not_mem_LF hnot hline rest h

theorem take_line (line rest : Bytes) : (line ++ CRLF ++ rest).take line.length = line := by
  rw [List.append_assoc, List.take_left]

theorem drop_line (line rest : Bytes) : (line ++ CRLF ++ rest).drop (line.length + 2) = rest := by
  apply List.drop_left'
  rw [List.length_append]
  rfl

theorem findCrlf_line {line : Bytes} (h : ¬ CRLF <:+: line) (rest : Bytes) :
    findCrlf (line ++ CRLF ++ rest) = some line.length := find_pattern CR_not_mem_LF h rest

theorem findCrlf_incomplete {line buf tail : Bytes} (h : ¬ CRLF <:+: line)
    (hbuf : buf ++ tail = line ++ CRLF) (htail : tail ≠ []) : findCrlf buf = none :=
  find_incomplete CR_not_mem_LF h hbuf htail

theorem findCrlf_some {buf : Bytes} {i : Nat} (h : findCrlf buf = some i) :
    ∃ line tail, buf = line ++ CRLF ++ tail ∧ line.length = i ∧ ¬ CRLF <:+: line := by
  unfold findCrlf at h
  induction buf generalizing i with
  | nil => cases h
  | cons b buf ih =>
      rw [find] at h
      by_cases hpre : CRLF.isPrefixOf (b :: buf) = true
      · rw [if_pos hpre] at h
        cases h
        obtain ⟨tail, htail⟩ := List.isPrefixOf_iff_prefix.mp hpre
        exact ⟨[], tail, htail.symm, rfl, by simp [CRLF]⟩
      · rw [if_neg hpre] at h
        obtain ⟨j, hj, rfl⟩ := Option.map_eq_some_iff.mp h
        obtain ⟨line, tail, hbuf, hlen, hfree⟩ := ih hj
        refine ⟨b :: line, tail, by rw [hbuf]; rfl, by rw [List.length_cons, hlen], ?_⟩
        intro hin
        rcases List.infix_cons_iff.mp hin with hfront | hin
        · apply hpre
          rw [List.isPrefixOf_iff_prefix, hbuf]
          have hlonger : b :: line <+: b :: (line ++ CRLF ++ tail) := by
            rw [List.append_assoc]
            exact List.prefix_append (b :: line) (CRLF ++ tail)
          exact hfront.trans hlonger
        · exact hfree hin

theorem findCrlf_append {buf : Bytes} {i : Nat} (h : findCrlf buf = some i) (rest : Bytes) :
    findCrlf (buf ++ rest) = some i ∧ (buf ++ rest).take i = buf.take i := by
  obtain ⟨line, tail, rfl, rfl, hfree⟩ := findCrlf_some h
  constructor
  · rw [List.append_assoc]
    exact findCrlf_line hfree (tail ++ rest)
  · simp

end Angel.Buffer
