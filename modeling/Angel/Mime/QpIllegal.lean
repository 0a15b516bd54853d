import Angel.Mime.Qp

/-!
What the quoted-printable decoder does with illegal sequences. Behind an `=` it
takes one or two characters before it knows, and it gives back only the first of
them. `restored` is the decoding that gives back both.
-/

namespace Angel.Mime.QP

open Util

/-- The decoding that copies an illegal `=` with the character behind it and
resumes right there. `last` takes the place of a lone `=` at the end. -/
def restored (last : Bytes) : Bytes → Bytes
  | [] => []
  | [c] => if c = EQUALS then last else [c]
  | [c, c1] => if c = EQUALS then [c, c1] else c :: restored last [c1]
  | c :: c1 :: c2 :: data =>
      if c ≠ EQUALS then c :: restored last (c1 :: c2 :: data)
      else if ishexnumber c1 = true ∧ ishexnumber c2 = true then
        fromHexPair c1 c2 :: restored last data
      else if c1 = CR ∧ c2 = LF then restored last data
      else c :: c1 :: restored last (c2 :: data)

/-- Nothing is lost; a lone `=` at the end may be dropped. -/
def Restores (data out : Bytes) : Prop := out = restored [] data ∨ out = restored [EQUALS] data

/-- An illegal sequence that the decoder recognizes by its second character. -/
def Lost (c1 c2 : UInt8) : Prop :=
  (ishexnumber c1 = true ∧ ishexnumber c2 = false) ∨ (c1 = CR ∧ c2 ≠ LF)

/-- No illegal sequence is recognized by its second character, unless there are
only `=` from there on, and an odd number of them. -/
inductive Kept : Bytes → Prop where
  | nil : Kept []
  | char {c : UInt8} {data : Bytes} (hc : c ≠ EQUALS) (h : Kept data) : Kept (c :: data)
  | lone : Kept [EQUALS]
  | cut (c1 : UInt8) : Kept [EQUALS, c1]
  | octet {c1 c2 : UInt8} {data : Bytes} (h1 : ishexnumber c1 = true) (h2 : ishexnumber c2 = true)
      (h : Kept data) : Kept (EQUALS :: c1 :: c2 :: data)
  | softBreak {data : Bytes} (h : Kept data) : Kept (EQUALS :: CR :: LF :: data)
  | illegal {c1 : UInt8} {data : Bytes} (h1 : ishexnumber c1 = false) (hCR : c1 ≠ CR)
      (h : Kept data) : Kept (EQUALS :: c1 :: data)
  | equals {c1 : UInt8} (h1 : ishexnumber c1 = true ∨ c1 = CR) (n : Nat) :
      Kept (EQUALS :: c1 :: List.replicate (2 * n + 1) EQUALS)

/-- What a scan finds at its position. -/
inductive Scan : Bytes → Prop where
  | nil : Scan []
  | char {c : UInt8} (hc : c ≠ EQUALS) (data : Bytes) : Scan (c :: data)
  | lone : Scan [EQUALS]
  | cut (c1 : UInt8) : Scan [EQUALS, c1]
  | octet {c1 c2 : UInt8} (h1 : ishexnumber c1 = true) (h2 : ishexnumber c2 = true)
      (data : Bytes) : Scan (EQUALS :: c1 :: c2 :: data)
  | softBreak (data : Bytes) : Scan (EQUALS :: CR :: LF :: data)
  | illegal {c1 : UInt8} (h1 : ishexnumber c1 = false) (hCR : c1 ≠ CR) (data : Bytes) :
      Scan (EQUALS :: c1 :: data)
  | lost {c1 c2 : UInt8} (h : Lost c1 c2) (data : Bytes) : Scan (EQUALS :: c1 :: c2 :: data)

theorem scan (data : Bytes) : Scan data := by
  match data with
  | [] => exact .nil
  | c :: data =>
      by_cases hc : c = EQUALS
      · subst hc
        match data with
        | [] => exact .lone
        | [c1] => exact .cut c1
        | c1 :: c2 :: data =>
            cases h1 : ishexnumber c1 with
            | true =>
                cases h2 : ishexnumber c2 with
                | true => exact .octet h1 h2 data
                | false => exact .lost (.inl ⟨h1, h2⟩) data
            | false =>
                by_cases hCR : c1 = CR
                · subst hCR
                  by_cases hLF : c2 = LF
                  · subst hLF
                    exact .softBreak data
                  · exact .lost (.inr ⟨rfl, hLF⟩) data
                · exact .illegal h1 hCR (c2 :: data)
      · exact .char hc data

theorem not_hex_CR : ishexnumber CR = false := by decide

theorem not_hex_EQUALS : ishexnumber EQUALS = false := by decide

theorem CR_ne_EQUALS : CR ≠ EQUALS := by decide

theorem LF_ne_EQUALS : LF ≠ EQUALS := by decide

theorem ne_EQUALS_of_hex {c : UInt8} (h : ishexnumber c = true) : c ≠ EQUALS := by
  rintro rfl
  exact absurd h (by decide)

theorem Lost.ne_EQUALS {c1 c2 : UInt8} (h : Lost c1 c2) : c1 ≠ EQUALS := by
  rcases h with ⟨h1, _⟩ | ⟨rfl, _⟩
  · exact ne_EQUALS_of_hex h1
  · decide

section Steps

variable (last data : Bytes) {c c1 c2 : UInt8}

attribute [local simp] restored decode

theorem decode_char (hc : c ≠ EQUALS) : decode (c :: data) = c :: decode data :=
  decodes_char hc data

theorem decode_octet (h1 : ishexnumber c1 = true) (h2 : ishexnumber c2 = true) :
    decode (EQUALS :: c1 :: c2 :: data) = fromHexPair c1 c2 :: decode data := by
  simp [h1, h2]

theorem decode_illegal (h1 : ishexnumber c1 = false) (hCR : c1 ≠ CR) :
    decode (EQUALS :: c1 :: data) = EQUALS :: c1 :: decode data := by
  rw [decode.eq_def]
  simp [h1, hCR]

theorem decode_cut (c1 : UInt8) : decode [EQUALS, c1] = [EQUALS, c1] := by
  unfold decode
  rw [if_neg (not_not.mpr rfl)]
  dsimp only
  split
  · rfl
  · rfl

theorem decode_softBreak_cons : decode (EQUALS :: CR :: LF :: data) = decode data :=
  decodes_softBreak data

theorem decode_lost (h : Lost c1 c2) :
    decode (EQUALS :: c1 :: c2 :: data) = EQUALS :: c1 :: decode data := by
  rcases h with ⟨h1, h2⟩ | ⟨rfl, h2⟩
  · simp [h1, h2]
  · simp [not_hex_CR, h2]

theorem restored_char (hc : c ≠ EQUALS) : restored last (c :: data) = c :: restored last data := by
  match data with
  | [] => simp [hc]
  | [d] => simp [hc]
  | d :: e :: data => rw [restored, if_pos hc]

theorem restored_octet (h1 : ishexnumber c1 = true) (h2 : ishexnumber c2 = true) :
    restored last (EQUALS :: c1 :: c2 :: data) = fromHexPair c1 c2 :: restored last data := by
  rw [restored, if_neg (not_not.mpr rfl), if_pos ⟨h1, h2⟩]

theorem restored_softBreak :
    restored last (EQUALS :: CR :: LF :: data) = restored last data := by
  rw [restored, if_neg (not_not.mpr rfl), if_neg (by decide), if_pos ⟨rfl, rfl⟩]

theorem restored_illegal (h1 : ishexnumber c1 = false) (hCR : c1 ≠ CR) :
    restored last (EQUALS :: c1 :: data) = EQUALS :: c1 :: restored last data := by
  cases data with
  | nil => simp
  | cons d data =>
      rw [restored, if_neg (not_not.mpr rfl), if_neg (by simp [h1]), if_neg (by simp [hCR])]

theorem restored_lost (h : Lost c1 c2) :
    restored last (EQUALS :: c1 :: c2 :: data) = EQUALS :: c1 :: restored last (c2 :: data) := by
  have hhex : ¬ (ishexnumber c1 = true ∧ ishexnumber c2 = true) := by
    rcases h with ⟨_, h2⟩ | ⟨rfl, _⟩
    · simp [h2]
    · simp [not_hex_CR]
  have hbreak : ¬ (c1 = CR ∧ c2 = LF) := by
    rintro ⟨rfl, rfl⟩
    rcases h with ⟨h1, _⟩ | ⟨_, hne⟩
    · exact absurd h1 (by decide)
    · exact hne rfl
  rw [restored, if_neg (not_not.mpr rfl), if_neg hhex, if_neg hbreak]

end Steps

private theorem decode_pairs (n : Nat) (data : Bytes) :
    decode (List.replicate (2 * n) EQUALS ++ data) =
      List.replicate (2 * n) EQUALS ++ decode data := by
  induction n with
  | zero => rfl
  | succ n ih =>
      rw [Nat.mul_succ, List.replicate_succ, List.replicate_succ, List.cons_append, List.cons_append,
        decode_illegal _ not_hex_EQUALS (by decide), ih]
      rfl

private theorem restored_pairs (last : Bytes) (n : Nat) (data : Bytes) :
    restored last (List.replicate (2 * n) EQUALS ++ data) =
      List.replicate (2 * n) EQUALS ++ restored last data := by
  induction n with
  | zero => rfl
  | succ n ih =>
      rw [Nat.mul_succ, List.replicate_succ, List.replicate_succ, List.cons_append, List.cons_append,
        restored_illegal _ _ not_hex_EQUALS (by decide), ih]
      rfl

theorem Kept.decode_eq {data : Bytes} (h : Kept data) : decode data = restored [] data := by
  induction h with
  | nil => rfl
  | char hc h ih => rw [decode_char _ hc, restored_char _ _ hc, ih]
  | lone => rfl
  | cut c1 => rw [decode_cut, restored, if_pos rfl]
  | octet h1 h2 h ih => rw [decode_octet _ h1 h2, restored_octet _ _ h1 h2, ih]
  | softBreak h ih => rw [decode_softBreak_cons, restored_softBreak, ih]
  | illegal h1 hCR h ih => rw [decode_illegal _ h1 hCR, restored_illegal _ _ h1 hCR, ih]
  | @equals c1 h1 n =>
      have hlost : Lost c1 EQUALS := by
        rcases h1 with h1 | rfl
        · exact .inl ⟨h1, not_hex_EQUALS⟩
        · exact .inr ⟨rfl, by decide⟩
      have hrun := decode_pairs n []
      have hkeep := restored_pairs [] n [EQUALS]
      rw [List.append_nil, decode, List.append_nil] at hrun
      rw [← List.replicate_succ', restored, if_pos rfl, List.append_nil] at hkeep
      rw [List.replicate_succ, decode_lost _ hlost, restored_lost _ _ hlost, ← List.replicate_succ,
        hrun, hkeep]

/-- Neither is the other with characters other than `=` in front of it. -/
def Apart (first second : Bytes) : Prop :=
  ∀ w : Bytes, w ≠ [] → EQUALS ∉ w → first ≠ w ++ second ∧ w ++ first ≠ second

theorem Apart.cons {first second : Bytes} (h : Apart first second) (c : UInt8) :
    Apart (c :: first) (c :: second) := by
  intro w hne hfree
  obtain ⟨a, w, rfl⟩ := List.exists_cons_of_ne_nil hne
  have hfree' : EQUALS ∉ w ++ [a] := by
    intro hmem
    apply hfree
    simpa [or_comm] using hmem
  obtain ⟨h1, h2⟩ := h (w ++ [a]) (by simp) hfree'
  constructor
  · intro heq
    obtain ⟨rfl, hrest⟩ := List.cons.inj heq
    exact h1 (by rw [List.append_assoc]; exact hrest)
  · intro heq
    obtain ⟨rfl, hrest⟩ := List.cons.inj heq
    exact h2 (by rw [List.append_assoc]; exact hrest)

private theorem apart_equals (first second : Bytes) :
    Apart (EQUALS :: first) (EQUALS :: second) := by
  intro w hne hfree
  obtain ⟨a, w, rfl⟩ := List.exists_cons_of_ne_nil hne
  have ha : a ≠ EQUALS := fun h => hfree (h ▸ List.mem_cons_self)
  exact ⟨fun heq => ha (List.cons.inj heq).1.symm, fun heq => ha (List.cons.inj heq).1⟩

private theorem apart_nil {second : Bytes} (h : ∀ c ∈ second, c = EQUALS) : Apart [] second := by
  intro w hne hfree
  constructor
  · intro heq
    exact hne (List.append_eq_nil_iff.mp heq.symm).1
  · intro heq
    obtain ⟨a, w, rfl⟩ := List.exists_cons_of_ne_nil hne
    have ha : a ∈ second := by
      rw [← heq]
      exact List.mem_cons_self
    exact hfree (h a ha ▸ List.mem_cons_self)

/-- Output that is ahead by characters other than `=` stays ahead: both decoders
go on with the same characters, and where one of them copies an `=`, the other
would have to have it too. -/
theorem decode_shift {last : Bytes} (hlast : ∀ c ∈ last, c = EQUALS) (data : Bytes) :
    Apart (decode data) (restored last data) := by
  induction hn : data.length using Nat.strong_induction_on generalizing data with
  | _ n ih =>
      cases scan data with
      | nil => exact apart_nil nofun
      | char hc rest =>
          have hlen : rest.length < n := by
            rw [← hn]
            exact Nat.lt_succ_self _
          rw [decode_char rest hc, restored_char last rest hc]
          exact (ih rest.length hlen rest rfl).cons _
      | lone =>
          have hrestored : restored last [EQUALS] = last := by rw [restored, if_pos rfl]
          rw [hrestored]
          exact apart_nil hlast
      | cut c1 =>
          have hrestored : restored last [EQUALS, c1] = [EQUALS, c1] := by rw [restored, if_pos rfl]
          rw [decode_cut, hrestored]
          exact apart_equals _ _
      | octet h1 h2 rest =>
          have hlen : rest.length < n := by
            rw [← hn]
            simp only [List.length_cons]
            omega
          rw [decode_octet rest h1 h2, restored_octet last rest h1 h2]
          exact (ih rest.length hlen rest rfl).cons _
      | softBreak rest =>
          have hlen : rest.length < n := by
            rw [← hn]
            simp only [List.length_cons]
            omega
          rw [decode_softBreak_cons, restored_softBreak]
          exact ih rest.length hlen rest rfl
      | illegal h1 hCR rest =>
          rw [decode_illegal rest h1 hCR, restored_illegal last rest h1 hCR]
          exact apart_equals _ _
      | lost h rest =>
          rw [decode_lost rest h, restored_lost last rest h]
          exact apart_equals _ _

@[simp] theorem count_other {c : UInt8} (hc : c ≠ EQUALS) (data : Bytes) :
    (c :: data).count EQUALS = data.count EQUALS :=
  List.count_cons_of_ne hc

/-- The decoder does not write more `=` than are to be kept: with both scans at
one place, with the other scan a byte behind, and with a pair of `=` behind it. -/
structure Counted (last data : Bytes) : Prop where
  same : (decode data).count EQUALS ≤ (restored last data).count EQUALS
  behind : ∀ c, (decode data).count EQUALS ≤ (restored last (c :: data)).count EQUALS
  pair : (decode (EQUALS :: data)).count EQUALS ≤ (restored last data).count EQUALS + 2

section Counts

variable {last data : Bytes}

theorem counted_same (ih : ∀ rest : Bytes, rest.length < data.length → Counted last rest) :
    (decode data).count EQUALS ≤ (restored last data).count EQUALS := by
  cases scan data with
  | nil => exact Nat.le_refl _
  | char hc rest =>
      rw [decode_char _ hc, restored_char _ _ hc, count_other hc, count_other hc]
      exact (ih rest (Nat.lt_succ_self _)).same
  | lone => exact Nat.zero_le _
  | cut c1 => rw [decode_cut, restored, if_pos rfl]
  | octet h1 h2 rest =>
      have hrest := (ih rest (by simp only [List.length_cons]; omega)).same
      rw [decode_octet _ h1 h2, restored_octet _ _ h1 h2, List.count_cons, List.count_cons]
      omega
  | softBreak rest =>
      rw [decode_softBreak_cons, restored_softBreak]
      exact (ih rest (by simp only [List.length_cons]; omega)).same
  | illegal h1 hCR rest =>
      have hrest := (ih rest (by simp only [List.length_cons]; omega)).same
      rw [decode_illegal _ h1 hCR, restored_illegal _ _ h1 hCR]
      simp only [List.count_cons]
      omega
  | @lost c1 c2 h rest =>
      have hrest := (ih rest (by simp only [List.length_cons]; omega)).behind c2
      rw [decode_lost _ h, restored_lost _ _ h, List.count_cons_self, List.count_cons_self,
        count_other h.ne_EQUALS, count_other h.ne_EQUALS]
      omega

private theorem counted_behind
    (ih : ∀ rest : Bytes, rest.length < data.length → Counted last rest) :
    (decode data).count EQUALS ≤ (restored last (EQUALS :: data)).count EQUALS := by
  generalize htext : EQUALS :: data = text
  cases scan text with
  | nil => cases htext
  | char hc rest => exact absurd (List.cons.inj htext).1.symm hc
  | lone =>
      obtain ⟨_, rfl⟩ := List.cons.inj htext
      exact Nat.zero_le _
  | cut c1 =>
      obtain ⟨_, rfl⟩ := List.cons.inj htext
      rw [restored, if_pos rfl]
      by_cases h1 : c1 = EQUALS
      · subst h1
        exact Nat.zero_le _
      · rw [decode_char _ h1, count_other h1]
        exact Nat.zero_le _
  | octet h1 h2 rest =>
      obtain ⟨_, rfl⟩ := List.cons.inj htext
      have hrest := (ih rest (by simp only [List.length_cons]; omega)).same
      rw [decode_char _ (ne_EQUALS_of_hex h1), decode_char _ (ne_EQUALS_of_hex h2),
        restored_octet _ _ h1 h2, count_other (ne_EQUALS_of_hex h1),
        count_other (ne_EQUALS_of_hex h2), List.count_cons]
      omega
  | softBreak rest =>
      obtain ⟨_, rfl⟩ := List.cons.inj htext
      rw [decode_char _ CR_ne_EQUALS, decode_char _ LF_ne_EQUALS, restored_softBreak,
        count_other CR_ne_EQUALS, count_other LF_ne_EQUALS]
      exact (ih rest (by simp only [List.length_cons]; omega)).same
  | @illegal c1 h1 hCR rest =>
      obtain ⟨_, rfl⟩ := List.cons.inj htext
      have hrest := ih rest (by simp only [List.length_cons]; omega)
      rw [restored_illegal _ _ h1 hCR, List.count_cons_self]
      by_cases heq : c1 = EQUALS
      · subst heq
        rw [List.count_cons_self]
        exact hrest.pair
      · rw [decode_char _ heq, count_other heq, count_other heq]
        exact Nat.le_succ_of_le hrest.same
  | @lost c1 c2 h rest =>
      obtain ⟨_, rfl⟩ := List.cons.inj htext
      have hrest := (ih (c2 :: rest) (by simp only [List.length_cons]; omega)).same
      rw [restored_lost _ _ h, decode_char _ h.ne_EQUALS, count_other h.ne_EQUALS,
        List.count_cons_self, count_other h.ne_EQUALS]
      exact Nat.le_succ_of_le hrest

private theorem counted_pair (ih : ∀ rest : Bytes, rest.length < data.length → Counted last rest) :
    (decode (EQUALS :: data)).count EQUALS ≤ (restored last data).count EQUALS + 2 := by
  generalize htext : EQUALS :: data = text
  cases scan text with
  | nil => cases htext
  | char hc rest => exact absurd (List.cons.inj htext).1.symm hc
  | lone => exact Nat.zero_le _
  | cut c1 =>
      have hcount : [EQUALS, c1].count EQUALS ≤ 2 := List.count_le_length
      rw [decode_cut]
      omega
  | octet h1 h2 rest =>
      obtain ⟨_, rfl⟩ := List.cons.inj htext
      have hrest := (ih rest (by simp only [List.length_cons]; omega)).same
      rw [decode_octet _ h1 h2, restored_char _ _ (ne_EQUALS_of_hex h1),
        restored_char _ _ (ne_EQUALS_of_hex h2), count_other (ne_EQUALS_of_hex h1),
        count_other (ne_EQUALS_of_hex h2), List.count_cons]
      split <;> omega
  | softBreak rest =>
      obtain ⟨_, rfl⟩ := List.cons.inj htext
      have hrest := (ih rest (by simp only [List.length_cons]; omega)).same
      rw [decode_softBreak_cons, restored_char _ _ CR_ne_EQUALS, restored_char _ _ LF_ne_EQUALS,
        count_other CR_ne_EQUALS, count_other LF_ne_EQUALS]
      omega
  | @illegal c1 h1 hCR rest =>
      obtain ⟨_, rfl⟩ := List.cons.inj htext
      have hrest := ih rest (by simp only [List.length_cons]; omega)
      rw [decode_illegal _ h1 hCR, List.count_cons_self]
      by_cases heq : c1 = EQUALS
      · subst heq
        have hbehind := hrest.behind EQUALS
        rw [List.count_cons_self]
        omega
      · have hsame := hrest.same
        rw [restored_char _ _ heq, count_other heq, count_other heq]
        omega
  | @lost c1 c2 h rest =>
      obtain ⟨_, rfl⟩ := List.cons.inj htext
      have hrest := (ih rest (by simp only [List.length_cons]; omega)).behind c2
      rw [decode_lost _ h, restored_char _ _ h.ne_EQUALS, List.count_cons_self,
        count_other h.ne_EQUALS, count_other h.ne_EQUALS]
      omega

end Counts

private theorem counted (last data : Bytes) : Counted last data := by
  induction hn : data.length using Nat.strong_induction_on generalizing data with
  | _ n ih =>
      have ih' : ∀ rest : Bytes, rest.length < data.length → Counted last rest :=
        fun rest hlen => ih rest.length (hn ▸ hlen) rest rfl
      refine ⟨counted_same ih', ?_, counted_pair ih'⟩
      intro c
      by_cases hc : c = EQUALS
      · exact hc ▸ counted_behind ih'
      · rw [restored_char _ _ hc, count_other hc]
        exact counted_same ih'

private theorem decode_pair {last data : Bytes}
    (heq : decode (EQUALS :: data) = EQUALS :: EQUALS :: restored last data) :
    ∃ rest, data = EQUALS :: rest ∧ decode rest = restored last (EQUALS :: rest) := by
  have hcount := congrArg (List.count EQUALS) heq
  rw [List.count_cons_self, List.count_cons_self] at hcount
  generalize htext : EQUALS :: data = text at heq hcount
  cases scan text with
  | nil => cases htext
  | char hc rest => exact absurd (List.cons.inj htext).1.symm hc
  | lone => cases heq
  | cut c1 =>
      obtain ⟨_, rfl⟩ := List.cons.inj htext
      rw [decode_cut] at heq
      obtain ⟨rfl, hnil⟩ := List.cons.inj (List.cons.inj heq).2
      rw [restored, if_pos rfl] at hnil
      refine ⟨[], rfl, ?_⟩
      rw [restored, if_pos rfl]
      exact hnil
  | octet h1 h2 rest =>
      obtain ⟨_, rfl⟩ := List.cons.inj htext
      have hrest := (counted last rest).same
      rw [decode_octet _ h1 h2, restored_char _ _ (ne_EQUALS_of_hex h1),
        restored_char _ _ (ne_EQUALS_of_hex h2), count_other (ne_EQUALS_of_hex h1),
        count_other (ne_EQUALS_of_hex h2), List.count_cons] at hcount
      split at hcount <;> omega
  | softBreak rest =>
      obtain ⟨_, rfl⟩ := List.cons.inj htext
      have hrest := (counted last rest).same
      rw [decode_softBreak_cons, restored_char _ _ CR_ne_EQUALS, restored_char _ _ LF_ne_EQUALS,
        count_other CR_ne_EQUALS, count_other LF_ne_EQUALS] at hcount
      omega
  | illegal h1 hCR rest =>
      obtain ⟨_, rfl⟩ := List.cons.inj htext
      rw [decode_illegal _ h1 hCR] at heq
      obtain ⟨rfl, hrest⟩ := List.cons.inj (List.cons.inj heq).2
      exact ⟨rest, rfl, hrest⟩
  | lost h rest =>
      rw [decode_lost _ h] at heq
      exact absurd (List.cons.inj (List.cons.inj heq).2).1 h.ne_EQUALS

/-- A byte that is lost is missed, unless it is the first of an odd run of `=`
that ends the text. -/
theorem lost_equals {last : Bytes} (hlast : last = [] ∨ last = [EQUALS]) (c : UInt8) (data : Bytes)
    (heq : decode data = restored last (c :: data)) :
    ∃ n, c :: data = List.replicate (2 * n + 1) EQUALS := by
  have hequals : ∀ c ∈ last, c = EQUALS := by
    rcases hlast with rfl | rfl <;> simp
  induction hn : data.length using Nat.strong_induction_on generalizing c data with
  | _ n ih =>
      by_cases hc : c = EQUALS
      · subst hc
        generalize htext : EQUALS :: data = text at heq ⊢
        cases scan text with
        | nil => cases htext
        | char hc rest => exact absurd (List.cons.inj htext).1.symm hc
        | lone => exact ⟨0, rfl⟩
        | cut c1 =>
            obtain ⟨_, rfl⟩ := List.cons.inj htext
            rw [restored, if_pos rfl] at heq
            have hlen := congrArg List.length heq
            by_cases h1 : c1 = EQUALS
            · subst h1
              cases hlen
            · rw [decode_char _ h1] at hlen
              cases hlen
        | octet h1 h2 rest =>
            obtain ⟨_, rfl⟩ := List.cons.inj htext
            rw [decode_char _ (ne_EQUALS_of_hex h1), decode_char _ (ne_EQUALS_of_hex h2),
              restored_octet _ _ h1 h2] at heq
            have hshift := (decode_shift hequals rest _ (List.cons_ne_nil _ [])
              fun hmem => ne_EQUALS_of_hex h2 (List.mem_singleton.mp hmem).symm).2
            exact absurd (List.cons.inj heq).2 hshift
        | softBreak rest =>
            obtain ⟨_, rfl⟩ := List.cons.inj htext
            rw [decode_char _ CR_ne_EQUALS, decode_char _ LF_ne_EQUALS, restored_softBreak] at heq
            have hshift := (decode_shift hequals rest [CR, LF] (List.cons_ne_nil _ _) (by decide)).2
            exact absurd heq hshift
        | @illegal c1 h1 hCR rest =>
            obtain ⟨_, rfl⟩ := List.cons.inj htext
            rw [restored_illegal _ _ h1 hCR] at heq
            by_cases h1 : c1 = EQUALS
            · subst h1
              obtain ⟨rest', rfl, hrest⟩ := decode_pair heq
              obtain ⟨k, hk⟩ := ih rest'.length (by simp only [← hn, List.length_cons]; omega)
                EQUALS rest' hrest rfl
              refine ⟨k + 1, ?_⟩
              rw [Nat.mul_succ, List.replicate_succ, List.replicate_succ, ← hk]
            · rw [decode_char _ h1] at heq
              exact absurd (List.cons.inj heq).1 h1
        | lost h rest =>
            obtain ⟨_, rfl⟩ := List.cons.inj htext
            rw [decode_char _ h.ne_EQUALS, restored_lost _ _ h] at heq
            exact absurd (List.cons.inj heq).1 h.ne_EQUALS
      · rw [restored_char _ _ hc] at heq
        have hshift := (decode_shift hequals data [c] (List.cons_ne_nil _ _)
          fun hmem => hc (List.mem_singleton.mp hmem).symm).1
        exact absurd heq hshift

private theorem kept_of_decode_eq {last : Bytes} (hlast : last = [] ∨ last = [EQUALS])
    (data : Bytes)
    (heq : decode data = restored last data) : Kept data := by
  induction hn : data.length using Nat.strong_induction_on generalizing data with
  | _ n ih =>
      cases scan data with
      | nil => exact .nil
      | char hc rest =>
          rw [decode_char _ hc, restored_char _ _ hc] at heq
          exact .char hc (ih rest.length (by simp only [← hn, List.length_cons]; omega) rest
            (List.cons.inj heq).2 rfl)
      | lone => exact .lone
      | cut c1 => exact .cut c1
      | octet h1 h2 rest =>
          rw [decode_octet _ h1 h2, restored_octet _ _ h1 h2] at heq
          exact .octet h1 h2 (ih rest.length (by simp only [← hn, List.length_cons]; omega) rest
            (List.cons.inj heq).2 rfl)
      | softBreak rest =>
          rw [decode_softBreak_cons, restored_softBreak] at heq
          exact .softBreak (ih rest.length (by simp only [← hn, List.length_cons]; omega) rest heq rfl)
      | illegal h1 hCR rest =>
          rw [decode_illegal _ h1 hCR, restored_illegal _ _ h1 hCR] at heq
          exact .illegal h1 hCR (ih rest.length (by simp only [← hn, List.length_cons]; omega) rest
            (List.cons.inj (List.cons.inj heq).2).2 rfl)
      | lost h rest =>
          rw [decode_lost _ h, restored_lost _ _ h] at heq
          obtain ⟨k, hk⟩ := lost_equals hlast _ rest (List.cons.inj (List.cons.inj heq).2).2
          rw [hk]
          exact .equals (h.imp (fun h => h.1) fun h => h.1) k

/-- Decoding restores the text exactly when no second byte is lost. -/
theorem restores_decode_iff (data : Bytes) : Restores data (decode data) ↔ Kept data := by
  constructor
  · rintro (heq | heq)
    · exact kept_of_decode_eq (.inl rfl) data heq
    · exact kept_of_decode_eq (.inr rfl) data heq
  · intro h
    exact .inl h.decode_eq

/-- The `x` of `=4x` is lost. -/
theorem restores_decode_fails : ¬ ∀ data, Restores data (decode data) := by
  intro h
  rcases h (ascii "=4x") with heq | heq
  · exact absurd heq (by decide)
  · exact absurd heq (by decide)

end Angel.Mime.QP
