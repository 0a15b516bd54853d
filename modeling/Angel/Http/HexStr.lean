import Angel.Http.Message
import Mathlib.Data.List.TakeWhile

/-!
What `strtoll` reads in base 16, and what `from_hex_str` makes of it: blanks, a
sign and a `0x` are taken in front of the digits, the value saturates, and a
text of which not all is converted gives -1.
-/

namespace Angel.Http

open Util Lib

/-- A hexadecimal digit. -/
def ishex (c : UInt8) : Bool := (digit? c).isSome

private theorem ishex_range {c : UInt8} (h : ishex c = true) :
    (48 ≤ c.toNat ∧ c.toNat ≤ 57) ∨ (97 ≤ c.toNat ∧ c.toNat ≤ 102) ∨
      (65 ≤ c.toNat ∧ c.toNat ≤ 70) := by
  unfold ishex digit? at h
  simp only [UInt8.le_iff_toNat_le] at h
  split at h
  · exact Or.inl (by assumption)
  · split at h
    · exact Or.inr (Or.inl (by assumption))
    · split at h
      · exact Or.inr (Or.inr (by assumption))
      · cases h

theorem ishex_not_isspace {c : UInt8} (h : ishex c = true) : isspace c = false := by
  have hrange := ishex_range h
  rw [← Bool.not_eq_true]
  intro hspace
  simp only [isspace, Bool.or_eq_true, Bool.and_eq_true, decide_eq_true_eq,
    UInt8.le_iff_toNat_le] at hspace
  rcases hspace with rfl | hspace
  · simp at hrange
  · have h9 : (9 : UInt8).toNat = 9 := rfl
    have h13 : (13 : UInt8).toNat = 13 := rfl
    omega

private theorem ishex_ne {c k : UInt8} (h : ishex c = true) (hk : ishex k = false) : c ≠ k := by
  rintro rfl
  simp [h] at hk

theorem signOf_digits {c : UInt8} (h : ishex c = true) (rest : Bytes) :
    signOf (c :: rest) = (false, 0) := by
  unfold signOf
  split
  · rename_i heq
    exact absurd (List.cons.inj heq).1 (ishex_ne h (by decide))
  · rename_i heq
    exact absurd (List.cons.inj heq).1 (ishex_ne h (by decide))
  · rfl

theorem hexPrefix_digits {s : Bytes} (h : ∀ c ∈ s, ishex c = true) : hexPrefix s = 0 := by
  unfold hexPrefix
  split
  · rename_i x d more
    have hx : ishex x = true := h x (by simp)
    rw [if_neg]
    rintro ⟨rfl | rfl, _⟩
    · exact absurd hx (by decide)
    · exact absurd hx (by decide)
  · rfl

/-- `1*HEX`. -/
structure IsHex (digits : Bytes) : Prop where
  nonempty : digits ≠ []
  all : digits.all ishex = true

/-- A number as `strtoll` takes it in base 16. -/
structure HexNumber where
  blanks : Bytes
  sign : Bytes
  pre : Bytes
  digits : Bytes
  blanksSpace : blanks.all isspace = true
  signKnown : sign = [] ∨ sign = [43] ∨ sign = [45]
  preKnown : pre = [] ∨ pre = [48, 120] ∨ pre = [48, 88]
  digitsHex : IsHex digits

def HexNumber.text (n : HexNumber) : Bytes := n.blanks ++ (n.sign ++ (n.pre ++ n.digits))

def HexNumber.magnitude (n : HexNumber) : Nat := ofDigits 16 n.digits

/-- The value, saturated at the ends of `long long`. -/
def HexNumber.value (n : HexNumber) : Int :=
  if n.sign = [45] then -(min n.magnitude (2 ^ 63) : Nat) else (min n.magnitude (2 ^ 63 - 1) : Nat)

theorem IsHex.mem {digits : Bytes} (h : IsHex digits) : ∀ c ∈ digits, ishex c = true :=
  List.all_eq_true.mp h.all

namespace HexNumber

variable (n : HexNumber)

theorem digits_cons : ∃ c rest, n.digits = c :: rest ∧ ishex c = true := by
  obtain ⟨c, rest, hcons⟩ := List.exists_cons_of_ne_nil n.digitsHex.nonempty
  exact ⟨c, rest, hcons, n.digitsHex.mem c (hcons ▸ List.mem_cons_self)⟩

theorem unsigned_cons : ∃ c rest, n.pre ++ n.digits = c :: rest ∧ ishex c = true := by
  rcases n.preKnown with hpre | hpre | hpre
  · rw [hpre]
    exact n.digits_cons
  · exact ⟨48, 120 :: n.digits, by rw [hpre]; rfl, by decide⟩
  · exact ⟨48, 88 :: n.digits, by rw [hpre]; rfl, by decide⟩

theorem takeWhile_blanks : n.text.takeWhile isspace = n.blanks := by
  have hnone : (n.sign ++ (n.pre ++ n.digits)).takeWhile isspace = [] := by
    rcases n.signKnown with hsign | hsign | hsign
    · obtain ⟨c, rest, hcons, hc⟩ := n.unsigned_cons
      rw [hsign, List.nil_append, hcons]
      simp [ishex_not_isspace hc]
    · rw [hsign]
      rfl
    · rw [hsign]
      rfl
  rw [text, List.takeWhile_append_of_pos (List.all_eq_true.mp n.blanksSpace), hnone,
    List.append_nil]

private theorem signOf_sign :
    signOf (n.sign ++ (n.pre ++ n.digits)) = (decide (n.sign = [45]), n.sign.length) := by
  rcases n.signKnown with hsign | hsign | hsign
  · obtain ⟨c, rest, hcons, hc⟩ := n.unsigned_cons
    rw [hsign, List.nil_append, hcons, signOf_digits hc]
    rfl
  · rw [hsign]
    rfl
  · rw [hsign]
    rfl

private theorem hexPrefix_pre : hexPrefix (n.pre ++ n.digits) = n.pre.length := by
  obtain ⟨c, rest, hcons, hc⟩ := n.digits_cons
  rcases n.preKnown with hpre | hpre | hpre
  · rw [hpre, List.nil_append, hexPrefix_digits n.digitsHex.mem]
    rfl
  · rw [hpre, hcons]
    exact if_pos ⟨Or.inl rfl, hc⟩
  · rw [hpre, hcons]
    exact if_pos ⟨Or.inr rfl, hc⟩

theorem fromHexStr_text : fromHexStr n.text = n.value := by
  have hnumber : n.text.drop n.blanks.length = n.sign ++ (n.pre ++ n.digits) :=
    List.drop_left' rfl
  have hunsigned : (n.sign ++ (n.pre ++ n.digits)).drop n.sign.length = n.pre ++ n.digits :=
    List.drop_left' rfl
  have hdigits : (n.pre ++ n.digits).drop n.pre.length = n.digits := List.drop_left' rfl
  have hrun : n.digits.takeWhile (fun c => (digit? c).isSome) = n.digits :=
    List.takeWhile_eq_self_iff.mpr n.digitsHex.mem
  have hread : strtollHex n.text = (n.value, n.text.length) := by
    unfold strtollHex
    simp only [n.takeWhile_blanks, hnumber, n.signOf_sign, hunsigned, n.hexPrefix_pre, hdigits,
      hrun]
    rw [if_neg n.digitsHex.nonempty]
    simp [value, magnitude, text, Nat.add_assoc]
  simp [fromHexStr, hread]

theorem value_nonneg (hsign : n.sign = [45] → n.magnitude = 0) : 0 ≤ n.value := by
  unfold value
  split
  · next hminus =>
      rw [hsign hminus]
      decide
  · omega

theorem magnitude_of_nonneg (h : 0 ≤ n.value) (hsign : n.sign = [45]) : n.magnitude = 0 := by
  rw [value, if_pos hsign] at h
  omega

theorem value_lt : n.value < 2 ^ 63 := by
  unfold value
  split
  · omega
  · omega

theorem semicolon_not_mem : 59 ∉ n.text := by
  intro hmem
  rcases List.mem_append.mp hmem with hmem | hmem
  · exact absurd (List.all_eq_true.mp n.blanksSpace 59 hmem) (by decide)
  rcases List.mem_append.mp hmem with hmem | hmem
  · rcases n.signKnown with hsign | hsign | hsign
    · simp [hsign] at hmem
    · simp [hsign] at hmem
    · simp [hsign] at hmem
  rcases List.mem_append.mp hmem with hmem | hmem
  · rcases n.preKnown with hpre | hpre | hpre
    · simp [hpre] at hmem
    · simp [hpre] at hmem
    · simp [hpre] at hmem
  · exact absurd (n.digitsHex.mem 59 hmem) (by decide)

end HexNumber

theorem signOf_take (s : Bytes) :
    s.take (signOf s).2 = [] ∨ s.take (signOf s).2 = [43] ∨ s.take (signOf s).2 = [45] := by
  unfold signOf
  split
  · exact Or.inr (Or.inr rfl)
  · exact Or.inr (Or.inl rfl)
  · exact Or.inl rfl

private theorem hexPrefix_take (s : Bytes) :
    s.take (hexPrefix s) = [] ∨ s.take (hexPrefix s) = [48, 120] ∨
      s.take (hexPrefix s) = [48, 88] := by
  unfold hexPrefix
  split
  · split
    · next hx =>
        rcases hx.1 with rfl | rfl
        · exact Or.inr (Or.inl rfl)
        · exact Or.inr (Or.inr rfl)
    · exact Or.inl rfl
  · exact Or.inl rfl

private theorem strtollHex_stop (s : Bytes) {number unsigned digits : Bytes}
    (hnumber : s.drop (s.takeWhile isspace).length = number)
    (hunsigned : number.drop (signOf number).2 = unsigned)
    (hdigits : (unsigned.drop (hexPrefix unsigned)).takeWhile ishex = digits) :
    (strtollHex s).2 = if digits = [] then 0 else
      (s.takeWhile isspace).length + (signOf number).2 + hexPrefix unsigned + digits.length := by
  subst hnumber hunsigned hdigits
  exact apply_ite Prod.snd _ _ _

theorem fromHexStr_inv {line : Bytes} (h : fromHexStr line ≠ -1) :
    line = [] ∨ ∃ n : HexNumber, n.text = line := by
  generalize hnumber : line.drop (line.takeWhile isspace).length = number
  generalize hunsigned : number.drop (signOf number).2 = unsigned
  generalize hbehind : unsigned.drop (hexPrefix unsigned) = behind
  generalize hdigits : behind.takeWhile ishex = digits
  have hstop : (strtollHex line).2 = line.length := by
    unfold fromHexStr at h
    dsimp only at h
    split at h
    · assumption
    · exact absurd rfl h
  rw [strtollHex_stop line hnumber hunsigned (hbehind ▸ hdigits)] at hstop
  split at hstop
  · exact Or.inl (List.length_eq_zero_iff.mp hstop.symm)
  · next hne =>
      have hblanks : line.takeWhile isspace ++ number = line := by
        rw [← hnumber]
        exact (List.prefix_append_drop (List.takeWhile_prefix isspace)).symm
      have hsign : number.take (signOf number).2 ++ unsigned = number := by
        rw [← hunsigned, List.take_append_drop]
      have hpre : unsigned.take (hexPrefix unsigned) ++ behind = unsigned := by
        rw [← hbehind, List.take_append_drop]
      -- the whole line is converted, so nothing is behind the digits
      have hrun : digits = behind := by
        rw [← hdigits]
        apply (List.takeWhile_prefix ishex).eq_of_length
        have hlen : behind.length = line.length - (line.takeWhile isspace).length -
            (signOf number).2 - hexPrefix unsigned := by
          rw [← hbehind, List.length_drop, ← hunsigned, List.length_drop, ← hnumber,
            List.length_drop]
        rw [hdigits, hlen]
        omega
      have hhex : IsHex digits := by
        refine ⟨hne, ?_⟩
        rw [← hdigits]
        exact List.all_takeWhile
      refine Or.inr ⟨⟨line.takeWhile isspace, number.take (signOf number).2,
        unsigned.take (hexPrefix unsigned), digits, List.all_takeWhile, signOf_take number,
        hexPrefix_take unsigned, hhex⟩, ?_⟩
      change line.takeWhile isspace ++ (number.take (signOf number).2 ++
        (unsigned.take (hexPrefix unsigned) ++ digits)) = line
      rw [hrun, hpre, hsign, hblanks]

theorem fromHexStr_lt (line : Bytes) : fromHexStr line < 2 ^ 63 := by
  by_contra hlarge
  have hread : fromHexStr line ≠ -1 := by omega
  rcases fromHexStr_inv hread with rfl | ⟨n, rfl⟩
  · exact hlarge (by decide)
  · rw [n.fromHexStr_text] at hlarge
    exact hlarge n.value_lt

/-- Digits with nothing in front of them. -/
def HexNumber.plain (digits : Bytes) (h : IsHex digits) : HexNumber where
  blanks := []
  sign := []
  pre := []
  digits := digits
  blanksSpace := rfl
  signKnown := Or.inl rfl
  preKnown := Or.inl rfl
  digitsHex := h

theorem fromHexStr_digits {s : Bytes} (hne : s ≠ []) (hdigits : s.all ishex = true)
    (hvalue : ofDigits 16 s ≤ maxSize) : fromHexStr s = (ofDigits 16 s : Int) := by
  have hread : fromHexStr s = (min (ofDigits 16 s) (2 ^ 63 - 1) : Nat) :=
    (HexNumber.plain s ⟨hne, hdigits⟩).fromHexStr_text
  have hmin : min (ofDigits 16 s) (2 ^ 63 - 1) = ofDigits 16 s := Nat.min_eq_left hvalue
  rw [hread, hmin]

end Angel.Http
