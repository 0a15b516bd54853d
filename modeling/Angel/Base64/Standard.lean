import Angel.Base64
import Angel.Lib.Bits
import Angel.Lib.Lines

/-!
Base64 as its standard defines it: the bits of the data in groups of six, each
group written as a character, and `=` in the place of the characters that the
last four lack. The encoder of the code computes it.
-/

namespace Angel.Base64

open Angel.Lib.Bits Angel.Lib.Lines

/-- The character of a six-bit value; the last two differ between the alphabets. -/
def character (c62 c63 : UInt8) (v : Nat) : UInt8 :=
  if v < 26 then UInt8.ofNat (65 + v)
  else if v < 52 then UInt8.ofNat (97 + (v - 26))
  else if v < 62 then UInt8.ofNat (48 + (v - 52))
  else if v = 62 then c62 else c63

/-- The bits of all bytes in order. -/
def bitString (data : Bytes) : List Bool := data.flatMap fun c => bits 8 c.toNat

def standardEncode (c62 c63 : UInt8) (data : Bytes) : Bytes :=
  (groups 6 (bitString data)).map (character c62 c63) ++
    List.replicate ((3 - data.length % 3) % 3) 61

/-- The text without the occurrences of CRLF. -/
def withoutBreaks (text : Bytes) : Bytes := (lines CR LF text).flatten

@[simp] theorem bitString_length (data : Bytes) : (bitString data).length = 8 * data.length := by
  induction data with
  | nil => rfl
  | cons c data ih =>
      rw [bitString, List.flatMap_cons, List.length_append, bits_length, List.length_cons]
      rw [bitString] at ih
      omega

theorem bitString_append (front rest : Bytes) :
    bitString (front ++ rest) = bitString front ++ bitString rest :=
  List.flatMap_append

theorem charAt_standard {code : Encode} (hcode : code ≠ .urlSafe) {i : UInt8} (hi : i < 64) :
    code.charAt i = character 43 47 i.toNat := by
  have hall : ∀ v : Fin 64, standardAlphabet.getD v.1 0 = character 43 47 v.1 := by
    decide +kernel
  have hv : i.toNat < 64 := by simpa [UInt8.lt_iff_toNat_lt] using hi
  have halphabet : code.alphabet = standardAlphabet := by
    cases code with
    | urlSafe => exact absurd rfl hcode
    | _ => rfl
  rw [Encode.charAt, halphabet]
  exact hall ⟨i.toNat, hv⟩

theorem charAt_urlSafe {i : UInt8} (hi : i < 64) :
    Encode.urlSafe.charAt i = character 45 95 i.toNat := by
  have hall : ∀ v : Fin 64, urlSafeAlphabet.getD v.1 0 = character 45 95 v.1 := by
    decide +kernel
  have hv : i.toNat < 64 := by simpa [UInt8.lt_iff_toNat_lt] using hi
  exact hall ⟨i.toNat, hv⟩

private theorem range_bits (x : UInt8) :
    bits 6 x.toNat = [x.toBitVec.getLsbD 5, x.toBitVec.getLsbD 4, x.toBitVec.getLsbD 3,
      x.toBitVec.getLsbD 2, x.toBitVec.getLsbD 1, x.toBitVec.getLsbD 0] := rfl

private theorem range_byte (x : UInt8) :
    bits 8 x.toNat = [x.toBitVec.getLsbD 7, x.toBitVec.getLsbD 6] ++ bits 6 x.toNat := rfl

theorem bitString_three (a b c : UInt8) :
    bitString [a, b, c] = ((sextets3 a b c).map UInt8.toNat).flatMap (bits 6) := by
  simp only [bitString, sextets3, List.flatMap_cons, List.flatMap_nil, List.map_cons,
    List.map_nil, range_byte, range_bits]
  simp

private theorem bitString_two (a b : UInt8) :
    bitString [a, b] ++ List.replicate 2 false =
      ((sextets2 a b).map UInt8.toNat).flatMap (bits 6) := by
  simp only [bitString, sextets2, List.flatMap_cons, List.flatMap_nil, List.map_cons,
    List.map_nil, range_byte, range_bits]
  simp

private theorem bitString_one (a : UInt8) :
    bitString [a] ++ List.replicate 4 false =
      ((sextets1 a).map UInt8.toNat).flatMap (bits 6) := by
  simp only [bitString, sextets1, List.flatMap_cons, List.flatMap_nil, List.map_cons,
    List.map_nil, range_byte, range_bits]
  simp

/-- The groups of six bits are those that the encoder cuts out of the bytes. -/
theorem groups_bitString (data : Bytes) :
    groups 6 (bitString data) = (sextets data).map UInt8.toNat := by
  have hbits : ∀ is : Bytes, (∀ i ∈ is, i < 64) →
      groups 6 ((is.map UInt8.toNat).flatMap (bits 6)) = is.map UInt8.toNat := by
    intro is his
    rw [groups_bits (by omega), List.map_map]
    apply List.map_congr_left
    intro i hi
    have hlt : i.toNat < 64 := by simpa [UInt8.lt_iff_toNat_lt] using his i hi
    exact Nat.mod_eq_of_lt hlt
  fun_induction sextets data with
  | case1 a b c rest ih =>
      have hlen : (bitString [a, b, c]).length = 6 * 4 := bitString_length [a, b, c]
      have hcons : a :: b :: c :: rest = [a, b, c] ++ rest := rfl
      rw [hcons, bitString_append, groups_append (by omega) hlen, ih, bitString_three,
        hbits _ (sextets3_lt a b c), List.map_append]
  | case2 a b =>
      have hfill : groups 6 (bitString [a, b] ++ List.replicate 2 false) =
          groups 6 (bitString [a, b]) := groups_fill (by simp)
      rw [← hfill, bitString_two, hbits _ (sextets2_lt a b)]
  | case3 a =>
      have hfill : groups 6 (bitString [a] ++ List.replicate 4 false) =
          groups 6 (bitString [a]) := groups_fill (by simp)
      rw [← hfill, bitString_one, hbits _ (sextets1_lt a)]
  | case4 => exact groups_nil (by omega)

/-- Without line breaks the encoder writes the characters of the groups and the
padding. -/
theorem encodeFrom_plain {code : Encode} (hcode : code ≠ .mime) (j : Nat) (data : Bytes) :
    encodeFrom code j data =
      (sextets data).map code.charAt ++ List.replicate ((3 - data.length % 3) % 3) 61 := by
  fun_induction encodeFrom code j data with
  | case1 j a b c rest ihBreak ihLine ihPlain =>
      have hlen : (a :: b :: c :: rest).length % 3 = rest.length % 3 := by
        simp only [List.length_cons]
        omega
      rw [if_neg hcode, ihPlain, sextets, List.map_append, List.append_assoc, hlen]
  | case2 j a b => rfl
  | case3 j a => rfl
  | case4 => rfl

theorem encode_standard {code : Encode} (hcode : code ≠ .mime) {c62 c63 : UInt8}
    (hchar : ∀ i : UInt8, i < 64 → code.charAt i = character c62 c63 i.toNat) (data : Bytes) :
    base64Encode data code = standardEncode c62 c63 data := by
  rw [base64Encode, encodeFrom_plain hcode, standardEncode, groups_bitString, List.map_map]
  congr 1
  apply List.map_congr_left
  intro i hi
  exact hchar i (sextets_lt data i hi)

theorem standardEncode_length (c62 c63 : UInt8) (data : Bytes) :
    (standardEncode c62 c63 data).length = 4 * ((data.length + 2) / 3) := by
  rw [standardEncode, List.length_append, List.length_map, List.length_replicate, groups_length,
    bitString_length]
  omega

theorem encode_eq_standard (data : Bytes) : encode data = standardEncode 43 47 data :=
  encode_standard (by decide) (fun _ hi => charAt_standard (by decide) hi) data

theorem encode_length (data : Bytes) : (encode data).length = 4 * ((data.length + 2) / 3) := by
  rw [encode_eq_standard, standardEncode_length]

private theorem withoutBreaks_cons {c : UInt8} (hc : c ≠ CR) (text : Bytes) :
    withoutBreaks (c :: text) = c :: withoutBreaks text := by
  cases text with
  | nil => rfl
  | cons d text =>
      have hmark : ¬ (c = CR ∧ d = LF) := fun h => hc h.1
      have hsome : lines CR LF (d :: text) ≠ [] := lines_ne_nil _
      obtain ⟨line, more, hlines⟩ := List.exists_cons_of_ne_nil hsome
      rw [withoutBreaks, withoutBreaks, lines_symbol hmark hlines, hlines]
      rfl

theorem withoutBreaks_append {front : Bytes} (hfront : CR ∉ front) (text : Bytes) :
    withoutBreaks (front ++ text) = front ++ withoutBreaks text := by
  induction front with
  | nil => rfl
  | cons c front ih =>
      rw [List.mem_cons, not_or] at hfront
      rw [List.cons_append, withoutBreaks_cons (Ne.symm hfront.1), ih hfront.2]
      rfl

theorem withoutBreaks_CRLF (text : Bytes) : withoutBreaks (CRLF ++ text) = withoutBreaks text := by
  have hlines : lines CR LF (CRLF ++ text) = [] :: lines CR LF text := lines_mark text
  rw [withoutBreaks, hlines]
  rfl

private theorem CR_notMem_alphabet (code : Encode) : CR ∉ code.alphabet := by
  cases code <;> decide

private theorem CR_notMem_chars (code : Encode) {is : Bytes} (his : ∀ i ∈ is, i < 64) :
    CR ∉ is.map code.charAt := by
  intro hmem
  obtain ⟨i, hi, heq⟩ := List.mem_map.mp hmem
  exact CR_notMem_alphabet code (heq ▸ charAt_mem code (his i hi))

private theorem withoutBreaks_encodeFrom (j k : Nat) (data : Bytes) :
    withoutBreaks (encodeFrom .mime j data) = encodeFrom .standard k data := by
  have hplain : ∀ {is pad : Bytes}, (∀ i ∈ is, i < 64) → CR ∉ pad →
      withoutBreaks (is.map Encode.mime.charAt ++ pad) = is.map Encode.standard.charAt ++ pad := by
    intro is pad his hpad
    have hnone : withoutBreaks pad = pad := by
      have happend := withoutBreaks_append hpad []
      rw [List.append_nil] at happend
      exact happend.trans (List.append_nil pad)
    rw [withoutBreaks_append (CR_notMem_chars .mime his), hnone]
    rfl
  induction data using sextets.induct generalizing j with
  | case1 a b c rest ih =>
      have hgroup : encodeFrom .standard k (a :: b :: c :: rest) =
          (sextets3 a b c).map Encode.standard.charAt ++ encodeFrom .standard k rest := by
        rw [encodeFrom, if_neg Encode.noConfusion]
      rw [hgroup, encodeFrom, if_pos rfl,
        withoutBreaks_append (CR_notMem_chars .mime (sextets3_lt a b c))]
      split
      · rw [withoutBreaks_CRLF, ih]
        rfl
      · rw [ih]
        rfl
  | case2 a b => exact hplain (sextets2_lt a b) (by decide)
  | case3 a => exact hplain (sextets1_lt a) (by decide)
  | case4 => rfl

/-- Both encoders compute the standard encoding over their alphabet, and the
MIME encoder only adds line breaks. -/
theorem encoders_standard (data : Bytes) :
    encode data = standardEncode 43 47 data ∧ urlsafeEncode data = standardEncode 45 95 data ∧
      (encode data).length = 4 * ((data.length + 2) / 3) ∧
      (urlsafeEncode data).length = 4 * ((data.length + 2) / 3) ∧
      withoutBreaks (mimeEncode data) = encode data := by
  have hurl : urlsafeEncode data = standardEncode 45 95 data :=
    encode_standard (by decide) (fun _ hi => charAt_urlSafe hi) data
  have hurlLength := standardEncode_length 45 95 data
  rw [← hurl] at hurlLength
  exact ⟨encode_eq_standard data, hurl, encode_length data, hurlLength,
    withoutBreaks_encodeFrom 0 0 data⟩

example : standardEncode 43 47 (ascii "ABC") = ascii "QUJD" := by decide

end Angel.Base64
