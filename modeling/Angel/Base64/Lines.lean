import Angel.Base64.Standard

/-!
The lines of the MIME form. A line is broken behind its nineteenth group, which
57 bytes fill; what is left of the data is a line without a break.
-/

namespace Angel.Base64

open Angel.Lib.Lines

def IsBase64Char (c : UInt8) : Prop := c ∈ standardAlphabet ∨ c = 61

/-- A text in lines that each end with CRLF, all of them full but the last. -/
def MimeText (text : Bytes) : Prop :=
  ∃ front last, text = unlines CR LF (front ++ [last]) ∧
    (∀ line ∈ front, line.length = maxLineLimit) ∧
    4 ≤ last.length ∧ last.length ≤ maxLineLimit ∧
    ∀ line ∈ front ++ [last], ∀ c ∈ line, IsBase64Char c

theorem unlines_append (front rest : List Bytes) :
    unlines CR LF (front ++ rest) = unlines CR LF front ++ unlines CR LF rest := by
  simp [unlines]

theorem encode_chars (data : Bytes) : ∀ c ∈ encode data, IsBase64Char c := by
  rw [encode, base64Encode, encodeFrom_plain Encode.noConfusion]
  intro c hc
  rcases List.mem_append.mp hc with hc | hc
  · obtain ⟨i, hi, rfl⟩ := List.mem_map.mp hc
    exact .inl (charAt_mem .standard (sextets_lt data i hi))
  · exact .inr (List.eq_of_mem_replicate hc)

theorem encode_group (a b c : UInt8) (rest : Bytes) :
    encode (a :: b :: c :: rest) = (sextets3 a b c).map Encode.mime.charAt ++ encode rest := by
  rw [encode, base64Encode, encodeFrom, if_neg Encode.noConfusion]
  rfl

private theorem encodeFrom_mime_tail (j : Nat) (data : Bytes)
    (h : j + 4 * (data.length / 3) < maxLineLimit) :
    encodeFrom .mime j data = encode data := by
  induction data using sextets.induct generalizing j with
  | case1 a b c rest ih =>
      have hlen : (a :: b :: c :: rest).length / 3 = rest.length / 3 + 1 := by
        simp only [List.length_cons]
        omega
      rw [hlen] at h
      rw [encodeFrom, if_pos rfl, if_neg (by omega), ih (j + 4) (by omega), encode_group]
  | case2 a b => rfl
  | case3 a => rfl
  | case4 => rfl

private theorem encodeFrom_mime_line (j k : Nat) (front rest : Bytes)
    (hfront : front.length = 3 * (k + 1))
    (h : j + 4 * (k + 1) = maxLineLimit) :
    encodeFrom .mime j (front ++ rest) = encode front ++ CRLF ++ encodeFrom .mime 0 rest := by
  induction front using sextets.induct generalizing j k with
  | case1 a b c front ih =>
      simp only [List.length_cons] at hfront
      rw [List.cons_append, List.cons_append, List.cons_append, encodeFrom, if_pos rfl, encode_group]
      cases k with
      | zero =>
          have hnil : front = [] := List.length_eq_zero_iff.mp (by omega)
          subst hnil
          rw [if_pos (by omega), List.append_assoc, List.append_assoc]
          rfl
      | succ k =>
          rw [if_neg (by omega), ih (j + 4) k (by omega) (by omega)]
          simp only [List.append_assoc]
  | case2 a b =>
      simp only [List.length_cons, List.length_nil] at hfront
      omega
  | case3 a =>
      simp only [List.length_cons, List.length_nil] at hfront
      omega
  | case4 =>
      rw [List.length_nil] at hfront
      omega

/-- Each piece of 57 bytes is a line with its break; the rest is encoded as it
stands. -/
theorem mimeEncode_lines (data : Bytes) :
    ∃ (full : List Bytes) (tail : Bytes), data = full.flatten ++ tail ∧
      (∀ p ∈ full, p.length = 57) ∧ tail.length < 57 ∧
      mimeEncode data = unlines CR LF (full.map encode) ++ encode tail := by
  induction hn : data.length using Nat.strong_induction_on generalizing data with
  | _ n ih =>
      by_cases hshort : data.length < 57
      · have hlimit : 0 + 4 * (data.length / 3) < maxLineLimit := by
          have : maxLineLimit = 76 := rfl
          omega
        exact ⟨[], data, rfl, by simp, hshort, encodeFrom_mime_tail 0 data hlimit⟩
      · obtain ⟨full, tail, hrest, hfull, htail, hmime⟩ :=
          ih (data.drop 57).length (by rw [List.length_drop]; omega) (data.drop 57) rfl
        have hpiece : (data.take 57).length = 57 := by
          rw [List.length_take]
          omega
        have hline := encodeFrom_mime_line 0 18 (data.take 57) (data.drop 57) hpiece rfl
        rw [List.take_append_drop] at hline
        refine ⟨data.take 57 :: full, tail, ?_, ?_, htail, ?_⟩
        · rw [List.flatten_cons, List.append_assoc, ← hrest, List.take_append_drop]
        · intro p hp
          rcases List.mem_cons.mp hp with rfl | hp
          · exact hpiece
          · exact hfull p hp
        · rw [List.map_cons, unlines_cons, mimeEncode, base64Encode, hline]
          rw [mimeEncode, base64Encode] at hmime
          rw [hmime]
          simp [CRLF]

private theorem flatten_length {k : Nat} {pieces : List Bytes} (h : ∀ p ∈ pieces, p.length = k) :
    pieces.flatten.length = k * pieces.length := by
  induction pieces with
  | nil => rfl
  | cons p pieces ih =>
      rw [List.flatten_cons, List.length_append, h p List.mem_cons_self,
        ih fun q hq => h q (List.mem_cons_of_mem p hq), List.length_cons, Nat.mul_succ, Nat.add_comm]

theorem MimeText.ends {text : Bytes} (h : MimeText text) : text.getLast? = some LF := by
  obtain ⟨front, last, rfl, _⟩ := h
  rw [unlines_append]
  simp [unlines]

/-- The output has the structure of a MIME text exactly when the data fill the
last line: only a full line is given its line break. -/
theorem mimeText_iff (data : Bytes) (hdata : data ≠ []) :
    MimeText (mimeEncode data) ↔ data.length % 57 = 0 := by
  obtain ⟨full, tail, hpieces, hfull, htail, hmime⟩ := mimeEncode_lines data
  have hlength : data.length = 57 * full.length + tail.length := by
    rw [hpieces, List.length_append, flatten_length hfull]
  rw [hmime]
  constructor
  · intro htext
    by_contra hrest
    have hne : encode tail ≠ [] := by
      intro hnil
      have hlen := encode_length tail
      rw [hnil, List.length_nil] at hlen
      omega
    have hlast := htext.ends
    rw [List.getLast?_append_of_ne_nil _ hne] at hlast
    have hchar := encode_chars tail LF (List.mem_of_getLast? hlast)
    rcases hchar with hchar | hchar
    · exact absurd hchar (by decide)
    · exact absurd hchar (by decide)
  · intro hmod
    have hnil : tail = [] := List.length_eq_zero_iff.mp (by omega)
    subst hnil
    have hsome : full ≠ [] := by
      rintro rfl
      exact hdata hpieces
    obtain ⟨front, last, rfl⟩ : ∃ front last, full = front ++ [last] :=
      ⟨_, _, (List.dropLast_append_getLast hsome).symm⟩
    have hline : ∀ p ∈ front ++ [last], (encode p).length = maxLineLimit := by
      intro p hp
      rw [encode_length, hfull p hp]
      rfl
    have hlast := hline last (by simp)
    refine ⟨front.map encode, encode last, ?_, ?_, ?_, ?_, ?_⟩
    · rw [List.map_append]
      exact List.append_nil _
    · intro line hmem
      obtain ⟨p, hp, rfl⟩ := List.mem_map.mp hmem
      exact hline p (List.mem_append_left _ hp)
    · rw [hlast]
      decide
    · exact Nat.le_of_eq hlast
    · intro line hmem
      have hmap : line ∈ (front ++ [last]).map encode := by
        rw [List.map_append]
        exact hmem
      obtain ⟨p, _, rfl⟩ := List.mem_map.mp hmap
      exact encode_chars p

theorem mimeText_of_full_line : MimeText (mimeEncode (List.replicate 57 0)) :=
  (mimeText_iff (List.replicate 57 0) (List.cons_ne_nil _ _)).mpr rfl

/-- One byte is encoded as a line without its line break. -/
theorem mimeText_fails : ¬ ∀ data : Bytes, data ≠ [] → MimeText (mimeEncode data) := by
  intro h
  have hlast := (h [0] (List.cons_ne_nil _ _)).ends
  exact absurd hlast (by decide)

end Angel.Base64
