import Angel.Http.Chunked
import Angel.Http.Leftover

/-!
The grammar of the size line in front of a chunk, and the lines that
`from_hex_str` takes for a size. `strtoll` skips blanks and takes a sign and a
`0x` in front of the digits, reads nothing as zero and saturates; a
chunk-extension behind the digits is not taken at all.
-/

namespace Angel.Http

open Util Buffer Lib

/-- A size in front of its chunk-extension. -/
structure Extended (line : Bytes) (size : Nat) : Prop where
  shape : ∃ digits ext, IsHex digits ∧ line = digits ++ 59 :: ext ∧ ofDigits 16 digits = size
  fits : size < 2 ^ 63

/-- `chunk-size [ chunk-extension ]` with a size that `ssize_t` holds. -/
inductive SizeLine (line : Bytes) (size : Nat) : Prop where
  | plain (hhex : IsHex line) (hvalue : ofDigits 16 line = size) (hfits : size < 2 ^ 63)
  | extended (h : Extended line size)

/-- A line that is taken for a size against the grammar: an empty one, and a
number that is no negative one, with something in front of its digits or too
large. -/
inductive LooseLine (line : Bytes) : Prop where
  | empty (h : line = [])
  | number (n : HexNumber) (htext : n.text = line) (hsign : n.sign = [45] → n.magnitude = 0)
      (hloose : n.digits ≠ line ∨ 2 ^ 63 ≤ n.magnitude)

section Line

variable {line : Bytes}

theorem IsHex.fromHexStr (h : IsHex line) (hfits : ofDigits 16 line < 2 ^ 63) :
    fromHexStr line = (ofDigits 16 line : Int) :=
  fromHexStr_digits h.nonempty h.all (by unfold maxSize; omega)

theorem Extended.semicolon {size : Nat} (h : Extended line size) : 59 ∈ line := by
  obtain ⟨digits, ext, -, rfl, -⟩ := h.shape
  simp

theorem Extended.fromHexStr {size : Nat} (h : Extended line size) : fromHexStr line = -1 := by
  by_contra hread
  have hmem := h.semicolon
  rcases fromHexStr_inv hread with rfl | ⟨n, rfl⟩
  · exact List.not_mem_nil hmem
  · exact n.semicolon_not_mem hmem

theorem SizeLine.cons {size : Nat} (h : SizeLine line size) :
    ∃ c rest, line = c :: rest ∧ ishex c = true := by
  cases h with
  | plain hhex =>
      obtain ⟨c, rest, rfl⟩ := List.exists_cons_of_ne_nil hhex.nonempty
      exact ⟨c, rest, rfl, hhex.mem c List.mem_cons_self⟩
  | extended h =>
      obtain ⟨digits, ext, hhex, rfl, -⟩ := h.shape
      obtain ⟨c, rest, rfl⟩ := List.exists_cons_of_ne_nil hhex.nonempty
      exact ⟨c, rest ++ 59 :: ext, rfl, hhex.mem c List.mem_cons_self⟩

theorem HexNumber.text_digits {n : HexNumber} (h : IsHex n.text) : n.digits = n.text := by
  have hmem : ∀ c, c ∈ n.blanks ∨ c ∈ n.sign ∨ c ∈ n.pre ∨ c ∈ n.digits → ishex c = true := by
    intro c hc
    apply h.mem c
    simpa [HexNumber.text] using hc
  have hblanks : n.blanks = [] := by
    apply List.eq_nil_iff_forall_not_mem.mpr
    intro c hc
    have hspace := List.all_eq_true.mp n.blanksSpace c hc
    rw [ishex_not_isspace (hmem c (Or.inl hc))] at hspace
    cases hspace
  have hsign : n.sign = [] := by
    rcases n.signKnown with hsign | hsign | hsign
    · exact hsign
    · exact absurd (hmem 43 (Or.inr (Or.inl (by simp [hsign])))) (by decide)
    · exact absurd (hmem 45 (Or.inr (Or.inl (by simp [hsign])))) (by decide)
  have hpre : n.pre = [] := by
    rcases n.preKnown with hpre | hpre | hpre
    · exact hpre
    · exact absurd (hmem 120 (Or.inr (Or.inr (Or.inl (by simp [hpre]))))) (by decide)
    · exact absurd (hmem 88 (Or.inr (Or.inr (Or.inl (by simp [hpre]))))) (by decide)
  rw [HexNumber.text, hblanks, hsign, hpre]
  rfl

theorem HexNumber.sizeLine {n : HexNumber} {size : Nat} (h : SizeLine n.text size) :
    n.digits = n.text ∧ n.magnitude < 2 ^ 63 := by
  cases h with
  | extended h => exact absurd h.semicolon n.semicolon_not_mem
  | plain hhex hvalue hfits =>
      have hdigits : n.digits = n.text := HexNumber.text_digits hhex
      refine ⟨hdigits, ?_⟩
      rw [HexNumber.magnitude, hdigits, hvalue]
      exact hfits

theorem LooseLine.not_sizeLine (h : LooseLine line) (size : Nat) : ¬ SizeLine line size := by
  intro hline
  cases h with
  | empty h =>
      obtain ⟨c, rest, hcons, -⟩ := hline.cons
      exact absurd (hcons.symm.trans h) (List.cons_ne_nil c rest)
  | number n htext hsign hloose =>
      subst htext
      obtain ⟨hdigits, hfits⟩ := HexNumber.sizeLine hline
      rcases hloose with hloose | hloose
      · exact hloose hdigits
      · omega

theorem fromHexStr_nonneg (h : 0 ≤ fromHexStr line) :
    LooseLine line ∨ ∃ size, SizeLine line size := by
  have hread : fromHexStr line ≠ -1 := by omega
  rcases fromHexStr_inv hread with hnil | ⟨n, rfl⟩
  · exact Or.inl (.empty hnil)
  · rw [n.fromHexStr_text] at h
    by_cases hloose : n.digits ≠ n.text ∨ 2 ^ 63 ≤ n.magnitude
    · exact Or.inl (.number n rfl (n.magnitude_of_nonneg h) hloose)
    · rw [not_or, not_not, not_le] at hloose
      refine Or.inr ⟨n.magnitude, .plain ?_ ?_ hloose.2⟩
      · rw [← hloose.1]
        exact n.digitsHex
      · rw [← hloose.1]
        rfl

theorem LooseLine.fromHexStr (h : LooseLine line) : 0 ≤ fromHexStr line := by
  cases h with
  | empty h =>
      subst h
      decide
  | number n htext hsign hloose =>
      rw [← htext, n.fromHexStr_text]
      exact n.value_nonneg hsign

end Line

section Parse

variable (m : Message) (line rest : Bytes)

/-- The line is taken: behind it the parser has the size, in front of the data
or of the trailer. -/
def Message.Takes (size : Nat) : Prop :=
  m.parseBodyByChunked (line ++ CRLF ++ rest) =
    { m with chunkSize := size }.parseBodyByChunked rest

/-- The line is refused: `BadRequest` with the line consumed and nothing done
but to `chunkSize`, which is negative. -/
def Message.Refuses : Prop :=
  ∃ size : Int, size < 0 ∧ m.parseBodyByChunked (line ++ CRLF ++ rest) =
    some ({ m with chunkSize := size }, rest, .badRequest)

/-- The lines of the grammar are taken with their value, all others refused. -/
structure Message.FollowsGrammar : Prop where
  takes : ∀ size, SizeLine line size → m.Takes line rest size
  refuses : (∀ size, ¬ SizeLine line size) → m.Refuses line rest

variable {m line rest}

theorem refuses_of_negative (hsize : m.chunkSize = -1) (hline : ¬ CRLF <:+: line)
    (hrest : 2 ≤ rest.length) (h : fromHexStr line < 0) : m.Refuses line rest := by
  refine ⟨fromHexStr line, h, ?_⟩
  apply parseBodyByChunked_done
  rw [chunkPass_line hsize hline hrest, if_pos h]

theorem takes_of_nonneg (hsize : m.chunkSize = -1) (hline : ¬ CRLF <:+: line)
    (hrest : 2 ≤ rest.length) {size : Nat} (h : fromHexStr line = size) :
    m.Takes line rest size := by
  have hpass := chunkPass_line hsize hline hrest
  rw [if_neg (by omega), h] at hpass
  rcases Nat.eq_zero_or_pos size with rfl | hpos
  · exact parseBodyByChunked_again hpass
  · rw [if_neg (by omega)] at hpass
    apply parseBodyByChunked_congr
    have hne : rest ≠ [] := List.length_pos_iff.mp (by omega)
    rw [hpass, chunkPass_atData hne]
    · change (size : Int) ≠ -1
      omega
    · change (size : Int) ≠ 0
      omega

/-- Behind a taken line the parser ends with bytes of the data taken, or in the
trailer. -/
theorem parseBodyByChunked_sized {size : Nat} (hfits : size < 2 ^ 63) (hrest : 2 ≤ rest.length)
    {m' : Message} {left : Bytes}
    (h : { m with chunkSize := size }.parseBodyByChunked rest = some (m', left, .badRequest)) :
    left.length < rest.length ∨ m'.chunkSize = 0 := by
  have hne : rest ≠ [] := List.length_pos_iff.mp (by omega)
  rcases Nat.eq_zero_or_pos size with rfl | hpos
  · right
    have hpass := chunkPass_atTrailer (m := { m with chunkSize := (0 : Nat) }) hne rfl
    cases htrailer : chunkTrailer { m with chunkSize := (0 : Nat) } rest with
    | again s => exact absurd htrailer chunkTrailer_again
    | done r =>
        rw [parseBodyByChunked_done (hpass.trans htrailer)] at h
        subst h
        rw [chunkTrailer_refused htrailer]
        rfl
  · left
    have hpass := chunkPass_atData (m := { m with chunkSize := (size : Int) }) hne
      (show (size : Int) ≠ -1 by omega) (show (size : Int) ≠ 0 by omega)
    cases hdata : chunkData { m with chunkSize := size } rest with
    | again s =>
        rw [parseBodyByChunked_again (hpass.trans hdata)] at h
        have hleft := parseBodyByChunked_length h
        have hagain := chunkData_again_length hdata
        omega
    | done r =>
        rw [parseBodyByChunked_done (hpass.trans hdata)] at h
        subst h
        obtain ⟨rfl, hlen⟩ := chunkData_refused hdata
        have hsize : toSizeT (size : Int) = size := toSizeT_natCast (by unfold maxSize; omega)
        change toSizeT (size : Int) < rest.length at hlen
        change (rest.drop (toSizeT (size : Int))).length < rest.length
        rw [List.length_drop, hsize]
        omega

theorem Message.Takes.not_refuses {size : Nat} (hfits : size < 2 ^ 63) (hrest : 2 ≤ rest.length)
    (h : m.Takes line rest size) : ¬ m.Refuses line rest := by
  rintro ⟨negative, hnegative, hrefused⟩
  rw [h] at hrefused
  rcases parseBodyByChunked_sized hfits hrest hrefused with hleft | hzero
  · exact absurd hleft (Nat.lt_irrefl _)
  · change negative = 0 at hzero
    omega

section

variable (hsize : m.chunkSize = -1) (hline : ¬ CRLF <:+: line) (hrest : 2 ≤ rest.length)

include hsize hline hrest

theorem Extended.breaks {size : Nat} (h : Extended line size) : ¬ m.FollowsGrammar line rest := by
  intro hgrammar
  have htakes := hgrammar.takes size (.extended h)
  have hread := h.fromHexStr
  exact htakes.not_refuses h.fits hrest (refuses_of_negative hsize hline hrest (by omega))

theorem LooseLine.breaks (h : LooseLine line) : ¬ m.FollowsGrammar line rest := by
  intro hgrammar
  obtain ⟨size, hread⟩ := Int.eq_ofNat_of_zero_le h.fromHexStr
  have hfits := fromHexStr_lt line
  have htakes : m.Takes line rest size := takes_of_nonneg hsize hline hrest hread
  exact htakes.not_refuses (by omega) hrest (hgrammar.refuses h.not_sizeLine)

/-- The parser keeps to the grammar on a size line if and only if the line has
no chunk-extension and is none that `strtoll` takes besides. -/
theorem size_line_grammar_iff :
    m.FollowsGrammar line rest ↔ (∀ size, ¬ Extended line size) ∧ ¬ LooseLine line := by
  constructor
  · intro h
    exact ⟨fun size hext => hext.breaks hsize hline hrest h,
      fun hloose => hloose.breaks hsize hline hrest h⟩
  · rintro ⟨hplain, hstrict⟩
    constructor
    · intro size h
      cases h with
      | plain hhex hvalue hfits =>
          apply takes_of_nonneg hsize hline hrest
          rw [hhex.fromHexStr (hvalue ▸ hfits), hvalue]
      | extended h => exact absurd h (hplain size)
    · intro hnone
      apply refuses_of_negative hsize hline hrest
      by_contra hread
      rcases fromHexStr_nonneg (not_lt.mp hread) with hloose | ⟨size, h⟩
      · exact hstrict hloose
      · exact hnone size h

end

end Parse

theorem size_line_taken :
    (Message.awaitingChunks [] 0).FollowsGrammar (ascii "1a") (ascii "ab") := by
  apply (size_line_grammar_iff rfl (by decide) (by decide)).mpr
  constructor
  · intro size hext
    exact absurd hext.semicolon (by decide)
  · intro hloose
    exact hloose.not_sizeLine 26 (.plain ⟨by decide, by decide⟩ (by decide) (by decide))

/-- A chunk-extension is refused; an empty line and a signed size are taken. -/
theorem size_lines_off_grammar :
    ¬ (Message.awaitingChunks [] 0).FollowsGrammar (ascii "5;a") (ascii "ab") ∧
    ¬ (Message.awaitingChunks [] 0).FollowsGrammar [] (ascii "ab") ∧
    ¬ (Message.awaitingChunks [] 0).FollowsGrammar (ascii "+5") (ascii "ab") := by
  refine ⟨?_, ?_, ?_⟩
  · have hext : Extended (ascii "5;a") 5 :=
      ⟨⟨ascii "5", ascii "a", ⟨by decide, by decide⟩, by decide, by decide⟩, by decide⟩
    exact hext.breaks rfl (by decide) (by decide)
  · exact LooseLine.breaks rfl (by decide) (by decide) (.empty rfl)
  · apply LooseLine.breaks rfl (by decide) (by decide)
    let n : HexNumber := ⟨[], [43], [], [53], rfl, Or.inr (Or.inl rfl), Or.inl rfl,
      ⟨by decide, by decide⟩⟩
    exact .number n rfl (by decide) (Or.inl (by decide))

end Angel.Http
