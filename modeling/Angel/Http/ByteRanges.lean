import Angel.Http.Entity
import Mathlib.Data.List.Forall2

/-!
What the specs of a `Range` header mean, and that `parse_byte_ranges` stores the
ranges they mean, all of them inside the file.
-/

namespace Angel.Http

open Util

/-- The kinds of a byte-range-spec: `a-b`, `a-` and `-n`. -/
inductive RangeSpec where
  | between (a b : Nat)
  | onwards (a : Nat)
  | suffix (n : Nat)
  deriving DecidableEq, Repr

namespace RangeSpec

/-- The spec selects something of a file of that size. -/
def Satisfiable (filesize : Nat) : RangeSpec → Prop
  | between a b => a < filesize ∧ a ≤ b
  | onwards a => a < filesize
  | suffix n => 0 < n

/-- The numbers fit an `off_t`. -/
def Fits : RangeSpec → Prop
  | between a b => a ≤ maxSize ∧ b ≤ maxSize
  | onwards a => a ≤ maxSize
  | suffix n => n ≤ maxSize

def range (filesize : Nat) : RangeSpec → ByteRange
  | between a b => ⟨a, min b (filesize - 1)⟩
  | onwards a => ⟨a, filesize - 1⟩
  | suffix n => ⟨filesize - min n filesize, filesize - 1⟩

end RangeSpec

/-- Decimal digits and the number they are. -/
structure IsNumber (text : Bytes) (n : Nat) : Prop where
  nonempty : text ≠ []
  digits : text.all isdigit = true
  value : ofDigits 10 text = n

def Blank (text : Bytes) : Prop := ∀ c ∈ text, isspace c = true

/-- What a spec means. Blanks around it are ignored, and so are those around a
`-` that has a number in front of it. -/
inductive Denotes (spec : Bytes) : RangeSpec → Prop
  | between (left front back right : Bytes) {a b : Nat} : IsNumber left a → Blank front →
      Blank back → IsNumber right b → trim spec = left ++ front ++ MINUS :: (back ++ right) →
      Denotes spec (.between a b)
  | onwards (left front : Bytes) {a : Nat} : IsNumber left a → Blank front →
      trim spec = left ++ front ++ [MINUS] → Denotes spec (.onwards a)
  | suffix (right : Bytes) {n : Nat} : IsNumber right n → trim spec = MINUS :: right →
      Denotes spec (.suffix n)

/-- The same with no blank in front of the `-` of `a-`. -/
def DenotesTight (spec : Bytes) (r : RangeSpec) : Prop :=
  Denotes spec r ∧ ∀ a, r = .onwards a → ∃ left, IsNumber left a ∧ trim spec = left ++ [MINUS]

section

variable {spec left right front back : Bytes} {a b n : Nat}

theorem IsNumber.not_space (h : IsNumber left a) : ∀ c ∈ left, isspace c = false :=
  fun c hc => isspace_of_isdigit (List.all_eq_true.mp h.digits c hc)

theorem IsNumber.no_minus (h : IsNumber left a) : MINUS ∉ left := by
  intro hmem
  exact absurd (List.all_eq_true.mp h.digits _ hmem) (by decide)

theorem Blank.no_minus (h : Blank front) : MINUS ∉ front := by
  intro hmem
  exact absurd (h _ hmem) (by decide)

theorem IsNumber.trim_front (h : IsNumber left a) (hfront : Blank front) :
    trim (left ++ front) = left := by
  rw [trim_eq, Lib.trimmed_back hfront]
  exact Lib.trimmed_of_forall h.not_space

theorem IsNumber.trim_back (h : IsNumber right b) (hback : Blank back) :
    trim (back ++ right) = right := by
  rw [trim_eq, Lib.trimmed_front hback]
  exact Lib.trimmed_of_forall h.not_space

theorem head_ne_minus {s : Bytes} (h : MINUS ∉ s) : s.getD 0 0 ≠ 45 := by
  cases s with
  | nil => decide
  | cons c rest =>
      intro heq
      have hc : c = MINUS := heq
      exact h (hc ▸ List.mem_cons_self)

theorem IsNumber.bytePos_eq (h : IsNumber left a) :
    bytePos left = if a ≤ maxSize then (a : Int) else -1 := by
  rw [bytePos]
  split
  next hle =>
    have hvalue : ofDigits 10 left ≤ maxSize := h.value.trans_le hle
    rw [svtoll_digits h.nonempty h.digits hvalue, h.value]
    rfl
  next hgt =>
    cases hparse : svtoll left with
    | none => rfl
    | some v =>
        obtain ⟨_, _, _, hle⟩ := svtointegral_inv hparse (.inr (head_ne_minus h.no_minus))
        rw [h.value] at hle
        exact absurd hle hgt

theorem isNumber_of_bytePos {s : Bytes} (h : ¬ bytePos s < 0) (hfree : MINUS ∉ s) :
    ∃ a : Nat, IsNumber s a ∧ bytePos s = a := by
  rw [bytePos] at h ⊢
  cases hparse : svtoll s with
  | none =>
      rw [hparse] at h
      exact absurd (by decide) h
  | some v =>
      obtain ⟨hne, hdigits, hvalue, _⟩ := svtointegral_inv hparse (.inr (head_ne_minus hfree))
      exact ⟨ofDigits 10 s, ⟨hne, hdigits, rfl⟩, hvalue⟩

variable (filesize : Nat)

theorem parseRange_number {s : Bytes} (hspec : trim spec = s) (hlen : 2 ≤ s.length)
    (hhead : s.getD 0 0 ≠ MINUS) : parseRange filesize spec = parseByteRangeSpec filesize s := by
  rw [parseRange, hspec]
  split
  · exact absurd rfl hhead
  · rfl
  next hnone =>
    rcases s with _ | ⟨a, _ | ⟨b, rest⟩⟩
    · exact absurd hlen (by simp)
    · exact absurd hlen (by simp)
    · exact absurd rfl (hnone a b rest)

theorem parseRange_suffix {c : UInt8} {rest : Bytes} (hspec : trim spec = MINUS :: c :: rest) :
    parseRange filesize spec =
      if isdigit c then parseSuffixByteRangeSpec filesize (c :: rest) else none := by
  rw [parseRange, hspec]
  rfl

theorem parseByteRangeSpec_pieces {first last : Bytes} (hfirst : MINUS ∉ first)
    (hlast : MINUS ∉ last) :
    parseByteRangeSpec filesize (first ++ MINUS :: last) =
      let firstPos := bytePos (trim first)
      if firstPos < 0 ∨ (filesize : Int) ≤ firstPos then none
      else if last = [] then some ⟨firstPos.toNat, filesize - 1⟩
      else
        let lastPos := bytePos (trim last)
        if lastPos < 0 ∨ lastPos < firstPos then none
        else if (filesize : Int) ≤ lastPos then some ⟨firstPos.toNat, filesize - 1⟩
        else some ⟨firstPos.toNat, lastPos.toNat⟩ := by
  have hsplit : split (first ++ MINUS :: last) MINUS = [first, last] := by
    have hpieces := split_pieces MINUS first [last] hfirst (by simpa using hlast)
    rwa [List.flatMap_singleton] at hpieces
  rw [parseByteRangeSpec, hsplit]

theorem IsNumber.head (h : IsNumber left a) (rest : Bytes) :
    (left ++ rest).getD 0 0 ≠ MINUS ∧ 1 ≤ left.length := by
  obtain ⟨c, tail, rfl⟩ := List.exists_cons_of_ne_nil h.nonempty
  refine ⟨?_, by simp⟩
  intro heq
  have hc : c = MINUS := heq
  exact h.no_minus (hc ▸ List.mem_cons_self)

theorem IsNumber.no_minus_front (h : IsNumber left a) (hfront : Blank front) :
    MINUS ∉ left ++ front := by
  intro hmem
  rcases List.mem_append.mp hmem with hleft | hblank
  · exact h.no_minus hleft
  · exact hfront.no_minus hblank

/-- The code answers with the range of the spec when its numbers fit and it is
satisfiable, and with none else. -/
structure ServedAs (filesize : Nat) (spec : Bytes) (r : RangeSpec) : Prop where
  some : r.Fits → r.Satisfiable filesize →
    parseRange filesize spec = Option.some (r.range filesize)
  none : ¬ (r.Fits ∧ r.Satisfiable filesize) → parseRange filesize spec = Option.none

theorem answers_between (hleft : IsNumber left a) (hfront : Blank front) (hback : Blank back)
    (hright : IsNumber right b) (hspec : trim spec = left ++ front ++ MINUS :: (back ++ right)) :
    ServedAs filesize spec (.between a b) := by
  have hfree : MINUS ∉ back ++ right := by
    intro hmem
    rcases List.mem_append.mp hmem with hblank | hnumber
    · exact hback.no_minus hblank
    · exact hright.no_minus hnumber
  have hne : back ++ right ≠ [] := fun hnil => hright.nonempty (List.append_eq_nil_iff.mp hnil).2
  obtain ⟨hhead, hlen⟩ := hleft.head (front ++ MINUS :: (back ++ right))
  rw [← List.append_assoc] at hhead
  have hparse := (parseRange_number filesize hspec
    (by simp only [List.length_append, List.length_cons]; omega) hhead).trans
      (parseByteRangeSpec_pieces filesize (hleft.no_minus_front hfront) hfree)
  simp only [hleft.trim_front hfront, hright.trim_back hback, hleft.bytePos_eq, hright.bytePos_eq,
    if_neg hne] at hparse
  constructor
  · rintro ⟨ha, hb⟩ ⟨hin, hab⟩
    rw [hparse, if_pos ha, if_pos hb, if_neg (by omega), if_neg (by omega), Int.toNat_natCast,
      Int.toNat_natCast]
    split
    · rw [RangeSpec.range, Nat.min_eq_right (by omega)]
    · rw [RangeSpec.range, Nat.min_eq_left (by omega)]
  · intro hnot
    simp only [RangeSpec.Fits, RangeSpec.Satisfiable] at hnot
    rw [hparse]
    rcases Nat.lt_or_ge maxSize a with ha | ha
    · rw [if_neg (Nat.not_le.mpr ha), if_pos (.inl (by decide))]
    rw [if_pos ha]
    rcases Nat.lt_or_ge a filesize with hin | hout
    · rw [if_neg (by omega)]
      rcases Nat.lt_or_ge maxSize b with hb | hb
      · rw [if_neg (Nat.not_le.mpr hb), if_pos (.inl (by decide))]
      · rw [if_pos hb, if_pos (by omega)]
    · rw [if_pos (by omega)]

theorem answers_onwards (hleft : IsNumber left a) (hfront : Blank front)
    (hspec : trim spec = left ++ front ++ [MINUS]) : ServedAs filesize spec (.onwards a) := by
  obtain ⟨hhead, hlen⟩ := hleft.head (front ++ [MINUS])
  rw [← List.append_assoc] at hhead
  have hparse := (parseRange_number filesize hspec
    (by simp only [List.length_append, List.length_cons]; omega) hhead).trans
      (parseByteRangeSpec_pieces filesize (hleft.no_minus_front hfront) List.not_mem_nil)
  simp only [hleft.trim_front hfront, hleft.bytePos_eq, if_true] at hparse
  constructor
  · intro ha hin
    simp only [RangeSpec.Fits, RangeSpec.Satisfiable] at ha hin
    rw [hparse, if_pos ha, if_neg (by omega), Int.toNat_natCast]
    rfl
  · intro hnot
    simp only [RangeSpec.Fits, RangeSpec.Satisfiable] at hnot
    rw [hparse]
    rcases Nat.lt_or_ge maxSize a with ha | ha
    · rw [if_neg (Nat.not_le.mpr ha), if_pos (.inl (by decide))]
    · rw [if_pos ha, if_pos (by omega)]

private theorem answers_suffix (hright : IsNumber right n) (hspec : trim spec = MINUS :: right) :
    ServedAs filesize spec (.suffix n) := by
  obtain ⟨c, rest, rfl⟩ := List.exists_cons_of_ne_nil hright.nonempty
  have hdigit : isdigit c = true := List.all_eq_true.mp hright.digits c List.mem_cons_self
  have hparse := parseRange_suffix filesize hspec
  rw [hdigit, if_pos rfl, parseSuffixByteRangeSpec] at hparse
  simp only [hright.bytePos_eq] at hparse
  constructor
  · intro hn hpos
    simp only [RangeSpec.Fits, RangeSpec.Satisfiable] at hn hpos
    rw [hparse, if_pos hn, if_neg (by omega), Int.toNat_natCast]
    rfl
  · intro hnot
    simp only [RangeSpec.Fits, RangeSpec.Satisfiable] at hnot
    rw [hparse]
    rcases Nat.lt_or_ge maxSize n with hn | hn
    · rw [if_neg (Nat.not_le.mpr hn), if_pos (by decide)]
    · rw [if_pos hn, if_pos (by omega)]

theorem Denotes.servedAs {r : RangeSpec} (h : Denotes spec r) : ServedAs filesize spec r := by
  cases h with
  | between left front back right hleft hfront hback hright hspec =>
      exact answers_between filesize hleft hfront hback hright hspec
  | onwards left front hleft hfront hspec => exact answers_onwards filesize hleft hfront hspec
  | suffix right hright hspec => exact answers_suffix filesize hright hspec

theorem parseByteRangeSpec_inv {s : Bytes} {range : ByteRange}
    (h : parseByteRangeSpec filesize s = some range) :
    ∃ first last, s = first ++ MINUS :: last ∧ MINUS ∉ first ∧ MINUS ∉ last := by
  rw [parseByteRangeSpec] at h
  by_cases hmem : MINUS ∈ s
  · obtain ⟨first, last, rfl, hfirst⟩ := List.eq_append_cons_of_mem hmem
    rw [split_separator hfirst] at h
    refine ⟨first, last, rfl, hfirst, ?_⟩
    intro hlast
    obtain ⟨second, third, rfl, hsecond⟩ := List.eq_append_cons_of_mem hlast
    rw [split_separator hsecond] at h
    obtain ⟨piece, pieces, hpieces⟩ := List.exists_cons_of_ne_nil (split_ne_nil third MINUS)
    rw [hpieces] at h
    cases h
  · rw [split_free hmem] at h
    cases h

theorem trim_front_decompose {first rest : Bytes} (hspec : trim spec = first ++ rest) :
    ∃ front, Blank front ∧ first = trim first ++ front := by
  obtain ⟨blanks, front, hblanks, hfront, heq⟩ := Lib.trimmed_decompose (p := isspace) first
  cases blanks with
  | nil => exact ⟨front, hfront, heq⟩
  | cons c blanks =>
      have hhead : (trim spec).head? = some c := by
        rw [hspec, heq]
        rfl
      have hspace := Lib.trimmed_head? hhead
      rw [hblanks c List.mem_cons_self] at hspace
      cases hspace

private theorem trim_back_decompose {first last : Bytes} (hspec : trim spec = first ++ last)
    (hne : last ≠ []) :
    ∃ back, Blank back ∧ last = back ++ trim last := by
  obtain ⟨back, blanks, hback, hblanks, heq⟩ := Lib.trimmed_decompose (p := isspace) last
  rcases List.eq_nil_or_concat blanks with rfl | ⟨init, c, rfl⟩
  · rw [List.append_nil] at heq
    exact ⟨back, hback, heq⟩
  · rw [List.concat_eq_append] at heq hblanks
    have hend : (trim spec).getLast? = some c := by
      rw [hspec, List.getLast?_append_of_ne_nil _ hne, heq, ← List.append_assoc]
      exact List.getLast?_concat
    have hspace := Lib.trimmed_getLast? hend
    rw [hblanks c (by simp)] at hspace
    cases hspace

private theorem not_mem_trim {c : UInt8} {s : Bytes} (h : c ∉ s) : c ∉ trim s :=
  fun hmem => h ((Lib.trimmed_infix s).subset hmem)

private theorem denotes_of_parseByteRangeSpec {range : ByteRange}
    (h : parseByteRangeSpec filesize (trim spec) = some range) : ∃ r, Denotes spec r := by
  obtain ⟨first, last, hspec, hfirst, hlast⟩ := parseByteRangeSpec_inv filesize h
  rw [hspec, parseByteRangeSpec_pieces filesize hfirst hlast] at h
  simp only at h
  split at h
  · cases h
  next hpos =>
  obtain ⟨a, hnumber, _⟩ := isNumber_of_bytePos (fun hneg => hpos (.inl hneg)) (not_mem_trim hfirst)
  obtain ⟨front, hfront, hfirsteq⟩ := trim_front_decompose hspec
  split at h
  next hnil =>
    subst hnil
    rw [hfirsteq] at hspec
    exact ⟨.onwards a, .onwards (trim first) front hnumber hfront hspec⟩
  next hne =>
    split at h
    · cases h
    next hlastpos =>
    obtain ⟨b, hright, _⟩ :=
      isNumber_of_bytePos (fun hneg => hlastpos (.inl hneg)) (not_mem_trim hlast)
    have hend : trim spec = (first ++ [MINUS]) ++ last := by
      rw [hspec, List.append_assoc]
      rfl
    obtain ⟨back, hback, hlasteq⟩ := trim_back_decompose hend hne
    rw [hfirsteq, hlasteq] at hspec
    exact ⟨.between a b, .between (trim first) front back (trim last) hnumber hfront hback hright
      hspec⟩

theorem denotes_of_parseRange {range : ByteRange} (h : parseRange filesize spec = some range) :
    ∃ r, Denotes spec r := by
  rcases hspec : trim spec with _ | ⟨c, _ | ⟨d, rest⟩⟩
  · rw [parseRange, hspec] at h
    cases h
  · have hnone : parseRange filesize spec = none := by
      rw [parseRange, hspec]
      split
      next heq => cases heq
      next heq => cases heq
      · rfl
    rw [hnone] at h
    cases h
  · by_cases hminus : c = MINUS
    · subst hminus
      rw [parseRange_suffix filesize hspec] at h
      split at h
      next hdigit =>
        rw [parseSuffixByteRangeSpec] at h
        split at h
        · cases h
        next hpos =>
          cases hparse : svtoll (d :: rest) with
          | none =>
              rw [bytePos, hparse] at hpos
              exact absurd (by decide) hpos
          | some v =>
              rw [bytePos, hparse, Option.getD_some] at hpos
              obtain ⟨hne, hdigits, _, _⟩ := svtointegral_inv hparse (.inl (by omega))
              exact ⟨_, .suffix (d :: rest) ⟨hne, hdigits, rfl⟩ hspec⟩
      · cases h
    · rw [parseRange_number filesize hspec (by simp) hminus, ← hspec] at h
      exact denotes_of_parseByteRangeSpec filesize h

theorem RangeSpec.range_inside {r : RangeSpec} (hpos : 0 < filesize) (h : r.Satisfiable filesize) :
    (r.range filesize).firstBytePos ≤ (r.range filesize).lastBytePos ∧
      (r.range filesize).lastBytePos < filesize := by
  cases r with
  | between a b =>
      obtain ⟨hin, hab⟩ := h
      simp only [RangeSpec.range]
      omega
  | onwards a =>
      have hin : a < filesize := h
      simp only [RangeSpec.range]
      omega
  | suffix n =>
      have hn : 0 < n := h
      simp only [RangeSpec.range]
      omega

/-- The stored range is inside the file and is what the spec means. -/
structure Means (spec : Bytes) (range : ByteRange) : Prop where
  ordered : range.firstBytePos ≤ range.lastBytePos
  inside : range.lastBytePos < filesize
  denotes : ∃ r, Denotes spec r
  range_eq : ∀ r, Denotes spec r → range = r.range filesize

/-- A spec of no kind, or one that selects nothing. -/
def Refused (spec : Bytes) : Prop :=
  (¬ ∃ r, Denotes spec r) ∨ ∃ r, Denotes spec r ∧ ¬ r.Satisfiable filesize

theorem means_of_parseRange (hpos : 0 < filesize) {range : ByteRange}
    (h : parseRange filesize spec = some range) : Means filesize spec range := by
  have heq : ∀ r, Denotes spec r → range = r.range filesize ∧ r.Satisfiable filesize := by
    intro r hr
    have hserved := hr.servedAs filesize
    by_cases hboth : r.Fits ∧ r.Satisfiable filesize
    · rw [hserved.some hboth.1 hboth.2] at h
      exact ⟨(Option.some.inj h).symm, hboth.2⟩
    · rw [hserved.none hboth] at h
      cases h
  obtain ⟨r, hr⟩ := denotes_of_parseRange filesize h
  obtain ⟨hrange, hsat⟩ := heq r hr
  obtain ⟨hordered, hinside⟩ := RangeSpec.range_inside filesize hpos hsat
  rw [← hrange] at hordered hinside
  exact ⟨hordered, hinside, ⟨r, hr⟩, fun r hr => (heq r hr).1⟩

theorem parseRange_of_refused (h : Refused filesize spec) : parseRange filesize spec = none := by
  rcases h with hshape | ⟨r, hr, hsat⟩
  · cases hparse : parseRange filesize spec with
    | none => rfl
    | some range => exact absurd (denotes_of_parseRange filesize hparse) hshape
  · exact (hr.servedAs filesize).none fun hboth => hsat hboth.2

end

private theorem forall₂_of_mapM {α β : Type} {f : α → Option β} {l : List α} {ys : List β}
    (h : l.mapM f = some ys) : List.Forall₂ (fun x y => f x = some y) l ys := by
  induction l generalizing ys with
  | nil =>
      rw [List.mapM_nil] at h
      cases h
      exact .nil
  | cons x l ih =>
      rw [List.mapM_cons] at h
      cases hx : f x with
      | none =>
          rw [hx] at h
          cases h
      | some y =>
          cases hl : l.mapM f with
          | none =>
              rw [hx, hl] at h
              cases h
          | some tail =>
              rw [hx, hl] at h
              cases h
              exact .cons hx (ih hl)

private theorem mapM_none_of_mem {α β : Type} {f : α → Option β} {l : List α} {x : α} (hx : x ∈ l)
    (hnone : f x = none) : l.mapM f = none := by
  induction l with
  | nil => exact absurd hx List.not_mem_nil
  | cons y l ih =>
      rw [List.mapM_cons]
      rcases List.mem_cons.mp hx with rfl | hlater
      · rw [hnone]
        rfl
      · rw [ih hlater]
        cases f y <;> rfl

/-- Each stored range is what its spec means, inside the file, and a spec that
means nothing there refuses the header. -/
theorem byte_ranges_exact (filesize : Nat) (hpos : 0 < filesize) (range : Bytes) :
    (∀ ranges, parseByteRanges filesize range = (.partialContent, ranges) →
      ∃ specs, range = ascii "bytes=" ++ specs ∧
        List.Forall₂ (Means filesize) (split specs COMMA) ranges) ∧
    ∀ specs, specs ≠ [] → range = ascii "bytes=" ++ specs →
      (∃ spec ∈ split specs COMMA, Refused filesize spec) →
      (parseByteRanges filesize range).1 = .requestedRangeNotSatisfiable := by
  constructor
  · intro ranges h
    rw [parseByteRanges] at h
    split at h
    · cases h
    next hunit =>
    rw [Bool.not_eq_true, Bool.not_eq_false', List.isPrefixOf_iff_prefix] at hunit
    obtain ⟨specs, rfl⟩ := hunit
    refine ⟨specs, rfl, ?_⟩
    have hdrop : (ascii "bytes=" ++ specs).drop 6 = specs := rfl
    rw [hdrop] at h
    split at h
    · cases h
    · cases hmap : (split specs COMMA).mapM (parseRange filesize) with
      | none =>
          rw [hmap] at h
          cases h
      | some stored =>
          rw [hmap] at h
          cases h
          exact (forall₂_of_mapM hmap).imp fun _ _ => means_of_parseRange filesize hpos
  · rintro specs hne rfl ⟨spec, hmem, hrefused⟩
    have hunit : (ascii "bytes=").isPrefixOf (ascii "bytes=" ++ specs) = true :=
      List.isPrefixOf_iff_prefix.mpr ⟨specs, rfl⟩
    have hdrop : (ascii "bytes=" ++ specs).drop 6 = specs := rfl
    have hnone : (split specs COMMA).mapM (parseRange filesize) = none :=
      mapM_none_of_mem hmem (parseRange_of_refused filesize hrefused)
    rw [parseByteRanges, hunit, hdrop, if_neg (by decide), if_neg hne, hnone]

/-- Three specs, one of each kind, with blanks. -/
theorem byte_ranges_three :
    ∃ specs, ascii "bytes=0 - 20, 7-,-3" = ascii "bytes=" ++ specs ∧
      List.Forall₂ (Means 10) (split specs COMMA) [⟨0, 9⟩, ⟨7, 9⟩, ⟨7, 9⟩] :=
  (byte_ranges_exact 10 (by decide) (ascii "bytes=0 - 20, 7-,-3")).1 _ (by decide)

/-- A blank in front of the `-` of an open range does no harm. -/
theorem byte_range_blank_accepted :
    parseByteRanges 10 (ascii "bytes=5 -") = (.partialContent, [⟨5, 9⟩]) ∧
      split (ascii "5 -") COMMA = [ascii "5 -"] ∧
      ¬ ∃ r, DenotesTight (ascii "5 -") r := by
  refine ⟨by decide, by decide, ?_⟩
  rintro ⟨r, hr, htight⟩
  have htrim : trim (ascii "5 -") = [53, 32, 45] := by decide
  cases hr with
  | between left front back right _ _ _ hright hspec =>
      have hsplit : left ++ front ++ MINUS :: (back ++ right) =
          (left ++ front ++ MINUS :: back) ++ right := by simp
      have hlast : (trim (ascii "5 -")).getLast? = right.getLast? := by
        rw [hspec, hsplit, List.getLast?_append_of_ne_nil _ hright.nonempty]
      obtain ⟨c, hc⟩ := List.getLast?_isSome.mpr hright.nonempty |> Option.isSome_iff_exists.mp
      rw [htrim, hc] at hlast
      have hmem : MINUS ∈ right := List.mem_of_getLast? (hc.trans hlast.symm)
      exact hright.no_minus hmem
  | onwards left front hleft hfront hspec =>
      obtain ⟨digits, hdigits, htext⟩ := htight _ rfl
      rw [htrim] at htext
      have hdigits_eq : digits = [53, 32] :=
        (List.append_cancel_right (htext : [53, 32] ++ [45] = digits ++ [MINUS])).symm
      rw [hdigits_eq] at hdigits
      exact absurd hdigits.digits (by decide)
  | suffix right hright hspec =>
      rw [htrim] at hspec
      cases hspec

end Angel.Http
