import Angel.Basic
import Angel.Lib.Trim
import Mathlib.Data.List.Infix

/-!
The string functions of `util.h` and the C library functions they rest on, in
the C locale.
-/

namespace Angel.Util

/-- `isspace`: blank, form feed, newline, return, both tabs. -/
def isspace (c : UInt8) : Bool := c = 32 || (9 ≤ c && c ≤ 13)

def isdigit (c : UInt8) : Bool := 48 ≤ c && c ≤ 57

/-- `tolower` of one character. -/
def tolower (c : UInt8) : UInt8 := if 65 ≤ c ∧ c ≤ 90 then c + 32 else c

def toLower (s : Bytes) : Bytes := s.map tolower

/-- `strncasecmp(s1, s2, n) == 0` for strings of length `n`: the comparison
ends at a null character. -/
def strncasecmpEq : Bytes → Bytes → Bool
  | a :: s1, b :: s2 => tolower a = tolower b && (a = 0 || strncasecmpEq s1 s2)
  | _, _ => true

def equalCase (s1 s2 : Bytes) : Bool := s1.length = s2.length && strncasecmpEq s1 s2

/-- Leading and trailing white space removed. -/
def trim (s : Bytes) : Bytes := ((s.dropWhile isspace).reverse.dropWhile isspace).reverse

/-- The pieces between the occurrences of `c`. -/
def split (s : Bytes) (c : UInt8) : List Bytes := s.splitOn c

/-- The value of a digit in any base up to 16. -/
def digit? (c : UInt8) : Option Nat :=
  if 48 ≤ c ∧ c ≤ 57 then some (c.toNat - 48)
  else if 97 ≤ c ∧ c ≤ 102 then some (c.toNat - 87)
  else if 65 ≤ c ∧ c ≤ 70 then some (c.toNat - 55)
  else none

/-- The value of a digit string. -/
def ofDigits (base : Nat) (s : Bytes) : Nat :=
  s.foldl (fun value c => base * value + (digit? c).getD 0) 0

/-- `std::to_string` of an unsigned number. -/
def decimal (n : Nat) : Bytes := (Nat.toDigits 10 n).map fun c => c.toNat.toUInt8

/-- `svtointegral`: `std::from_chars` that has to convert all of `s`. The type
holds the numbers from `-low` to `high`. -/
def svtointegral (low high : Nat) (s : Bytes) : Option Int :=
  let (negative, digits) := match s with
    | 45 :: digits => (true, digits)
    | _ => (false, s)
  if digits = [] ∨ ¬ digits.all isdigit then none
  else
    let value := ofDigits 10 digits
    if negative then if value ≤ low then some (-value) else none
    else if value ≤ high then some value else none

def svtoi (s : Bytes) : Option Int := svtointegral (2 ^ 31) (2 ^ 31 - 1) s

def svtoll (s : Bytes) : Option Int := svtointegral (2 ^ 63) (2 ^ 63 - 1) s

/-- What C sees of a string: it ends at a null character. -/
def cStr (s : Bytes) : Bytes := s.takeWhile (· ≠ 0)

theorem trim_eq (s : Bytes) : trim s = Lib.trimmed isspace s := rfl

theorem trim_cons_space {s : Bytes} (h : trim s = s) : trim (32 :: s) = s := by
  have hdrop : (32 :: s).dropWhile isspace = s.dropWhile isspace := by
    simp [isspace]
  rw [trim, hdrop]
  exact h

theorem idxOf_separator {c : UInt8} {front : Bytes} (h : c ∉ front) (rest : Bytes) :
    (front ++ c :: rest).idxOf c = front.length := by
  rw [List.idxOf_append_of_notMem h, List.idxOf_cons_self]
  rfl

theorem drop_separator (c : UInt8) (front rest : Bytes) :
    (front ++ c :: rest).drop (front.length + 1) = rest := by
  have hshape : front ++ c :: rest = (front ++ [c]) ++ rest := by simp
  rw [hshape, List.drop_left' (by simp)]

section

variable {c : UInt8} {front : Bytes}

theorem split_free (h : c ∉ front) : split front c = [front] :=
  List.splitOn_eq_singleton h

theorem split_separator (h : c ∉ front) (rest : Bytes) :
    split (front ++ c :: rest) c = front :: split rest c :=
  List.splitOn_append_cons_self_of_not_mem h rest

end

theorem split_ne_nil (s : Bytes) (c : UInt8) : split s c ≠ [] := List.splitOn_ne_nil c s

theorem intercalate_split (s : Bytes) (c : UInt8) : [c].intercalate (split s c) = s :=
  List.intercalate_splitOn c

theorem split_induction (c : UInt8) {motive : Bytes → Prop}
    (free : ∀ s, c ∉ s → motive s)
    (separator : ∀ front rest, c ∉ front → motive rest → motive (front ++ c :: rest))
    (s : Bytes) : motive s := by
  induction hn : s.length using Nat.strong_induction_on generalizing s with
  | _ n ih =>
      by_cases hmem : c ∈ s
      · obtain ⟨front, rest, rfl, hfront⟩ := List.eq_append_cons_of_mem hmem
        have hlen : rest.length < n := by
          rw [← hn, List.length_append, List.length_cons]
          omega
        exact separator front rest hfront (ih rest.length hlen rest rfl)
      · exact free s hmem

theorem split_pieces (c : UInt8) (first : Bytes) (pieces : List Bytes) (hfirst : c ∉ first)
    (hpieces : ∀ p ∈ pieces, c ∉ p) :
    split (first ++ pieces.flatMap (c :: ·)) c = first :: pieces := by
  induction pieces generalizing first with
  | nil => rw [List.flatMap_nil, List.append_nil, split_free hfirst]
  | cons p pieces ih =>
      have hlater := ih p (hpieces p List.mem_cons_self)
        fun q hq => hpieces q (List.mem_cons_of_mem _ hq)
      rw [List.flatMap_cons, List.cons_append, split_separator hfirst, hlater]

theorem notMem_of_mem_split (c : UInt8) (s : Bytes) : ∀ p ∈ split s c, c ∉ p := by
  induction s using split_induction c with
  | free s hfree =>
      rw [split_free hfree]
      intro p hp
      exact List.mem_singleton.mp hp ▸ hfree
  | separator front rest hfront ih =>
      rw [split_separator hfront]
      intro p hp
      rcases List.mem_cons.mp hp with rfl | hp
      · exact hfront
      · exact ih p hp

theorem cStr_cons (c : UInt8) (s : Bytes) : cStr (c :: s) = if c = 0 then [] else c :: cStr s := by
  by_cases hc : c = 0 <;> simp [cStr, hc]

theorem cStr_append_free {front : Bytes} (hfree : 0 ∉ front) (rest : Bytes) :
    cStr (front ++ rest) = front ++ cStr rest := by
  apply List.takeWhile_append_of_pos
  intro c hc
  simp only [ne_eq, decide_eq_true_eq]
  rintro rfl
  exact hfree hc

theorem cStr_append_cut {front : Bytes} (hcut : 0 ∈ front) (rest : Bytes) :
    cStr (front ++ rest) = cStr front := by
  induction front with
  | nil => exact absurd hcut List.not_mem_nil
  | cons c front ih =>
      rw [List.cons_append, cStr_cons, cStr_cons]
      by_cases hc : c = 0
      · rw [if_pos hc, if_pos hc]
      · have hmem : 0 ∈ front := (List.mem_cons.mp hcut).resolve_left (Ne.symm hc)
        rw [ih hmem]

theorem cStr_rest (s : Bytes) : s = cStr s ∨ ∃ rest, s = cStr s ++ 0 :: rest := by
  induction s with
  | nil => exact .inl rfl
  | cons c s ih =>
      rw [cStr_cons]
      by_cases hc : c = 0
      · subst hc
        exact .inr ⟨s, by simp⟩
      · rw [if_neg hc]
        rcases ih with hall | ⟨rest, hrest⟩
        · exact .inl (congrArg (c :: ·) hall)
        · exact .inr ⟨rest, congrArg (c :: ·) hrest⟩

theorem cStr_cut (front rest : Bytes) : cStr (front ++ 0 :: rest) = cStr front := by
  induction front with
  | nil => rfl
  | cons c front ih => rw [List.cons_append, cStr_cons, cStr_cons, ih]

theorem isspace_of_isdigit {c : UInt8} (h : isdigit c = true) : isspace c = false := by
  simp only [isdigit, Bool.and_eq_true, decide_eq_true_eq, UInt8.le_iff_toNat_le] at h
  simp only [isspace, Bool.or_eq_false_iff, Bool.and_eq_false_iff, decide_eq_false_iff_not,
    UInt8.le_iff_toNat_le, UInt8.ext_iff]
  have h48 : (48 : UInt8).toNat = 48 := rfl
  have h13 : (13 : UInt8).toNat = 13 := rfl
  have h32 : (32 : UInt8).toNat = 32 := rfl
  omega

theorem toNat_toUInt8_of_isDigit {c : Char} (h : c.isDigit = true) :
    c.toNat.toUInt8.toNat = c.toNat ∧ 48 ≤ c.toNat ∧ c.toNat ≤ 57 := by
  simp only [Char.isDigit, Bool.and_eq_true, decide_eq_true_eq, ge_iff_le,
    UInt32.le_iff_toNat_le] at h
  change 48 ≤ c.toNat ∧ c.toNat ≤ 57 at h
  refine ⟨?_, h⟩
  simp only [UInt8.toNat_ofNat']
  omega

theorem isdigit_of_isDigit {c : Char} (h : c.isDigit = true) :
    isdigit c.toNat.toUInt8 = true := by
  obtain ⟨hval, hlow, hhigh⟩ := toNat_toUInt8_of_isDigit h
  simp only [isdigit, Bool.and_eq_true, decide_eq_true_eq, UInt8.le_iff_toNat_le, hval]
  exact ⟨hlow, hhigh⟩

theorem digit?_of_isdigit {c : UInt8} (h : isdigit c = true) :
    digit? c = some (c.toNat - 48) := by
  simp only [isdigit, Bool.and_eq_true, decide_eq_true_eq] at h
  rw [digit?, if_pos h]

theorem ofDigits_snoc (base : Nat) (s : Bytes) (c : UInt8) :
    ofDigits base (s ++ [c]) = base * ofDigits base s + (digit? c).getD 0 := by
  simp [ofDigits, List.foldl_append]

private theorem foldl_digits (cs : List Char) (hcs : ∀ c ∈ cs, c.isDigit = true) (value : Nat) :
    (cs.map fun c => c.toNat.toUInt8).foldl
        (fun value c => 10 * value + (digit? c).getD 0) value =
      Nat.ofDigitChars 10 cs value := by
  induction cs generalizing value with
  | nil => simp
  | cons c cs ih =>
      have hc := hcs c List.mem_cons_self
      rw [Nat.ofDigitChars_cons, List.map_cons, List.foldl_cons,
        digit?_of_isdigit (isdigit_of_isDigit hc), (toNat_toUInt8_of_isDigit hc).1]
      exact ih (fun d hd => hcs d (List.mem_cons_of_mem c hd)) _

theorem isDigit_toDigits {n : Nat} {c : Char} (h : c ∈ Nat.toDigits 10 n) :
    c.isDigit = true :=
  Nat.isDigit_of_mem_toDigits (by decide) (by decide) h

theorem ofDigits_decimal (n : Nat) : ofDigits 10 (decimal n) = n := by
  rw [ofDigits, decimal, foldl_digits _ (fun c hc => isDigit_toDigits hc)]
  exact Nat.ofDigitChars_ten_toDigits

theorem decimal_injective {m n : Nat} (h : decimal m = decimal n) : m = n := by
  rw [← ofDigits_decimal m, h, ofDigits_decimal]

theorem decimal_digits (n : Nat) : (decimal n).all isdigit = true := by
  rw [decimal, List.all_map, List.all_eq_true]
  intro c hc
  exact isdigit_of_isDigit (isDigit_toDigits hc)

theorem notMem_decimal {c : UInt8} (h : isdigit c = false) (n : Nat) : c ∉ decimal n := by
  intro hmem
  exact Bool.noConfusion (h.symm.trans (List.all_eq_true.mp (decimal_digits n) c hmem))

theorem decimal_ne_nil (n : Nat) : decimal n ≠ [] := by
  simp [decimal, Nat.toDigits_ne_nil]

theorem svtointegral_digits {low high : Nat} {s : Bytes} (hne : s ≠ [])
    (hdigits : s.all isdigit = true) (hvalue : ofDigits 10 s ≤ high) :
    svtointegral low high s = some (ofDigits 10 s : Int) := by
  have hsign : ∀ digits, s ≠ 45 :: digits := by
    rintro digits rfl
    simp [isdigit] at hdigits
  unfold svtointegral
  split
  rename_i negative digits hmatch
  split at hmatch
  · exact absurd rfl (hsign _)
  · obtain ⟨rfl, rfl⟩ := Prod.mk.inj hmatch
    simp [hne, hdigits, hvalue]

theorem svtointegral_inv {low high : Nat} {s : Bytes} {v : Int}
    (h : svtointegral low high s = some v) (hsign : 0 < v ∨ s.getD 0 0 ≠ 45) :
    s ≠ [] ∧ s.all isdigit = true ∧ v = ofDigits 10 s ∧ ofDigits 10 s ≤ high := by
  unfold svtointegral at h
  split at h
  rename_i negative digits hmatch
  split at hmatch
  next digits' =>
    obtain ⟨rfl, rfl⟩ := Prod.mk.inj hmatch
    have hminus : v ≤ 0 := by
      split at h
      · cases h
      · simp only [if_true] at h
        split at h
        · rw [← Option.some.inj h]
          omega
        · cases h
    rcases hsign with hpos | hne
    · omega
    · exact absurd rfl hne
  · obtain ⟨rfl, rfl⟩ := Prod.mk.inj hmatch
    split at h
    · cases h
    next hdigits =>
      rw [not_or, not_not] at hdigits
      simp only [Bool.false_eq_true, if_false] at h
      split at h
      next hvalue => exact ⟨hdigits.1, hdigits.2, (Option.some.inj h).symm, hvalue⟩
      · cases h

theorem svtoi_decimal {n : Nat} (h : n ≤ 2 ^ 31 - 1) : svtoi (decimal n) = some (n : Int) := by
  have hvalue : ofDigits 10 (decimal n) ≤ 2 ^ 31 - 1 := by rwa [ofDigits_decimal]
  rw [svtoi, svtointegral_digits (decimal_ne_nil n) (decimal_digits n) hvalue, ofDigits_decimal]

theorem svtoll_digits {s : Bytes} (hne : s ≠ []) (hdigits : s.all isdigit = true)
    (hvalue : ofDigits 10 s ≤ maxSize) : svtoll s = some (ofDigits 10 s : Int) :=
  svtointegral_digits hne hdigits hvalue

theorem svtoll_decimal {n : Nat} (h : n ≤ maxSize) : svtoll (decimal n) = some (n : Int) := by
  have hvalue : ofDigits 10 (decimal n) ≤ maxSize := by rwa [ofDigits_decimal]
  rw [svtoll_digits (decimal_ne_nil n) (decimal_digits n) hvalue, ofDigits_decimal]

end Angel.Util
