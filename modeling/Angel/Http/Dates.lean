import Angel.Http.Response

/-!
`check_date_format`, the dates of RFC 1123 as the comment of `util.cc` has them,
and what the formatter makes.
-/

namespace Angel.Http

open Util

def wkdays : List Bytes :=
  [ascii "Mon", ascii "Tue", ascii "Wed", ascii "Thu", ascii "Fri", ascii "Sat", ascii "Sun"]

def months : List (Bytes × Nat) :=
  [(ascii "Jan", 1), (ascii "Feb", 2), (ascii "Mar", 3), (ascii "Apr", 4), (ascii "May", 5),
    (ascii "Jun", 6), (ascii "Jul", 7), (ascii "Aug", 8), (ascii "Sep", 9), (ascii "Oct", 10),
    (ascii "Nov", 11), (ascii "Dec", 12)]

/-- `days`: a row for the common years and one for the leap years. -/
def days (leap : Bool) : List Int :=
  if leap then [0, 31, 29, 31, 30, 31, 30, 31, 31, 30, 31, 30, 31]
  else [0, 31, 28, 31, 30, 31, 30, 31, 31, 30, 31, 30, 31]

def isLeap (year : Int) : Bool :=
  (year % 4 == 0 && year % 100 != 0) || year % 400 == 0

/-- The last part of `check_date_format`: the time, and the zone behind it. -/
def checkTime (p : Bytes) : Bool :=
  if p.getD 2 0 ≠ COLON ∨ p.getD 5 0 ≠ COLON ∨ p.getD 8 0 ≠ SP then false
  -- No -0, although it would be converted to 0.
  else if p.getD 0 0 = 45 ∨ p.getD 3 0 = 45 ∨ p.getD 6 0 = 45 then false
  else
    let h := svtoi (p.take 2)
    if h.getD (-1) < 0 ∨ h.getD 0 > 23 then false
    else
      let m := svtoi ((p.drop 3).take 2)
      if m.getD (-1) < 0 ∨ m.getD 0 > 59 then false
      else
        let s := svtoi ((p.drop 6).take 2)
        if s.getD (-1) < 0 ∨ s.getD 0 > 59 then false
        else p.getD 9 0 == 71 && p.getD 10 0 == 77 && p.getD 11 0 == 80

/-- The part in front of it: day, month and year. -/
def checkDate (p : Bytes) : Bool :=
  if p.getD 2 0 ≠ SP ∨ p.getD 6 0 ≠ SP ∨ p.getD 11 0 ≠ SP then false
  else
    let year := svtoi ((p.drop 7).take 4)
    if year.getD (-1) ≤ 0 then false
    else
      match months.lookup ((p.drop 3).take 3) with
      | none => false
      | some month =>
          let day := svtoi (p.take 2)
          if day.getD (-1) ≤ 0 ∨ day.getD 0 > (days (isLeap (year.getD 0))).getD month 0 then false
          else checkTime (p.drop 12)

def checkDateFormat (date : Bytes) : Bool :=
  if date.length ≠ 29 then false
  else if !wkdays.contains (date.take 3) then false
  else if date.getD 3 0 ≠ 44 ∨ date.getD 4 0 ≠ SP then false
  else checkDate (date.drop 5)

/-- The last `width` decimal digits. -/
def padded : (width n : Nat) → Bytes
  | 0, _ => []
  | width + 1, n => padded width (n / 10) ++ [UInt8.ofNat (48 + n % 10)]

def monthLength (year : Nat) (mon : Fin 12) : Nat :=
  if mon.val = 1 then if 4 ∣ year ∧ ¬ 100 ∣ year ∨ 400 ∣ year then 29 else 28
  else if mon.val = 3 ∨ mon.val = 5 ∨ mon.val = 8 ∨ mon.val = 10 then 30 else 31

/-- A time that exists, in a year of at most four digits. -/
structure Tm.Valid (tm : Tm) : Prop where
  mday_pos : 0 < tm.mday
  mday_le : tm.mday ≤ monthLength tm.year tm.mon
  year_pos : 0 < tm.year
  year_lt : tm.year < 10000
  hour_lt : tm.hour < 24
  min_lt : tm.min < 60
  sec_lt : tm.sec < 60

/-- `time`, a blank and the zone. -/
def timeText (tm : Tm) (zone : Bytes) : Bytes :=
  padded 2 tm.hour ++ (COLON :: padded 2 tm.min ++ (COLON :: padded 2 tm.sec ++ (SP :: zone)))

/-- `wkday "," SP date SP time SP` and the zone. -/
def rfc1123 (tm : Tm) (zone : Bytes) : Bytes :=
  wkday tm.wday ++ (44 :: SP :: padded 2 tm.mday ++ (SP :: month tm.mon ++
    (SP :: padded 4 tm.year ++ (SP :: timeText tm zone))))

def IsDate (zone date : Bytes) : Prop := ∃ tm : Tm, tm.Valid ∧ date = rfc1123 tm zone

section

theorem padded_length (width n : Nat) : (padded width n).length = width := by
  induction width generalizing n with
  | zero => rfl
  | succ width ih => rw [padded, List.length_append, ih, List.length_singleton]

private theorem digit_isdigit {n : Nat} (h : n < 10) : isdigit (UInt8.ofNat (48 + n)) = true := by
  have hall : ∀ n : Fin 10, isdigit (UInt8.ofNat (48 + n.1)) = true := by decide
  exact hall ⟨n, h⟩

private theorem digit_value {n : Nat} (h : n < 10) :
    (digit? (UInt8.ofNat (48 + n))).getD 0 = n := by
  have hall : ∀ n : Fin 10, (digit? (UInt8.ofNat (48 + n.1))).getD 0 = n.1 := by decide
  exact hall ⟨n, h⟩

theorem padded_digits (width n : Nat) : (padded width n).all isdigit = true := by
  induction width generalizing n with
  | zero => rfl
  | succ width ih =>
      have hlast : isdigit (UInt8.ofNat (48 + n % 10)) = true :=
        digit_isdigit (Nat.mod_lt n (by decide))
      rw [padded, List.all_append, ih, List.all_cons, hlast]
      rfl

private theorem ofDigits_padded {width n : Nat} (h : n < 10 ^ width) :
    ofDigits 10 (padded width n) = n := by
  induction width generalizing n with
  | zero =>
      have hzero : n = 0 := by simpa using h
      rw [hzero]
      rfl
  | succ width ih =>
      have hdiv : n / 10 < 10 ^ width := by
        rw [Nat.pow_succ] at h
        omega
      rw [padded, ofDigits_snoc, ih hdiv, digit_value (Nat.mod_lt n (by decide))]
      omega

theorem padded_ofDigits (s : Bytes) (h : s.all isdigit = true) :
    ofDigits 10 s < 10 ^ s.length ∧ padded s.length (ofDigits 10 s) = s := by
  induction s using List.reverseRecOn with
  | nil => exact ⟨by decide, rfl⟩
  | append_singleton s c ih =>
      rw [List.all_append, Bool.and_eq_true] at h
      obtain ⟨hlt, heq⟩ := ih h.1
      have hc : isdigit c = true := by simpa using h.2
      have hrange : 48 ≤ c.toNat ∧ c.toNat ≤ 57 := by
        simpa [isdigit, UInt8.le_iff_toNat_le] using hc
      have hvalue : (digit? c).getD 0 = c.toNat - 48 := by rw [digit?_of_isdigit hc]; rfl
      rw [ofDigits_snoc, hvalue, List.length_append, List.length_singleton, Nat.pow_succ]
      refine ⟨by omega, ?_⟩
      have hdiv : (10 * ofDigits 10 s + (c.toNat - 48)) / 10 = ofDigits 10 s := by omega
      have hmod : 48 + (10 * ofDigits 10 s + (c.toNat - 48)) % 10 = c.toNat := by omega
      rw [padded, hdiv, hmod, heq, UInt8.ofNat_toNat]

theorem svtoi_padded {width n : Nat} (hwidth : 0 < width) (hn : n < 10 ^ width)
    (hint : n ≤ 2 ^ 31 - 1) : svtoi (padded width n) = some (n : Int) := by
  have hne : padded width n ≠ [] := by
    apply List.ne_nil_of_length_pos
    rwa [padded_length]
  have hvalue := ofDigits_padded hn
  have hparse : svtoi (padded width n) = some (ofDigits 10 (padded width n) : Int) :=
    svtointegral_digits hne (padded_digits width n) (hvalue.trans_le hint)
  rwa [hvalue] at hparse

theorem svtoi_inv {s : Bytes} {v : Int} (h : svtoi s = some v) (hsign : 0 < v ∨ s.getD 0 0 ≠ 45) :
    ∃ n : Nat, v = n ∧ n < 10 ^ s.length ∧ s = padded s.length n := by
  obtain ⟨_, hdigits, hvalue, _⟩ := svtointegral_inv h hsign
  obtain ⟨hlt, htext⟩ := padded_ofDigits s hdigits
  exact ⟨ofDigits 10 s, hvalue, hlt, htext.symm⟩

private theorem padded_head {width n : Nat} (hwidth : 0 < width) :
    (padded width n).getD 0 0 ≠ 45 := by
  have hlen := padded_length width n
  have hdigits := padded_digits width n
  cases htext : padded width n with
  | nil =>
      rw [htext, List.length_nil] at hlen
      omega
  | cons c rest =>
      rw [htext, List.all_cons, Bool.and_eq_true] at hdigits
      intro heq
      rw [show c = 45 from heq] at hdigits
      exact absurd hdigits.1 (by decide)

theorem time_field_iff (s : Bytes) (hlen : s.length = 2) {bound : Nat} (hbound : bound < 100) :
    (s.getD 0 0 ≠ 45 ∧ ¬ ((svtoi s).getD (-1) < 0 ∨ (svtoi s).getD 0 > bound)) ↔
      ∃ n, n < bound + 1 ∧ s = padded 2 n := by
  constructor
  · rintro ⟨hsign, hrange⟩
    cases hvalue : svtoi s with
    | none =>
        rw [hvalue] at hrange
        exact absurd (.inl (by decide)) hrange
    | some v =>
        obtain ⟨n, rfl, _, htext⟩ := svtoi_inv hvalue (.inr hsign)
        rw [hlen] at htext
        rw [hvalue, Option.getD_some, Option.getD_some] at hrange
        exact ⟨n, by omega, htext⟩
  · rintro ⟨n, hn, rfl⟩
    rw [svtoi_padded (by decide) (by omega) (by omega), Option.getD_some, Option.getD_some]
    exact ⟨padded_head (by decide), by omega⟩

theorem date_field_iff (s : Bytes) (width : Nat) (hlen : s.length = width) (hwidth : 0 < width)
    (hsmall : width ≤ 4) :
    ¬ (svtoi s).getD (-1) ≤ 0 ↔ ∃ n : Nat, 0 < n ∧ n < 10 ^ width ∧ s = padded width n := by
  constructor
  · intro hrange
    cases hvalue : svtoi s with
    | none =>
        rw [hvalue] at hrange
        exact absurd (by decide) hrange
    | some v =>
        rw [hvalue, Option.getD_some] at hrange
        obtain ⟨n, rfl, hn, htext⟩ := svtoi_inv hvalue (.inl (by omega))
        rw [hlen] at hn htext
        exact ⟨n, by omega, hn, htext⟩
  · rintro ⟨n, hpos, hn, rfl⟩
    have hpow : 10 ^ width ≤ 10 ^ 4 := Nat.pow_le_pow_right (by decide) hsmall
    rw [svtoi_padded hwidth hn (by omega), Option.getD_some]
    omega

end

theorem mem_wkdays_iff (s : Bytes) : wkdays.contains s = true ↔ ∃ wday, s = wkday wday := by
  rw [List.contains_iff_mem]
  constructor
  · intro h
    simp only [wkdays, List.mem_cons, List.not_mem_nil, or_false] at h
    rcases h with rfl | rfl | rfl | rfl | rfl | rfl | rfl
    · exact ⟨1, rfl⟩
    · exact ⟨2, rfl⟩
    · exact ⟨3, rfl⟩
    · exact ⟨4, rfl⟩
    · exact ⟨5, rfl⟩
    · exact ⟨6, rfl⟩
    · exact ⟨0, rfl⟩
  · rintro ⟨wday, rfl⟩
    revert wday
    decide

theorem months_lookup (mon : Fin 12) : months.lookup (month mon) = some (mon.1 + 1) := by
  revert mon
  decide

theorem months_lookup_inv {s : Bytes} {m : Nat} (h : months.lookup s = some m) :
    ∃ mon : Fin 12, s = month mon ∧ m = mon.1 + 1 := by
  have hmem : (s, m) ∈ months := by
    obtain ⟨front, rest, heq, _⟩ := List.lookup_eq_some_iff.mp h
    rw [heq]
    exact List.mem_append_right _ List.mem_cons_self
  have hall : ∀ entry ∈ months, ∃ mon : Fin 12, entry.1 = month mon ∧ entry.2 = mon.1 + 1 := by
    decide
  exact hall _ hmem

theorem isLeap_iff (year : Nat) :
    isLeap year = true ↔ 4 ∣ year ∧ ¬ 100 ∣ year ∨ 400 ∣ year := by
  simp only [isLeap, Bool.or_eq_true, Bool.and_eq_true, beq_iff_eq, bne_iff_ne, ne_eq]
  omega

theorem days_eq (year : Nat) (mon : Fin 12) :
    (days (isLeap year)).getD (mon.1 + 1) 0 = monthLength year mon := by
  have hall : ∀ (leap : Bool) (mon : Fin 12), (days leap).getD (mon.1 + 1) 0 =
      ((if mon.val = 1 then if leap then 29 else 28
        else if mon.val = 3 ∨ mon.val = 5 ∨ mon.val = 8 ∨ mon.val = 10 then 30 else 31 : Nat) :
          Int) := by
    decide
  rw [hall, monthLength]
  simp only [isLeap_iff]

theorem monthLength_le (year : Nat) (mon : Fin 12) : monthLength year mon ≤ 31 := by
  rw [monthLength]
  split
  · split <;> decide
  · split <;> decide

private theorem checkTime_eq_true_iff (p : Bytes) :
    checkTime p = true ↔
      (p.getD 2 0 = COLON ∧ p.getD 5 0 = COLON ∧ p.getD 8 0 = SP) ∧
      (p.getD 0 0 ≠ 45 ∧ ¬ ((svtoi (p.take 2)).getD (-1) < 0 ∨ (svtoi (p.take 2)).getD 0 > 23)) ∧
      (p.getD 3 0 ≠ 45 ∧ ¬ ((svtoi ((p.drop 3).take 2)).getD (-1) < 0 ∨
        (svtoi ((p.drop 3).take 2)).getD 0 > 59)) ∧
      (p.getD 6 0 ≠ 45 ∧ ¬ ((svtoi ((p.drop 6).take 2)).getD (-1) < 0 ∨
        (svtoi ((p.drop 6).take 2)).getD 0 > 59)) ∧
      p.getD 9 0 = 71 ∧ p.getD 10 0 = 77 ∧ p.getD 11 0 = 80 := by
  unfold checkTime
  simp only [Bool.if_false_left, Bool.and_eq_true, Bool.not_eq_true', decide_eq_false_iff_not,
    beq_iff_eq]
  tauto

private theorem time_slices {p : Bytes} (hlen : p.length = 12) :
    p = p.take 2 ++ (p.getD 2 0 :: (p.drop 3).take 2 ++ (p.getD 5 0 :: (p.drop 6).take 2 ++
      (p.getD 8 0 :: [p.getD 9 0, p.getD 10 0, p.getD 11 0]))) := by
  match p, hlen with
  | [_, _, _, _, _, _, _, _, _, _, _, _], _ => rfl

theorem checkTime_iff {p : Bytes} (hlen : p.length = 12) :
    checkTime p = true ↔ ∃ hour min sec, hour < 24 ∧ min < 60 ∧ sec < 60 ∧
      p = padded 2 hour ++ (COLON :: padded 2 min ++ (COLON :: padded 2 sec ++
        (SP :: ascii "GMP"))) := by
  have hgetD : ∀ i, ((p.drop i).take 2).getD 0 0 = p.getD i 0 := by
    intro i
    simp [List.getD_eq_getElem?_getD]
  have hfield : ∀ (i bound : Nat), i + 2 ≤ 12 → bound < 100 →
      ((p.getD i 0 ≠ 45 ∧ ¬ ((svtoi ((p.drop i).take 2)).getD (-1) < 0 ∨
        (svtoi ((p.drop i).take 2)).getD 0 > bound)) ↔
          ∃ n, n < bound + 1 ∧ (p.drop i).take 2 = padded 2 n) := by
    intro i bound hi hbound
    rw [← hgetD]
    exact time_field_iff _ (by rw [List.length_take, List.length_drop]; omega) hbound
  rw [checkTime_eq_true_iff]
  constructor
  · rintro ⟨⟨h2, h5, h8⟩, hhour, hmin, hsec, h9, h10, h11⟩
    obtain ⟨hour, hhour, htext0⟩ := (hfield 0 23 (by decide) (by decide)).mp hhour
    obtain ⟨min, hmin, htext3⟩ := (hfield 3 59 (by decide) (by decide)).mp hmin
    obtain ⟨sec, hsec, htext6⟩ := (hfield 6 59 (by decide) (by decide)).mp hsec
    refine ⟨hour, min, sec, hhour, hmin, hsec, ?_⟩
    have htake : p.take 2 = padded 2 hour := htext0
    rw [time_slices hlen, h2, h5, h8, h9, h10, h11, htake, htext3, htext6]
    rfl
  · rintro ⟨hour, min, sec, hhour, hmin, hsec, heq⟩
    refine ⟨?_, (hfield 0 23 (by decide) (by decide)).mpr ⟨hour, hhour, ?_⟩,
      (hfield 3 59 (by decide) (by decide)).mpr ⟨min, hmin, ?_⟩,
      (hfield 6 59 (by decide) (by decide)).mpr ⟨sec, hsec, ?_⟩, ?_⟩
    · rw [heq]
      exact ⟨rfl, rfl, rfl⟩
    · rw [heq]
      rfl
    · rw [heq]
      rfl
    · rw [heq]
      rfl
    · rw [heq]
      exact ⟨rfl, rfl, rfl⟩

theorem checkDate_eq_true_iff (p : Bytes) :
    checkDate p = true ↔
      (p.getD 2 0 = SP ∧ p.getD 6 0 = SP ∧ p.getD 11 0 = SP) ∧
      ¬ (svtoi ((p.drop 7).take 4)).getD (-1) ≤ 0 ∧
      ∃ m, months.lookup ((p.drop 3).take 3) = some m ∧ ¬ (svtoi (p.take 2)).getD (-1) ≤ 0 ∧
        (svtoi (p.take 2)).getD 0 ≤
          (days (isLeap ((svtoi ((p.drop 7).take 4)).getD 0))).getD m 0 ∧
        checkTime (p.drop 12) = true := by
  unfold checkDate
  simp only [Bool.if_false_left, Bool.and_eq_true, Bool.not_eq_true', decide_eq_false_iff_not]
  cases months.lookup ((p.drop 3).take 3) with
  | none => simp
  | some m =>
      simp only [Bool.and_eq_true, Bool.not_eq_true', decide_eq_false_iff_not, Option.some.injEq,
        exists_eq_left', gt_iff_lt, not_lt, not_or]
      tauto

private theorem date_slices {p : Bytes} (hlen : p.length = 24) :
    p = p.take 2 ++ (p.getD 2 0 :: (p.drop 3).take 3 ++ (p.getD 6 0 :: (p.drop 7).take 4 ++
      (p.getD 11 0 :: p.drop 12))) := by
  match p, hlen with
  | [_, _, _, _, _, _, _, _, _, _, _, _, _, _, _, _, _, _, _, _, _, _, _, _], _ => rfl

theorem month_length (mon : Fin 12) : (month mon).length = 3 := by
  revert mon
  decide

private theorem checkDate_iff {p : Bytes} (hlen : p.length = 24) :
    checkDate p = true ↔ ∃ (mday year : Nat) (mon : Fin 12) (rest : Bytes),
      0 < mday ∧ mday ≤ monthLength year mon ∧ 0 < year ∧ year < 10000 ∧
      p = padded 2 mday ++ (SP :: month mon ++ (SP :: padded 4 year ++ (SP :: rest))) ∧
      checkTime rest = true := by
  have hday := date_field_iff (p.take 2) 2 (by rw [List.length_take]; omega) (by decide) (by decide)
  have hyear := date_field_iff ((p.drop 7).take 4) 4
    (by rw [List.length_take, List.length_drop]; omega) (by decide) (by decide)
  rw [checkDate_eq_true_iff]
  constructor
  · rintro ⟨⟨h2, h6, h11⟩, hyearpos, m, hlookup, hdaypos, hdayle, htime⟩
    obtain ⟨year, hpos, hlt, hyeartext⟩ := hyear.mp hyearpos
    obtain ⟨mday, hmday, hmlt, hdaytext⟩ := hday.mp hdaypos
    obtain ⟨mon, hmontext, rfl⟩ := months_lookup_inv hlookup
    rw [hyeartext, hdaytext, svtoi_padded (by decide) hmlt (by omega),
      svtoi_padded (by decide) hlt (by omega), Option.getD_some, Option.getD_some, days_eq] at hdayle
    refine ⟨mday, year, mon, p.drop 12, hmday, by omega, hpos, hlt, ?_, htime⟩
    rw [← hdaytext, ← hmontext, ← hyeartext, ← h2]
    nth_rewrite 1 [date_slices hlen]
    rw [h2, h6, h11]
  · rintro ⟨mday, year, mon, rest, hmday, hle, hpos, hlt, heq, htime⟩
    obtain ⟨a, b, c, hmon⟩ := List.length_eq_three.mp (month_length mon)
    have hdaytext : p.take 2 = padded 2 mday := by
      rw [heq]
      rfl
    have hyeartext : (p.drop 7).take 4 = padded 4 year := by
      rw [heq, hmon]
      rfl
    have hmontext : (p.drop 3).take 3 = month mon := by
      rw [heq, hmon]
      rfl
    have hrest : p.drop 12 = rest := by
      rw [heq, hmon]
      rfl
    have hmlt : mday < 10 ^ 2 := by
      have hmax := monthLength_le year mon
      omega
    refine ⟨?_, hyear.mpr ⟨year, hpos, hlt, hyeartext⟩, mon.1 + 1, ?_,
      hday.mpr ⟨mday, hmday, hmlt, hdaytext⟩, ?_, ?_⟩
    · rw [heq, hmon]
      exact ⟨rfl, rfl, rfl⟩
    · rw [hmontext, months_lookup]
    · rw [hyeartext, hdaytext, svtoi_padded (by decide) hmlt (by omega),
        svtoi_padded (by decide) hlt (by omega), Option.getD_some, Option.getD_some, days_eq]
      omega
    · rw [hrest]
      exact htime

private theorem wkday_length (wday : Fin 7) : (wkday wday).length = 3 := by
  revert wday
  decide

theorem checkDateFormat_iff (date : Bytes) :
    checkDateFormat date = true ↔ IsDate (ascii "GMP") date := by
  have hchecks : checkDateFormat date = true ↔ date.length = 29 ∧
      wkdays.contains (date.take 3) = true ∧ (date.getD 3 0 = 44 ∧ date.getD 4 0 = SP) ∧
        checkDate (date.drop 5) = true := by
    unfold checkDateFormat
    simp only [Bool.if_false_left, Bool.and_eq_true, Bool.not_eq_true', Bool.not_eq_false,
      decide_eq_false_iff_not]
    tauto
  rw [hchecks]
  constructor
  · rintro ⟨hlen, hwkday, ⟨h3, h4⟩, hdate⟩
    obtain ⟨wday, hwkday⟩ := (mem_wkdays_iff _).mp hwkday
    obtain ⟨mday, year, mon, rest, hmday, hmle, hpos, hlt, hbytes, htime⟩ :=
      (checkDate_iff (by rw [List.length_drop]; omega)).mp hdate
    have hrest : rest.length = 12 := by
      have hlength := congrArg List.length hbytes
      simp only [List.length_drop, List.length_append, List.length_cons, padded_length,
        month_length] at hlength
      omega
    obtain ⟨hour, min, sec, hhour, hmin, hsec, rfl⟩ := (checkTime_iff hrest).mp htime
    refine ⟨⟨wday, mday, mon, year, hour, min, sec⟩, ⟨hmday, hmle, hpos, hlt, hhour, hmin, hsec⟩, ?_⟩
    have hslices : date = date.take 3 ++ (date.getD 3 0 :: date.getD 4 0 :: date.drop 5) := by
      have hone : date.drop 3 = date.getD 3 0 :: date.drop 4 := by
        rw [List.drop_eq_getElem_cons (by omega), List.getD_eq_getElem?_getD,
          List.getElem?_eq_getElem (by omega)]
        rfl
      have htwo : date.drop 4 = date.getD 4 0 :: date.drop 5 := by
        rw [List.drop_eq_getElem_cons (by omega), List.getD_eq_getElem?_getD,
          List.getElem?_eq_getElem (by omega)]
        rfl
      rw [← htwo, ← hone, List.take_append_drop]
    rw [hslices, hwkday, h3, h4, hbytes]
    rfl
  · rintro ⟨tm, hvalid, rfl⟩
    obtain ⟨a, b, c, hwkday⟩ := List.length_eq_three.mp (wkday_length tm.wday)
    have hbody : (rfc1123 tm (ascii "GMP")).drop 5 = padded 2 tm.mday ++ (SP :: month tm.mon ++
        (SP :: padded 4 tm.year ++ (SP :: timeText tm (ascii "GMP")))) := by
      rw [rfc1123, hwkday]
      rfl
    have htimelen : (timeText tm (ascii "GMP")).length = 12 := by
      simp [timeText, padded_length, ascii]
    have hlen : (rfc1123 tm (ascii "GMP")).length = 29 := by
      simp [rfc1123, padded_length, month_length, wkday_length, htimelen]
    refine ⟨hlen, (mem_wkdays_iff _).mpr ⟨tm.wday, ?_⟩, ?_, ?_⟩
    · rw [rfc1123, hwkday]
      rfl
    · rw [rfc1123, hwkday]
      exact ⟨rfl, rfl⟩
    · have htime : checkTime (timeText tm (ascii "GMP")) = true :=
        (checkTime_iff htimelen).mpr ⟨tm.hour, tm.min, tm.sec, hvalid.hour_lt, hvalid.min_lt,
          hvalid.sec_lt, rfl⟩
      apply (checkDate_iff (by rw [List.length_drop, hlen])).mpr
      exact ⟨tm.mday, tm.year, tm.mon, timeText tm (ascii "GMP"), hvalid.mday_pos, hvalid.mday_le,
        hvalid.year_pos, hvalid.year_lt, hbody, htime⟩

private theorem rfc1123_getLast? (tm : Tm) {zone : Bytes} (hne : zone ≠ []) :
    (rfc1123 tm zone).getLast? = zone.getLast? := by
  have hsplit : ∃ front, rfc1123 tm zone = front ++ zone :=
    ⟨wkday tm.wday ++ (44 :: SP :: padded 2 tm.mday ++ (SP :: month tm.mon ++
      (SP :: padded 4 tm.year ++ (SP :: padded 2 tm.hour ++ (COLON :: padded 2 tm.min ++
        (COLON :: padded 2 tm.sec ++ [SP])))))), by simp [rfc1123, timeText]⟩
  obtain ⟨front, heq⟩ := hsplit
  rw [heq, List.getLast?_append_of_ne_nil _ hne]

theorem IsDate.getLast? {zone date : Bytes} (h : IsDate zone date) (hne : zone ≠ []) :
    date.getLast? = zone.getLast? := by
  obtain ⟨tm, _, rfl⟩ := h
  exact rfc1123_getLast? tm hne

theorem not_isDate_both {date : Bytes} (h : IsDate (ascii "GMT") date) :
    ¬ IsDate (ascii "GMP") date := by
  intro h'
  have hlast := (h.getLast? (by decide)).symm.trans (h'.getLast? (by decide))
  exact absurd hlast (by decide)

theorem checkDateFormat_formatDate (tm : Tm) : checkDateFormat (formatDate tm) = false := by
  rw [← Bool.not_eq_true, checkDateFormat_iff]
  intro h
  have hzone : (formatDate tm).getLast? = some 84 := by
    rw [formatDate, List.getLast?_append_of_ne_nil _ (by decide)]
    rfl
  have hlast := (h.getLast? (by decide)).symm.trans hzone
  exact absurd hlast (by decide)

theorem decimal_eq_padded {width n : Nat} (hlow : 10 ^ width ≤ n) (hhigh : n < 10 ^ (width + 1)) :
    decimal n = padded (width + 1) n := by
  have hlen : (decimal n).length = width + 1 := by
    have hle : (Nat.toDigits 10 n).length ≤ width + 1 :=
      (Nat.length_toDigits_le_iff (by decide) (by omega)).mpr hhigh
    have hgt : width < (Nat.toDigits 10 n).length := by
      rcases Nat.eq_zero_or_pos width with rfl | hpos
      · exact Nat.length_toDigits_pos
      · rw [← Nat.not_le, Nat.length_toDigits_le_iff (by decide) hpos]
        omega
    rw [decimal, List.length_map]
    omega
  have htext := (padded_ofDigits (decimal n) (decimal_digits n)).2
  rwa [ofDigits_decimal, hlen, eq_comm] at htext

private theorem twoDigits_eq_padded {n : Nat} (h : n < 100) : twoDigits n = padded 2 n := by
  have hall : ∀ n : Fin 100, twoDigits n.1 = padded 2 n.1 := by decide
  exact hall ⟨n, h⟩

theorem Tm.Valid.mday_lt {tm : Tm} (h : tm.Valid) : tm.mday < 100 := by
  have hle := h.mday_le
  have hmax := monthLength_le tm.year tm.mon
  omega

private theorem formatDate_isDate {tm : Tm} (h : tm.Valid) (hyear : 1000 ≤ tm.year) :
    IsDate (ascii "GMT") (formatDate tm) := by
  refine ⟨tm, h, ?_⟩
  have hyears : decimal tm.year = padded 4 tm.year := decimal_eq_padded hyear h.year_lt
  have hhour := h.hour_lt
  have hmin := h.min_lt
  have hsec := h.sec_lt
  rw [formatDate, twoDigits_eq_padded h.mday_lt, twoDigits_eq_padded (by omega),
    twoDigits_eq_padded (by omega), twoDigits_eq_padded (by omega), hyears]
  simp [rfc1123, timeText, ascii, SP, COLON]

/-- The checker agrees with the grammar on the strings that are no dates, with
`GMT` or with `GMP` at the end, and on no others; nothing that the formatter
makes is accepted. -/
theorem date_check_iff (date : Bytes) :
    ((checkDateFormat date = true ↔ IsDate (ascii "GMT") date) ↔
      ¬ IsDate (ascii "GMT") date ∧ ¬ IsDate (ascii "GMP") date) ∧
    ∀ tm : Tm, checkDateFormat (formatDate tm) = false ∧
      (tm.Valid → 1000 ≤ tm.year → IsDate (ascii "GMT") (formatDate tm)) := by
  refine ⟨?_, fun tm => ⟨checkDateFormat_formatDate tm, formatDate_isDate⟩⟩
  rw [checkDateFormat_iff]
  constructor
  · intro h
    have hgmt : ¬ IsDate (ascii "GMT") date := fun hdate => not_isDate_both hdate (h.mpr hdate)
    exact ⟨hgmt, fun hgmp => hgmt (h.mp hgmp)⟩
  · rintro ⟨hgmt, hgmp⟩
    exact iff_of_false hgmp hgmt

/-- The time of the example in the source, with Wednesday behind three days and
November in front of one month. -/
def exampleTm : Tm := ⟨(Fin.last 3).castAdd 3, 15, (Fin.last 10).castAdd 1, 1995, 6, 25, 24⟩

theorem exampleTm_valid : exampleTm.Valid := by
  constructor <;> decide

theorem example_formatted :
    checkDateFormat (formatDate exampleTm) = false ∧ IsDate (ascii "GMT") (formatDate exampleTm) :=
  have h := (date_check_iff []).2 exampleTm
  ⟨h.1, h.2 exampleTm_valid (by decide)⟩

theorem example_rejected :
    IsDate (ascii "GMT") (ascii "Wed, 15 Nov 1995 06:25:24 GMT") ∧
      checkDateFormat (ascii "Wed, 15 Nov 1995 06:25:24 GMT") = false ∧
      checkDateFormat (ascii "Wed, 15 Nov 1995 06:25:24 GMP") = true :=
  ⟨⟨exampleTm, exampleTm_valid, by decide⟩, by decide, by decide⟩

end Angel.Http
