import Angel.Util
import Angel.Lib.Loop

/-!
`split` as its loop, which looks for one separator after the other, and
`check_ip` on the pieces. The digits of a number without a leading zero are its
decimal representation.
-/

namespace Angel.Util

open Lib

/-- A pass of `split`: the piece from `p` to the next separator. -/
def splitPass (c : UInt8) (state : Bytes × List Bytes) :
    Pass (Bytes × List Bytes) (List Bytes) :=
  let (p, res) := state
  let sep := p.idxOf c
  let res := res ++ [p.take sep]
  if sep = p.length then .done res else .again (p.drop (sep + 1), res)

/-- `split`; every pass but the last takes a separator. -/
def splitLoop (s : Bytes) (c : UInt8) : Option (List Bytes) :=
  loop (splitPass c) (s.length + 1) (s, [])

def isDigits (s : Bytes) : Bool := !s.isEmpty && s.all isdigit

/-- What `check_ip` turns a field away for. -/
def badField (s : Bytes) : Bool :=
  s.isEmpty || !isDigits s || (1 < s.length && s.getD 0 0 = 48) || 255 < (svtoi s).getD 256

/-- The fields are between dots. -/
def checkIp (ipv4Addr : Bytes) : Bool :=
  let fields := split ipv4Addr 46
  fields.length = 4 && fields.all fun s => !badField s

/-- The pieces that have been found, and those of the rest. -/
def SplitInv (s : Bytes) (c : UInt8) (state : Bytes × List Bytes) : Prop :=
  state.2 ++ split state.1 c = split s c

private theorem splitPass_spec {c : UInt8} {s : Bytes} (state : Bytes × List Bytes)
    (hinv : SplitInv s c state) :
    (∃ state', splitPass c state = .again state' ∧ SplitInv s c state' ∧
      state'.1.length < state.1.length) ∨
    ∃ res, splitPass c state = .done res ∧ res = split s c := by
  obtain ⟨p, res⟩ := state
  change res ++ split p c = split s c at hinv
  by_cases hmem : c ∈ p
  · obtain ⟨front, rest, rfl, hfront⟩ := List.eq_append_cons_of_mem hmem
    have hsep : (front ++ c :: rest).idxOf c = front.length := idxOf_separator hfront rest
    have hinside : front.length ≠ (front ++ c :: rest).length := by
      rw [List.length_append, List.length_cons]
      omega
    have htake : (front ++ c :: rest).take front.length = front := List.take_left
    refine .inl ⟨(rest, res ++ [front]), ?_, ?_, ?_⟩
    · simp only [splitPass, hsep, hinside, if_false, htake, drop_separator]
    · change res ++ [front] ++ split rest c = split s c
      rw [← hinv, split_separator hfront, List.append_assoc, List.singleton_append]
    · change rest.length < (front ++ c :: rest).length
      rw [List.length_append, List.length_cons]
      omega
  · have hsep : p.idxOf c = p.length := List.idxOf_eq_length hmem
    rw [split_free hmem] at hinv
    refine .inr ⟨res ++ [p], ?_, hinv⟩
    simp only [splitPass, hsep, if_true, List.take_length]

private theorem splitLoop_eq (s : Bytes) (c : UInt8) : splitLoop s c = some (split s c) := by
  have hstart : SplitInv s c (s, []) := rfl
  obtain ⟨res, hloop, rfl⟩ : ∃ res, splitLoop s c = some res ∧ res = split s c :=
    loop_spec (fun state => state.1.length) splitPass_spec hstart (Nat.lt_succ_self _)
  exact hloop

private theorem length_split (s : Bytes) (c : UInt8) : (split s c).length = s.count c + 1 := by
  induction s using split_induction c with
  | free s hfree =>
      rw [split_free hfree, List.count_eq_zero_of_not_mem hfree]
      rfl
  | separator front rest hfront ih =>
      rw [split_separator hfront, List.length_cons, ih, List.count_append,
        List.count_eq_zero_of_not_mem hfront, List.count_cons_self, Nat.zero_add]

/-- Whatever the text, the loop finds its pieces: they are without the
separator, and the text is these pieces joined by it. -/
theorem split_inverts_join (s : Bytes) (c : UInt8) :
    ∃ pieces, splitLoop s c = some pieces ∧ pieces.length = s.count c + 1 ∧
      (∀ p ∈ pieces, c ∉ p) ∧ [c].intercalate pieces = s :=
  ⟨split s c, splitLoop_eq s c, length_split s c, notMem_of_mem_split c s, intercalate_split s c⟩

theorem decimal_of_lt {d : Nat} (h : d < 10) : decimal d = [48 + d.toUInt8] := by
  have hall : ∀ d : Fin 10, decimal d.val = [48 + d.val.toUInt8] := by decide
  exact hall ⟨d, h⟩

theorem decimal_snoc {n d : Nat} (hn : 0 < n) (hd : d < 10) :
    decimal (10 * n + d) = decimal n ++ decimal d := by
  rw [decimal, ← Nat.toDigits_append_toDigits (by decide) hn hd, List.map_append]
  rfl

theorem decimal_head {n : Nat} (hn : 0 < n) : (decimal n).getD 0 0 ≠ 48 := by
  induction n using Nat.strong_induction_on with
  | _ n ih =>
      by_cases hlt : n < 10
      · have hall : ∀ d : Fin 10, 0 < d.val → (decimal d.val).getD 0 0 ≠ 48 := by decide
        exact hall ⟨n, hlt⟩ hn
      · obtain ⟨m, d, hm, hd, rfl⟩ : ∃ m d, 0 < m ∧ d < 10 ∧ n = 10 * m + d :=
          ⟨n / 10, n % 10, by omega, by omega, by omega⟩
        obtain ⟨b, t, ht⟩ := List.exists_cons_of_ne_nil (decimal_ne_nil m)
        have hfirst := ih m (by omega) hm
        rw [ht] at hfirst
        rw [decimal_snoc hm hd, ht]
        exact hfirst

theorem digit_bounds {c : UInt8} (h : isdigit c = true) : 48 ≤ c.toNat ∧ c.toNat ≤ 57 := by
  simp only [isdigit, Bool.and_eq_true, decide_eq_true_eq, UInt8.le_iff_toNat_le] at h
  exact h

private theorem decimal_isdigit {c : UInt8} (h : isdigit c = true) :
    decimal (c.toNat - 48) = [c] := by
  obtain ⟨hlow, hhigh⟩ := digit_bounds h
  have h48 : (48 : UInt8).toNat = 48 := rfl
  rw [decimal_of_lt (by omega)]
  congr 1
  apply UInt8.toNat_inj.mp
  rw [UInt8.toNat_add, h48, UInt8.toNat_ofNat']
  omega

private theorem decimal_ofDigits {s : Bytes} (hne : s ≠ []) (hdigits : ∀ c ∈ s, isdigit c = true)
    (hzero : s.length ≤ 1 ∨ s.getD 0 0 ≠ 48) : decimal (ofDigits 10 s) = s := by
  induction s using List.reverseRecOn with
  | nil => exact absurd rfl hne
  | append_singleton t c ih =>
      have hc : isdigit c = true := hdigits c (by simp)
      rw [ofDigits_snoc, digit?_of_isdigit hc, Option.getD_some]
      cases t with
      | nil =>
          have hvalue : 10 * ofDigits 10 [] + (c.toNat - 48) = c.toNat - 48 := Nat.zero_add _
          rw [hvalue]
          exact decimal_isdigit hc
      | cons b t =>
          have hfirst : (b :: t).getD 0 0 ≠ 48 := by
            refine hzero.resolve_left ?_
            simp
          have hfront : decimal (ofDigits 10 (b :: t)) = b :: t :=
            ih (List.cons_ne_nil b t) (fun d hd => hdigits d (List.mem_append_left [c] hd))
              (.inr hfirst)
          have hpos : 0 < ofDigits 10 (b :: t) := by
            rcases Nat.eq_zero_or_pos (ofDigits 10 (b :: t)) with heq | hpos
            · rw [heq] at hfront
              exact absurd (congrArg (List.getD · 0 0) hfront.symm) hfirst
            · exact hpos
          have hdigit : c.toNat - 48 < 10 := by
            have hbounds := digit_bounds hc
            omega
          rw [decimal_snoc hpos hdigit, hfront, decimal_isdigit hc]

/-- A field that is kept is the representation of an octet. A field whose value
does not fit in an `int` stands for 256. -/
theorem badField_eq_false_iff (s : Bytes) :
    badField s = false ↔ ∃ n : Nat, n ≤ 255 ∧ s = decimal n := by
  constructor
  · intro h
    simp only [badField, isDigits, Bool.or_eq_false_iff, Bool.and_eq_false_iff,
      decide_eq_false_iff_not, Bool.not_eq_false', Bool.and_eq_true, Bool.not_eq_true',
      List.isEmpty_eq_false_iff, not_lt] at h
    obtain ⟨⟨⟨hne, -, hdigits⟩, hzero⟩, hvalue⟩ := h
    cases hconv : svtoi s with
    | none =>
        rw [hconv] at hvalue
        exact absurd hvalue (by decide)
    | some v =>
        have hsign : s.getD 0 0 ≠ 45 := by
          obtain ⟨b, t, rfl⟩ := List.exists_cons_of_ne_nil hne
          rintro rfl
          exact absurd hdigits (by simp [isdigit])
        obtain ⟨-, -, hv, -⟩ := svtointegral_inv hconv (.inr hsign)
        rw [hconv, Option.getD_some, hv] at hvalue
        refine ⟨ofDigits 10 s, by omega, ?_⟩
        exact (decimal_ofDigits hne (List.all_eq_true.mp hdigits) (by omega)).symm
  · rintro ⟨n, hn, rfl⟩
    have hlead : (decimal n).length ≤ 1 ∨ (decimal n).getD 0 0 ≠ 48 := by
      rcases Nat.eq_zero_or_pos n with rfl | hpos
      · exact .inl (by decide)
      · exact .inr (decimal_head hpos)
    have hconv : svtoi (decimal n) = some (n : Int) := svtoi_decimal (hn.trans (by decide))
    have hempty : (decimal n).isEmpty = false := List.isEmpty_eq_false_iff.mpr (decimal_ne_nil n)
    simp only [badField, isDigits, hempty, decimal_digits, hconv, Option.getD_some,
      Bool.or_eq_false_iff, decide_eq_false_iff_not]
    refine ⟨⟨⟨trivial, rfl⟩, ?_⟩, by omega⟩
    rw [Bool.and_eq_false_iff, decide_eq_false_iff_not, decide_eq_false_iff_not, not_lt]
    exact hlead

private theorem split_quad {p q r t : Bytes} (hp : 46 ∉ p) (hq : 46 ∉ q) (hr : 46 ∉ r)
    (ht : 46 ∉ t) :
    split (p ++ ascii "." ++ q ++ ascii "." ++ r ++ ascii "." ++ t) 46 = [p, q, r, t] := by
  have hdot : ascii "." = [46] := rfl
  simp only [hdot, List.append_assoc, List.cons_append, List.nil_append]
  rw [split_separator hp, split_separator hq, split_separator hr, split_free ht]

/-- `check_ip` takes the dotted quads, in their canonical form only. -/
theorem checkIp_iff (s : Bytes) :
    checkIp s = true ↔ ∃ a b c d : Nat, a ≤ 255 ∧ b ≤ 255 ∧ c ≤ 255 ∧ d ≤ 255 ∧
      s = decimal a ++ ascii "." ++ decimal b ++ ascii "." ++ decimal c ++ ascii "." ++ decimal d := by
  simp only [checkIp, Bool.and_eq_true, decide_eq_true_eq, List.all_eq_true, Bool.not_eq_true',
    badField_eq_false_iff]
  constructor
  · rintro ⟨hcount, hfields⟩
    obtain ⟨p, q, r, t, hsplit⟩ := List.length_eq_four.mp hcount
    rw [hsplit] at hfields
    obtain ⟨a, ha, rfl⟩ := hfields p (by simp)
    obtain ⟨b, hb, rfl⟩ := hfields q (by simp)
    obtain ⟨c, hc, rfl⟩ := hfields r (by simp)
    obtain ⟨d, hd, rfl⟩ := hfields t (by simp)
    have hjoin := intercalate_split s 46
    rw [hsplit] at hjoin
    refine ⟨a, b, c, d, ha, hb, hc, hd, ?_⟩
    rw [← hjoin]
    simp [List.intercalate, ascii]
  · rintro ⟨a, b, c, d, ha, hb, hc, hd, rfl⟩
    have hdot : ∀ n, 46 ∉ decimal n := notMem_decimal rfl
    rw [split_quad (hdot a) (hdot b) (hdot c) (hdot d)]
    refine ⟨rfl, ?_⟩
    intro field hfield
    simp only [List.mem_cons, List.not_mem_nil, or_false] at hfield
    rcases hfield with rfl | rfl | rfl | rfl
    · exact ⟨a, ha, rfl⟩
    · exact ⟨b, hb, rfl⟩
    · exact ⟨c, hc, rfl⟩
    · exact ⟨d, hd, rfl⟩

end Angel.Util
