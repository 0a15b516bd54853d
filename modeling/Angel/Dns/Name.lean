import Angel.Basic
import Angel.Sockops
import Angel.Lib.Acyclic
import Mathlib.Data.UInt

/-!
Domain names in a datagram: `parse_dns_name` of `resolver.cc` with its
compression pointers, and the path that it takes through the datagram. A cursor
is an offset into the datagram. The call returns unless that path comes back to
a place it has passed.
-/

namespace Angel.Dns

open Angel.Lib

/-- `u16` and `u32`: the integer whose bytes stand at `p`. -/
def u16 (d : Bytes) (p : Nat) : Nat := load ((d.drop p).take 2)

def u32 (d : Bytes) (p : Nat) : Nat := load ((d.drop p).take 4)

/-- What the `while` loop of `parse_dns_name` comes to. -/
inductive Scan where
  /-- A return of `text`, with the cursor the caller sees. -/
  | done (text : Bytes) (cur : Nat)
  | assertFailed
  /-- The recursive call at `p`, to be put behind `res`. -/
  | follow (res : Bytes) (p : Nat) (cur : Nat)
  deriving DecidableEq, Repr

/-- The `while` loop; `steps` bounds its passes, each of which moves the cursor. -/
def scan (d : Bytes) : Nat → Nat → Bytes → Scan
  | 0, cur, _ => .done [] cur
  | steps + 1, cur, res =>
      if cur < d.length then
        let byte := d.getD cur 0
        if byte &&& 0xc0 = 0xc0 then
          if cur + 2 > d.length then .done [] cur
          else
            let offset := Sockops.ntohs (u16 d cur) &&& 0x3fff
            if offset ≥ d.length then .done [] (cur + 2) else .follow res offset (cur + 2)
        else
          let count := byte.toNat
          if count = 0 then
            -- `res.back()` of an empty string is not a dot either.
            if res.getLast? = some DOT then .done res (cur + 1) else .assertFailed
          else if cur + 1 + count ≥ d.length then .done [] (cur + 1)
          else scan d steps (cur + 1 + count) (res ++ (d.drop (cur + 1)).take count ++ [DOT])
      else .done [] cur

/-- How a call of `parse_dns_name` ends: the string it returns and the cursor,
or a failed `Assert`. -/
inductive Parsed where
  | name (text : Bytes) (cur : Nat)
  | assertFailed
  deriving DecidableEq, Repr

/-- `parse_dns_name`; `fuel` bounds the depth of the recursion. -/
def parseDnsName (d : Bytes) : Nat → Nat → Option Parsed
  | 0, _ => none
  | fuel + 1, cur =>
      match scan d (d.length - cur) cur [] with
      | .done text cur => some (.name text cur)
      | .assertFailed => some .assertFailed
      | .follow res p cur =>
          match parseDnsName d fuel p with
          | none => none
          | some .assertFailed => some .assertFailed
          | some (.name text _) => some (.name (res ++ text) cur)

/-- The call at `cur` ends with `o`. -/
def Returns (d : Bytes) (cur : Nat) (o : Parsed) : Prop := ∃ fuel, parseDnsName d fuel cur = some o

/-- The octet at `cur`. -/
def octet (d : Bytes) (cur : Nat) : Nat := (d.getD cur 0).toNat

/-- The integer of `n` octets at `cur`, the high octet first. -/
def field (d : Bytes) (cur n : Nat) : Nat := load ((d.drop cur).take n).reverse

def ZeroAt (d : Bytes) (cur : Nat) : Prop := cur < d.length ∧ octet d cur = 0

/-- A length octet below the pointers' and that many octets, with more behind
them. -/
def LabelAt (d : Bytes) (cur : Nat) : Prop :=
  0 < octet d cur ∧ octet d cur < 192 ∧ cur + 1 + octet d cur < d.length

def PointerAt (d : Bytes) (cur p : Nat) : Prop :=
  192 ≤ octet d cur ∧ cur + 2 ≤ d.length ∧ p = field d cur 2 % 2 ^ 14 ∧ p < d.length

/-- Nothing that a name can go on with; `next` is where the code leaves the
cursor. -/
inductive Broken (d : Bytes) : (cur next : Nat) → Prop where
  | past {cur : Nat} (h : d.length ≤ cur) : Broken d cur cur
  | halfPointer {cur : Nat} (h : 192 ≤ octet d cur) (hlen : cur + 1 = d.length) : Broken d cur cur
  | outside {cur : Nat} (h : 192 ≤ octet d cur) (hlen : cur + 2 ≤ d.length)
      (hp : d.length ≤ field d cur 2 % 2 ^ 14) : Broken d cur (cur + 2)
  | overrun {cur : Nat} (hpos : 0 < octet d cur) (h : octet d cur < 192)
      (hlen : d.length ≤ cur + 1 + octet d cur) : Broken d cur (cur + 1)

theorem lt_length_of_octet_pos {d : Bytes} {cur : Nat} (h : 0 < octet d cur) : cur < d.length := by
  by_contra hout
  rw [octet, List.getD_eq_default _ _ (by omega)] at h
  exact Nat.lt_irrefl 0 h

theorem position_cases (d : Bytes) (cur : Nat) :
    ZeroAt d cur ∨ LabelAt d cur ∨ (∃ p, PointerAt d cur p) ∨ ∃ next, Broken d cur next := by
  rcases Nat.lt_or_ge cur d.length with hcur | hcur
  · rcases Nat.lt_or_ge (octet d cur) 192 with hlabel | hpointer
    · rcases Nat.eq_zero_or_pos (octet d cur) with hzero | hpos
      · exact .inl ⟨hcur, hzero⟩
      · rcases Nat.lt_or_ge (cur + 1 + octet d cur) d.length with hin | hout
        · exact .inr (.inl ⟨hpos, hlabel, hin⟩)
        · exact .inr (.inr (.inr ⟨_, .overrun hpos hlabel hout⟩))
    · rcases Nat.lt_or_ge (cur + 1) d.length with htwo | hone
      · rcases Nat.lt_or_ge (field d cur 2 % 2 ^ 14) d.length with hin | hout
        · exact .inr (.inr (.inl ⟨_, hpointer, htwo, rfl, hin⟩))
        · exact .inr (.inr (.inr ⟨_, .outside hpointer htwo hout⟩))
      · exact .inr (.inr (.inr ⟨_, .halfPointer hpointer (by omega)⟩))
  · exact .inr (.inr (.inr ⟨_, .past hcur⟩))

theorem pointerBits_iff (b : UInt8) : b &&& 0xc0 = 0xc0 ↔ 192 ≤ b.toNat := by
  have h : ∀ n : Fin 256, UInt8.ofFin n &&& 0xc0 = 0xc0 ↔ 192 ≤ (UInt8.ofFin n).toNat := by
    decide +kernel
  exact h b.toFin

theorem not_pointerBits {d : Bytes} {cur : Nat} (h : octet d cur < 192) :
    ¬ (d.getD cur 0 &&& 0xc0 = 0xc0) := by
  rw [pointerBits_iff, ← octet]
  omega

private theorem length_take_two {d : Bytes} {cur : Nat} (h : cur + 2 ≤ d.length) :
    ((d.drop cur).take 2).length = 2 := by
  rw [List.length_take, List.length_drop]
  omega

theorem ntohs_u16 {d : Bytes} {cur : Nat} (h : cur + 2 ≤ d.length) :
    Sockops.ntohs (u16 d cur) = field d cur 2 := by
  have hload := Sockops.hton_load ((d.drop cur).take 2)
  rwa [length_take_two h] at hload

theorem offset_eq {d : Bytes} {cur : Nat} (h : cur + 2 ≤ d.length) :
    Sockops.ntohs (u16 d cur) &&& 0x3fff = field d cur 2 % 2 ^ 14 := by
  rw [ntohs_u16 h]
  exact Nat.and_two_pow_sub_one_eq_mod _ 14

section

variable {d : Bytes} {cur : Nat} (steps : Nat) (res : Bytes)

theorem scan_zero (h : ZeroAt d cur) :
    scan d (steps + 1) cur res =
      if res.getLast? = some DOT then .done res (cur + 1) else .assertFailed := by
  obtain ⟨hcur, hzero⟩ := h
  have hlabel : octet d cur < 192 := by omega
  rw [scan, if_pos hcur]
  simp only [if_neg (not_pointerBits hlabel)]
  exact if_pos hzero

theorem scan_label (h : LabelAt d cur) :
    scan d (steps + 1) cur res =
      scan d steps (cur + 1 + octet d cur)
        (res ++ (d.drop (cur + 1)).take (octet d cur) ++ [DOT]) := by
  obtain ⟨hpos, hlabel, hin⟩ := h
  have hne : octet d cur ≠ 0 := by omega
  have hnotover : ¬ cur + 1 + octet d cur ≥ d.length := by omega
  rw [scan, if_pos (by omega)]
  simp only [if_neg (not_pointerBits hlabel)]
  rw [← octet, if_neg hne, if_neg hnotover]

theorem scan_pointer {p : Nat} (h : PointerAt d cur p) :
    scan d (steps + 1) cur res = .follow res p (cur + 2) := by
  obtain ⟨hpointer, hlen, rfl, hin⟩ := h
  have hbits : d.getD cur 0 &&& 0xc0 = 0xc0 := (pointerBits_iff _).mpr hpointer
  rw [scan, if_pos (by omega)]
  simp only [if_pos hbits, offset_eq hlen]
  rw [if_neg (by omega), if_neg (by omega)]

theorem scan_broken {next : Nat} (h : Broken d cur next) (hsteps : d.length ≤ cur + steps) :
    scan d steps cur res = .done [] next := by
  cases steps with
  | zero =>
      cases h with
      | past hpast => rfl
      | halfPointer hpointer hlen => omega
      | outside hpointer hlen hp => omega
      | overrun hpos hlabel hlen =>
          have hcur := lt_length_of_octet_pos hpos
          omega
  | succ steps =>
      cases h with
      | past hpast => rw [scan, if_neg (by omega)]
      | halfPointer hpointer hlen =>
          have hbits : d.getD cur 0 &&& 0xc0 = 0xc0 := (pointerBits_iff _).mpr hpointer
          rw [scan, if_pos (by omega)]
          simp only [if_pos hbits]
          rw [if_pos (by omega)]
      | outside hpointer hlen hp =>
          have hbits : d.getD cur 0 &&& 0xc0 = 0xc0 := (pointerBits_iff _).mpr hpointer
          rw [scan, if_pos (by omega)]
          simp only [if_pos hbits, offset_eq hlen]
          rw [if_neg (by omega), if_pos hp]
      | overrun hpos hlabel hlen =>
          have hne : octet d cur ≠ 0 := by omega
          rw [scan, if_pos (lt_length_of_octet_pos hpos)]
          simp only [if_neg (not_pointerBits hlabel)]
          rw [← octet, if_neg hne, if_pos hlen]

end

/-- What a name is read from: the text of a label, or a pointer followed. -/
inductive Move where
  | label (text : Bytes)
  | pointer
  deriving DecidableEq, Repr

/-- Where the reading of a name ends. -/
inductive End where
  | zero
  | broken
  deriving DecidableEq, Repr

/-- The labels and pointers met from `cur` on, what they end in, and the cursor
behind the first pointer or the end. -/
inductive Path (d : Bytes) : (cur : Nat) → List Move → End → (next : Nat) → Prop where
  | zero {cur : Nat} (h : ZeroAt d cur) : Path d cur [] .zero (cur + 1)
  | broken {cur next : Nat} (h : Broken d cur next) : Path d cur [] .broken next
  | label {cur next : Nat} {moves : List Move} {fin : End} (h : LabelAt d cur)
      (rest : Path d (cur + 1 + octet d cur) moves fin next) :
      Path d cur (.label ((d.drop (cur + 1)).take (octet d cur)) :: moves) fin next
  | pointer {cur p next : Nat} {moves : List Move} {fin : End} (h : PointerAt d cur p)
      (rest : Path d p moves fin next) : Path d cur (.pointer :: moves) fin (cur + 2)

/-- Where the code goes on from `cur`. -/
def LeadsTo (d : Bytes) (next cur : Nat) : Prop :=
  LabelAt d cur ∧ next = cur + 1 + octet d cur ∨ PointerAt d cur next

theorem leadsTo_lt {d : Bytes} {cur next : Nat} (h : LeadsTo d next cur) : next < d.length := by
  rcases h with ⟨⟨_, _, hin⟩, rfl⟩ | ⟨_, _, _, hin⟩
  · exact hin
  · exact hin

theorem leadsTo_label {d : Bytes} {cur next : Nat} (h : LabelAt d cur) :
    LeadsTo d next cur ↔ next = cur + 1 + octet d cur := by
  constructor
  · rintro (⟨_, heq⟩ | hpointer)
    · exact heq
    · have hlow := h.2.1
      have hhigh := hpointer.1
      omega
  · intro heq
    exact .inl ⟨h, heq⟩

theorem leadsTo_pointer {d : Bytes} {cur p next : Nat} (h : PointerAt d cur p) :
    LeadsTo d next cur ↔ next = p := by
  constructor
  · rintro (⟨hlabel, _⟩ | hpointer)
    · have hlow := hlabel.2.1
      have hhigh := h.1
      omega
    · exact hpointer.2.2.1.trans h.2.2.1.symm
  · intro heq
    exact .inr (heq ▸ h)

theorem not_leadsTo_zero {d : Bytes} {cur next : Nat} (h : ZeroAt d cur) :
    ¬ LeadsTo d next cur := by
  have hzero := h.2
  rintro (⟨hlabel, _⟩ | hpointer)
  · have hpos := hlabel.1
    omega
  · have hhigh := hpointer.1
    omega

theorem not_leadsTo_broken {d : Bytes} {cur next c : Nat} (h : Broken d cur c) :
    ¬ LeadsTo d next cur := by
  rintro (⟨⟨hpos, hlow, hin⟩, _⟩ | ⟨hhigh, hlen, hp, hin⟩)
  · cases h with
    | past h => exact absurd (lt_length_of_octet_pos hpos) (by omega)
    | halfPointer h => omega
    | outside h => omega
    | overrun _ _ h => omega
  · cases h with
    | past h => omega
    | halfPointer _ h => omega
    | outside _ _ h => omega
    | overrun _ h => omega

theorem exists_path_iff_acc (d : Bytes) (cur : Nat) :
    (∃ moves fin next, Path d cur moves fin next) ↔ Acc (LeadsTo d) cur := by
  constructor
  · rintro ⟨moves, fin, next, h⟩
    induction h with
    | zero h => exact Acc.intro _ fun next hnext => absurd hnext (not_leadsTo_zero h)
    | broken h => exact Acc.intro _ fun next hnext => absurd hnext (not_leadsTo_broken h)
    | label h _ ih => exact Acc.intro _ fun next hnext => (leadsTo_label h).mp hnext ▸ ih
    | pointer h _ ih => exact Acc.intro _ fun next hnext => (leadsTo_pointer h).mp hnext ▸ ih
  · intro h
    induction h with
    | intro cur _ ih =>
        rcases position_cases d cur with hzero | hlabel | ⟨p, hpointer⟩ | ⟨next, hbroken⟩
        · exact ⟨_, _, _, .zero hzero⟩
        · obtain ⟨moves, fin, next, hrest⟩ := ih _ ((leadsTo_label hlabel).mpr rfl)
          exact ⟨_, _, _, .label hlabel hrest⟩
        · obtain ⟨moves, fin, next, hrest⟩ := ih _ ((leadsTo_pointer hpointer).mpr rfl)
          exact ⟨_, _, _, .pointer hpointer hrest⟩
        · exact ⟨_, _, _, .broken hbroken⟩

theorem acc_iff_acyclic_leadsTo (d : Bytes) (cur : Nat) :
    Acc (LeadsTo d) cur ↔ Acyclic (LeadsTo d) cur := by
  apply acc_iff_acyclic
  apply Set.Finite.subset (Set.finite_lt_nat d.length)
  intro next hnext
  obtain ⟨c, hstep, _⟩ := Relation.TransGen.head'_iff.mp hnext
  exact leadsTo_lt hstep

/-- What a call returns for the rest of a path when `res` has been collected;
`none` is the failed assertion. -/
def spelled : List Move → End → Bytes → Option Bytes
  | [], .zero, res => if res.getLast? = some DOT then some res else none
  | [], .broken, _ => some []
  | .label text :: moves, fin, res => spelled moves fin (res ++ text ++ [DOT])
  | .pointer :: moves, fin, res => (spelled moves fin []).map (res ++ ·)

def Parsed.ofSpelled : Option Bytes → Nat → Parsed
  | none, _ => .assertFailed
  | some text, next => .name text next

/-- The end of a call once its loop is over. -/
def resume (d : Bytes) (fuel : Nat) : Scan → Option Parsed
  | .done text cur => some (.name text cur)
  | .assertFailed => some .assertFailed
  | .follow res p cur =>
      match parseDnsName d fuel p with
      | none => none
      | some .assertFailed => some .assertFailed
      | some (.name text _) => some (.name (res ++ text) cur)

theorem parseDnsName_succ (d : Bytes) (fuel cur : Nat) :
    parseDnsName d (fuel + 1) cur = resume d fuel (scan d (d.length - cur) cur []) := rfl

private theorem resume_of_path {d : Bytes} {cur : Nat} {moves : List Move} {fin : End} {next : Nat}
    (h : Path d cur moves fin next) :
    ∃ fuel, ∀ steps res, d.length ≤ cur + steps →
      resume d fuel (scan d steps cur res) = some (.ofSpelled (spelled moves fin res) next) := by
  induction h with
  | zero h =>
      refine ⟨0, fun steps res hsteps => ?_⟩
      obtain ⟨steps, rfl⟩ := Nat.exists_eq_succ_of_ne_zero (n := steps) (by have := h.1; omega)
      rw [scan_zero steps res h, spelled]
      split <;> rfl
  | broken h =>
      refine ⟨0, fun steps res hsteps => ?_⟩
      rw [scan_broken steps res h hsteps]
      rfl
  | label h _ ih =>
      obtain ⟨fuel, ih⟩ := ih
      refine ⟨fuel, fun steps res hsteps => ?_⟩
      obtain ⟨steps, rfl⟩ := Nat.exists_eq_succ_of_ne_zero (n := steps) (by have := h.2.2; omega)
      rw [scan_label steps res h, ih _ _ (by omega), spelled]
  | pointer h _ ih =>
      obtain ⟨fuel, ih⟩ := ih
      refine ⟨fuel + 1, fun steps res hsteps => ?_⟩
      obtain ⟨steps, rfl⟩ := Nat.exists_eq_succ_of_ne_zero (n := steps) (by have := h.2.1; omega)
      rw [scan_pointer steps res h, resume, parseDnsName_succ, ih _ _ (by omega), spelled]
      cases spelled _ _ [] <;> rfl

theorem returns_of_path {d : Bytes} {cur : Nat} {moves : List Move} {fin : End} {next : Nat}
    (h : Path d cur moves fin next) :
    Returns d cur (.ofSpelled (spelled moves fin []) next) := by
  obtain ⟨fuel, hfuel⟩ := resume_of_path h
  exact ⟨fuel + 1, hfuel _ _ (by omega)⟩

/-- One pass over the labels reaches the end of the path or the pointer it goes
on at. -/
theorem path_of_scan (d : Bytes) (steps cur : Nat) (res : Bytes) (hsteps : d.length ≤ cur + steps)
    (hfollow : ∀ res' p c, scan d steps cur res = .follow res' p c →
      ∃ moves fin next, Path d p moves fin next) :
    ∃ moves fin next, Path d cur moves fin next := by
  induction steps generalizing cur res with
  | zero => exact ⟨_, _, _, .broken (.past hsteps)⟩
  | succ steps ih =>
      rcases position_cases d cur with hzero | hlabel | ⟨p, hpointer⟩ | ⟨next, hbroken⟩
      · exact ⟨_, _, _, .zero hzero⟩
      · rw [scan_label steps res hlabel] at hfollow
        obtain ⟨moves, fin, next, hrest⟩ := ih _ _ (by omega) hfollow
        exact ⟨_, _, _, .label hlabel hrest⟩
      · obtain ⟨moves, fin, next, hrest⟩ := hfollow _ _ _ (scan_pointer steps res hpointer)
        exact ⟨_, _, _, .pointer hpointer hrest⟩
      · exact ⟨_, _, _, .broken hbroken⟩

theorem exists_path_of_returns {d : Bytes} {cur : Nat} {o : Parsed} (h : Returns d cur o) :
    ∃ moves fin next, Path d cur moves fin next := by
  obtain ⟨fuel, hfuel⟩ := h
  induction fuel generalizing cur o with
  | zero => cases hfuel
  | succ fuel ih =>
      refine path_of_scan d (d.length - cur) cur [] (by omega) fun res p c hscan => ?_
      rw [parseDnsName_succ, hscan, resume] at hfuel
      cases hinner : parseDnsName d fuel p with
      | none =>
          rw [hinner] at hfuel
          cases hfuel
      | some inner => exact ih hinner

/-- The call at `cur` returns unless the labels and pointers it meets come back
to a place already passed. -/
theorem parseDnsName_returns_iff (d : Bytes) (cur : Nat) :
    (∃ o, Returns d cur o) ↔ Acyclic (LeadsTo d) cur := by
  rw [← acc_iff_acyclic_leadsTo, ← exists_path_iff_acc]
  constructor
  · rintro ⟨o, h⟩
    exact exists_path_of_returns h
  · rintro ⟨moves, fin, next, h⟩
    exact ⟨_, returns_of_path h⟩

/-- A pointer to itself is followed for ever. -/
theorem parseDnsName_self_pointer : ¬ ∃ o, Returns [0xc0, 0x00] 0 o := by
  have hnone : ∀ fuel, parseDnsName [0xc0, 0x00] fuel 0 = none := by
    intro fuel
    induction fuel with
    | zero => rfl
    | succ fuel ih =>
        have hscan : scan [0xc0, 0x00] (([0xc0, 0x00] : Bytes).length - 0) 0 [] =
            .follow [] 0 2 := by decide
        rw [parseDnsName_succ, hscan, resume, ih]
  rintro ⟨o, fuel, h⟩
  rw [hnone fuel] at h
  cases h

private theorem parseDnsName_mono {d : Bytes} {fuel cur : Nat} {o : Parsed}
    (h : parseDnsName d fuel cur = some o) : parseDnsName d (fuel + 1) cur = some o := by
  induction fuel generalizing cur o with
  | zero => cases h
  | succ fuel ih =>
      rw [parseDnsName_succ] at h ⊢
      cases hscan : scan d (d.length - cur) cur [] with
      | done text next =>
          rw [hscan] at h
          exact h
      | assertFailed =>
          rw [hscan] at h
          exact h
      | follow res p next =>
          rw [hscan, resume] at h
          rw [resume]
          cases hinner : parseDnsName d fuel p with
          | none =>
              rw [hinner] at h
              cases h
          | some inner =>
              rw [hinner] at h
              rw [ih hinner]
              exact h

theorem parseDnsName_le {d : Bytes} {fuel fuel' cur : Nat} {o : Parsed} (hle : fuel ≤ fuel')
    (h : parseDnsName d fuel cur = some o) : parseDnsName d fuel' cur = some o := by
  induction hle with
  | refl => exact h
  | step _ ih => exact parseDnsName_mono ih

theorem returns_unique {d : Bytes} {cur : Nat} {o o' : Parsed} (h : Returns d cur o)
    (h' : Returns d cur o') : o = o' := by
  obtain ⟨fuel, hfuel⟩ := h
  obtain ⟨fuel', hfuel'⟩ := h'
  have hmax := parseDnsName_le (Nat.le_max_left fuel fuel') hfuel
  have hmax' := parseDnsName_le (Nat.le_max_right fuel fuel') hfuel'
  exact Option.some.inj (hmax.symm.trans hmax')

private theorem not_broken_zero {d : Bytes} {cur next : Nat} (h : ZeroAt d cur) :
    ¬ Broken d cur next := by
  obtain ⟨hcur, hzero⟩ := h
  intro hbroken
  cases hbroken with
  | past h => omega
  | halfPointer h => omega
  | outside h => omega
  | overrun h => omega

private theorem broken_unique {d : Bytes} {cur next next' : Nat} (h : Broken d cur next)
    (h' : Broken d cur next') : next = next' := by
  have hpos : 0 < octet d cur → cur < d.length := lt_length_of_octet_pos
  cases h <;> cases h' <;> omega

theorem path_unique {d : Bytes} {cur next next' : Nat} {moves moves' : List Move} {fin fin' : End}
    (h : Path d cur moves fin next) (h' : Path d cur moves' fin' next') :
    moves = moves' ∧ fin = fin' ∧ next = next' := by
  induction h generalizing moves' fin' next' with
  | zero hzero =>
      cases h' with
      | zero _ => exact ⟨rfl, rfl, rfl⟩
      | broken hbroken => exact absurd hbroken (not_broken_zero hzero)
      | label hlabel _ => exact absurd ((leadsTo_label hlabel).mpr rfl) (not_leadsTo_zero hzero)
      | pointer hpointer _ =>
          exact absurd ((leadsTo_pointer hpointer).mpr rfl) (not_leadsTo_zero hzero)
  | broken hbroken =>
      cases h' with
      | zero hzero => exact absurd hbroken (not_broken_zero hzero)
      | broken hbroken' => exact ⟨rfl, rfl, broken_unique hbroken hbroken'⟩
      | label hlabel _ => exact absurd ((leadsTo_label hlabel).mpr rfl) (not_leadsTo_broken hbroken)
      | pointer hpointer _ =>
          exact absurd ((leadsTo_pointer hpointer).mpr rfl) (not_leadsTo_broken hbroken)
  | label hlabel _ ih =>
      cases h' with
      | zero hzero => exact absurd ((leadsTo_label hlabel).mpr rfl) (not_leadsTo_zero hzero)
      | broken hbroken => exact absurd ((leadsTo_label hlabel).mpr rfl) (not_leadsTo_broken hbroken)
      | label _ hrest =>
          obtain ⟨rfl, rfl, rfl⟩ := ih hrest
          exact ⟨rfl, rfl, rfl⟩
      | pointer hpointer _ =>
          have hlow := hlabel.2.1
          have hhigh := hpointer.1
          omega
  | pointer hpointer _ ih =>
      cases h' with
      | zero hzero => exact absurd ((leadsTo_pointer hpointer).mpr rfl) (not_leadsTo_zero hzero)
      | broken hbroken =>
          exact absurd ((leadsTo_pointer hpointer).mpr rfl) (not_leadsTo_broken hbroken)
      | label hlabel _ =>
          have hlow := hlabel.2.1
          have hhigh := hpointer.1
          omega
      | pointer hpointer' hrest =>
          obtain rfl := hpointer'.2.2.1.trans hpointer.2.2.1.symm
          obtain ⟨rfl, rfl, _⟩ := ih hrest
          exact ⟨rfl, rfl, rfl⟩

end Angel.Dns
