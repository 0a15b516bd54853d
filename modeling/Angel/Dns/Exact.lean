import Angel.Dns.Name

/-!
Well-formed domain names, and when `parse_dns_name` is exact on them: what it
returns for a path that ends in a zero octet and for one that breaks off.
-/

namespace Angel.Dns

open Angel.Lib

/-- The labels of the domain name at `cur` and the cursor behind its first
pointer or its zero octet. -/
inductive NameAt (d : Bytes) : (cur : Nat) → (labels : List Bytes) → (next : Nat) → Prop where
  | zero {cur : Nat} (h : ZeroAt d cur) : NameAt d cur [] (cur + 1)
  | label {cur next : Nat} {labels : List Bytes} (hpos : 1 ≤ octet d cur) (hmax : octet d cur ≤ 63)
      (rest : NameAt d (cur + 1 + octet d cur) labels next) :
      NameAt d cur ((d.drop (cur + 1)).take (octet d cur) :: labels) next
  | pointer {cur p next : Nat} {labels : List Bytes} (h : PointerAt d cur p)
      (rest : NameAt d p labels next) : NameAt d cur labels (cur + 2)

/-- Each label followed by a dot. -/
def dotted (labels : List Bytes) : Bytes := labels.flatMap (· ++ [DOT])

/-- The labels among the moves of a path. -/
def labelsOf : List Move → List Bytes
  | [] => []
  | .label text :: moves => text :: labelsOf moves
  | .pointer :: moves => labelsOf moves

/-- No label on the path is longer than the 63 octets a length octet of a name
can say. -/
def ShortLabels (moves : List Move) : Prop := ∀ text ∈ labelsOf moves, text.length ≤ 63

/-- The last stretch of the path has a label. -/
def EndsInLabel (moves : List Move) : Prop := ∃ text, moves.getLast? = some (.label text)

/-- Labels stand behind the last pointer only. -/
def PointersFirst : List Move → Prop
  | [] => True
  | .label _ :: moves => .pointer ∉ moves
  | .pointer :: moves => PointersFirst moves

theorem nameAt_lt {d : Bytes} {cur next : Nat} {labels : List Bytes} (h : NameAt d cur labels next) :
    cur < d.length := by
  cases h with
  | zero h => exact h.1
  | label hpos => exact lt_length_of_octet_pos hpos
  | pointer h =>
      have hlen := h.2.1
      omega

theorem labelText_length {d : Bytes} {cur : Nat} (h : cur + 1 + octet d cur ≤ d.length) :
    ((d.drop (cur + 1)).take (octet d cur)).length = octet d cur := by
  rw [List.length_take, List.length_drop]
  omega

theorem nameAt_iff_path {d : Bytes} {cur next : Nat} {labels : List Bytes} :
    NameAt d cur labels next ↔
      ∃ moves, Path d cur moves .zero next ∧ labelsOf moves = labels ∧ ShortLabels moves := by
  constructor
  · intro h
    induction h with
    | zero h => exact ⟨[], .zero h, rfl, by simp [ShortLabels, labelsOf]⟩
    | @label cur next labels hpos hmax rest ih =>
        obtain ⟨moves, hpath, hlabels, hshort⟩ := ih
        have hin := nameAt_lt rest
        refine ⟨_, .label ⟨hpos, by omega, hin⟩ hpath, ?_, ?_⟩
        · rw [labelsOf, hlabels]
        · intro text htext
          rcases List.mem_cons.mp htext with rfl | hrest
          · rwa [labelText_length hin.le]
          · exact hshort text hrest
    | pointer h _ ih =>
        obtain ⟨moves, hpath, hlabels, hshort⟩ := ih
        exact ⟨_, .pointer h hpath, hlabels, hshort⟩
  · rintro ⟨moves, hpath, rfl, hshort⟩
    generalize hfin : End.zero = fin at hpath
    induction hpath with
    | zero h => exact .zero h
    | broken h => cases hfin
    | label h _ ih =>
        have htext := hshort _ List.mem_cons_self
        rw [labelText_length h.2.2.le] at htext
        exact .label h.1 htext (ih (fun text hmem => hshort text (List.mem_cons_of_mem _ hmem)) hfin)
    | pointer h _ ih => exact .pointer h (ih hshort hfin)

private theorem getLast?_append_dot (res text : Bytes) :
    (res ++ text ++ [DOT]).getLast? = some DOT := by
  rw [List.getLast?_append]
  rfl

theorem endsInLabel_cons (m : Move) {moves : List Move} (h : moves ≠ []) :
    EndsInLabel (m :: moves) ↔ EndsInLabel moves := by
  rw [EndsInLabel, EndsInLabel, List.getLast?_cons_of_ne_nil h]

theorem spelled_zero {moves : List Move} (h : EndsInLabel moves) (res : Bytes) :
    spelled moves .zero res = some (res ++ dotted (labelsOf moves)) := by
  induction moves generalizing res with
  | nil =>
      obtain ⟨text, hlast⟩ := h
      cases hlast
  | cons m moves ih =>
      rcases eq_or_ne moves [] with rfl | hne
      · obtain ⟨text, hlast⟩ := h
        obtain rfl := Option.some.inj hlast
        rw [spelled, spelled, if_pos (getLast?_append_dot res text), List.append_assoc]
        simp [labelsOf, dotted]
      · have hrest := ih ((endsInLabel_cons m hne).mp h)
        cases m with
        | label text => simp [spelled, hrest, labelsOf, dotted]
        | pointer => simp [spelled, hrest, labelsOf]

theorem spelled_zero_eq_none {moves : List Move} (h : ¬ EndsInLabel moves) (res : Bytes)
    (hres : moves = [] → res = []) : spelled moves .zero res = none := by
  induction moves generalizing res with
  | nil =>
      rw [hres rfl]
      rfl
  | cons m moves ih =>
      rcases eq_or_ne moves [] with rfl | hne
      · cases m with
        | label text => exact absurd ⟨text, rfl⟩ h
        | pointer => rfl
      · have hrest : ¬ EndsInLabel moves := fun hends => h ((endsInLabel_cons m hne).mpr hends)
        cases m with
        | label text => exact ih hrest _ fun hnil => absurd hnil hne
        | pointer => rw [spelled, ih hrest _ fun _ => rfl, Option.map_none]

theorem pointersFirst_of_not_mem {moves : List Move} (h : .pointer ∉ moves) :
    PointersFirst moves := by
  cases moves with
  | nil => trivial
  | cons m moves =>
      cases m with
      | label text => exact fun hmem => h (List.mem_cons_of_mem _ hmem)
      | pointer => exact absurd List.mem_cons_self h

theorem spelled_broken (moves : List Move) (res : Bytes) :
    ∃ text, spelled moves .broken res = some text ∧
      (text = [] ↔ .pointer ∉ moves ∨ res = [] ∧ PointersFirst moves) := by
  induction moves generalizing res with
  | nil => exact ⟨[], rfl, by simp⟩
  | cons m moves ih =>
      cases m with
      | label label =>
          obtain ⟨text, hspelled, htext⟩ := ih (res ++ label ++ [DOT])
          refine ⟨text, hspelled, htext.trans ?_⟩
          simp [PointersFirst]
      | pointer =>
          obtain ⟨text, hspelled, htext⟩ := ih []
          refine ⟨res ++ text, by rw [spelled, hspelled, Option.map_some], ?_⟩
          rw [List.append_eq_nil_iff, htext, PointersFirst]
          have hfirst : .pointer ∉ moves → PointersFirst moves := pointersFirst_of_not_mem
          simp only [List.mem_cons, true_or, not_true, false_or]
          tauto

/-- What the caller of `parse_dns_name` is entitled to: no failed assertion, a
text exactly for the names other than the root, and then their labels and the
cursor behind them. -/
def Exact (d : Bytes) (cur : Nat) (o : Parsed) : Prop :=
  ∃ text next, o = .name text next ∧
    (text ≠ [] ↔ ∃ labels next', NameAt d cur labels next' ∧ labels ≠ []) ∧
    ∀ labels next', NameAt d cur labels next' → labels ≠ [] → text = dotted labels ∧ next = next'

/-- A path on which the code is exact. -/
def Regular (moves : List Move) : End → Prop
  | .zero => EndsInLabel moves ∧ ShortLabels moves
  | .broken => PointersFirst moves

theorem labelsOf_ne_nil {moves : List Move} (h : EndsInLabel moves) : labelsOf moves ≠ [] := by
  obtain ⟨text, hlast⟩ := h
  obtain ⟨init, rfl⟩ := List.getLast?_eq_some_iff.mp hlast
  induction init with
  | nil => exact List.cons_ne_nil _ _
  | cons m init ih =>
      cases m with
      | label text => exact List.cons_ne_nil _ _
      | pointer => exact ih List.getLast?_concat

theorem dotted_eq_nil_iff (labels : List Bytes) : dotted labels = [] ↔ labels = [] := by
  cases labels <;> simp [dotted]

theorem nameAt_path {d : Bytes} {cur next next' : Nat} {moves : List Move} {fin : End}
    {labels : List Bytes} (hpath : Path d cur moves fin next) (hname : NameAt d cur labels next') :
    fin = .zero ∧ labels = labelsOf moves ∧ ShortLabels moves ∧ next' = next := by
  obtain ⟨moves', hpath', rfl, hshort⟩ := nameAt_iff_path.mp hname
  obtain ⟨rfl, rfl, rfl⟩ := path_unique hpath hpath'
  exact ⟨rfl, rfl, hshort, rfl⟩

private theorem exact_zero_iff {d : Bytes} {cur next : Nat} {moves : List Move}
    (hpath : Path d cur moves .zero next) :
    Exact d cur (.ofSpelled (spelled moves .zero []) next) ↔ EndsInLabel moves ∧ ShortLabels moves := by
  constructor
  · rintro ⟨text, c, heq, hiff, _⟩
    have hends : EndsInLabel moves := by
      by_contra hnot
      rw [spelled_zero_eq_none hnot [] fun _ => rfl] at heq
      cases heq
    rw [spelled_zero hends] at heq
    have hne : text ≠ [] := by
      obtain ⟨rfl, _⟩ := Parsed.name.inj heq
      exact fun hnil => labelsOf_ne_nil hends ((dotted_eq_nil_iff _).mp hnil)
    obtain ⟨labels, next', hname, _⟩ := hiff.mp hne
    exact ⟨hends, (nameAt_path hpath hname).2.2.1⟩
  · rintro ⟨hends, hshort⟩
    have hname : NameAt d cur (labelsOf moves) next :=
      nameAt_iff_path.mpr ⟨moves, hpath, rfl, hshort⟩
    have hne := labelsOf_ne_nil hends
    refine ⟨dotted (labelsOf moves), next, by rw [spelled_zero hends]; rfl, ?_, ?_⟩
    · constructor
      · intro _
        exact ⟨_, _, hname, hne⟩
      · intro _ hnil
        exact hne ((dotted_eq_nil_iff _).mp hnil)
    · intro labels next' hname' _
      obtain ⟨_, rfl, _, rfl⟩ := nameAt_path hpath hname'
      exact ⟨rfl, rfl⟩

private theorem exact_broken_iff {d : Bytes} {cur next : Nat} {moves : List Move}
    (hpath : Path d cur moves .broken next) :
    Exact d cur (.ofSpelled (spelled moves .broken []) next) ↔ PointersFirst moves := by
  have hno : ∀ labels next', ¬ NameAt d cur labels next' := by
    intro labels next' hname
    cases (nameAt_path hpath hname).1
  obtain ⟨text, hspelled, htext⟩ := spelled_broken moves []
  have hempty : text = [] ↔ PointersFirst moves := by
    rw [htext]
    have hfirst : .pointer ∉ moves → PointersFirst moves := pointersFirst_of_not_mem
    tauto
  rw [hspelled, ← hempty]
  constructor
  · rintro ⟨text', c, heq, hiff, _⟩
    obtain ⟨rfl, _⟩ := Parsed.name.inj heq
    by_contra hne
    obtain ⟨labels, next', hname, _⟩ := hiff.mp hne
    exact hno labels next' hname
  · intro hnil
    refine ⟨text, next, rfl, ?_, ?_⟩
    · constructor
      · exact fun hne => absurd hnil hne
      · rintro ⟨labels, next', hname, _⟩
        exact absurd hname (hno labels next')
    · exact fun labels next' hname => absurd hname (hno labels next')

/-- A call that returns is exact exactly when the path it has taken is regular:
one that ends in a zero octet has a label in its last stretch and no label
beyond 63 octets, one that breaks off has no label before its last pointer. -/
theorem parseDnsName_exact_iff (d : Bytes) (cur : Nat) (o : Parsed) (h : Returns d cur o) :
    Exact d cur o ↔ ∀ moves fin next, Path d cur moves fin next → Regular moves fin := by
  obtain ⟨moves, fin, next, hpath⟩ := exists_path_of_returns h
  obtain rfl := returns_unique h (returns_of_path hpath)
  have hall : (∀ moves fin next, Path d cur moves fin next → Regular moves fin) ↔
      Regular moves fin := by
    constructor
    · intro hreg
      exact hreg _ _ _ hpath
    · intro hreg moves' fin' next' hpath'
      obtain ⟨rfl, rfl, _⟩ := path_unique hpath hpath'
      exact hreg
  rw [hall]
  cases fin with
  | zero => exact exact_zero_iff hpath
  | broken => exact exact_broken_iff hpath

theorem parseDnsName_exact_one_label :
    Exact [0x01, 0x61, 0x00] 0 (.name (ascii "a.") 3) := by
  have hreturns : Returns [0x01, 0x61, 0x00] 0 (.name (ascii "a.") 3) := ⟨1, by decide⟩
  have hpath : Path [0x01, 0x61, 0x00] 0 [.label [0x61]] .zero 3 :=
    .label ⟨by decide, by decide, by decide⟩ (.zero ⟨by decide, by decide⟩)
  refine (parseDnsName_exact_iff _ _ _ hreturns).mpr fun moves fin next hpath' => ?_
  obtain ⟨rfl, rfl, _⟩ := path_unique hpath hpath'
  exact ⟨⟨_, rfl⟩, show ∀ text ∈ [[0x61]], text.length ≤ 63 by decide⟩

/-- The root name fails the assertion; a label of 64 octets is returned; a
malformed tail behind a pointer leaves what was read before it. -/
theorem parseDnsName_inexact :
    (Returns [0x00] 0 .assertFailed ∧ NameAt [0x00] 0 [] 1) ∧
      (Returns (0x40 :: List.replicate 64 0x61 ++ [0x00]) 0
        (.name (List.replicate 64 0x61 ++ [DOT]) 66) ∧
        ¬ ∃ labels next, NameAt (0x40 :: List.replicate 64 0x61 ++ [0x00]) 0 labels next) ∧
      Returns [0x01, 0x61, 0xc0, 0x04, 0x05] 0 (.name (ascii "a.") 4) ∧
        ¬ ∃ labels next, NameAt [0x01, 0x61, 0xc0, 0x04, 0x05] 0 labels next := by
  refine ⟨⟨⟨1, by decide⟩, .zero ⟨by decide, by decide⟩⟩, ⟨⟨1, by decide⟩, ?_⟩, ⟨2, by decide⟩, ?_⟩
  · rintro ⟨labels, next, hname⟩
    cases hname with
    | zero h => exact absurd h.2 (by decide)
    | label _ hmax => exact absurd hmax (by decide)
    | pointer h => exact absurd h.1 (by decide)
  · rintro ⟨labels, next, hname⟩
    have hbroken : Path [0x01, 0x61, 0xc0, 0x04, 0x05] 0 [.label [0x61], .pointer] .broken 4 :=
      .label ⟨by decide, by decide, by decide⟩
        (.pointer (p := 4) ⟨by decide, by decide, by decide, by decide⟩
          (.broken (.overrun (by decide) (by decide) (by decide))))
    cases (nameAt_path hbroken hname).1

end Angel.Dns
