import Angel.Dns.Exact
import Angel.Dns.Resolver

/-!
Well-formed responses and what `unpack` makes of them. A response is described
by the answers it holds, each with the places where its domain names stand; the
code resolves the query for some of them only.
-/

namespace Angel.Dns

open Angel.Lib

/-- A domain name and where in the datagram it stands. -/
structure PlacedName where
  pos : Nat
  labels : List Bytes

/-- The data of an answer record. -/
inductive AnswerData where
  | a (addr : Bytes)
  | ns (name : PlacedName)
  | cname (name : PlacedName)
  | mx (preference : Nat) (name : PlacedName)
  | txt (strings : List Bytes)
  | soa (mname rname : PlacedName) (serial refresh retry expire minimum : Nat)
  | ptr (name : PlacedName)

namespace AnswerData

def type : AnswerData → RrType
  | a _ => .A
  | ns _ => .NS
  | cname _ => .CNAME
  | mx _ _ => .MX
  | txt _ => .TXT
  | soa .. => .SOA
  | ptr _ => .PTR

/-- The places of the names in the data. -/
def names : AnswerData → List Nat
  | a _ => []
  | ns name => [name.pos]
  | cname name => [name.pos]
  | mx _ name => [name.pos]
  | txt _ => []
  | soa mname rname .. => [mname.pos, rname.pos]
  | ptr name => [name.pos]

/-- The data as the resolver hands it out. -/
def rdata : AnswerData → Rdata
  | a addr => .a ([DOT].intercalate (addr.map fun byte => Util.decimal byte.toNat))
  | ns name => .ns (dotted name.labels)
  | cname name => .cname (dotted name.labels)
  | mx preference name => .mx preference (dotted name.labels)
  | txt strings => .txt strings.flatten
  | soa mname rname serial refresh retry expire minimum =>
      .soa (dotted mname.labels) (dotted rname.labels) serial refresh retry expire minimum
  | ptr name => .ptr (dotted name.labels)

/-- A text of one character string. -/
def SingleString : AnswerData → Prop
  | txt strings => strings.length = 1
  | _ => True

end AnswerData

structure Answer where
  owner : PlacedName
  _class : Nat
  ttl : Nat
  len : Nat
  data : AnswerData

namespace Answer

def names (answer : Answer) : List Nat := answer.owner.pos :: answer.data.names

/-- The record that stands for the answer. -/
def record (answer : Answer) : Record :=
  { base :=
      { name := (dotted answer.owner.labels).dropLast
        type := answer.data.type.code
        _class := answer._class
        ttl := answer.ttl
        len := answer.len }
    rdata := answer.data.rdata }

end Answer

/-- The character strings from `p` to `next`. -/
inductive StringsAt (d : Bytes) : (p : Nat) → (strings : List Bytes) → (next : Nat) → Prop where
  | one {p : Nat} (h : p + 1 + octet d p ≤ d.length) (hp : p < d.length) :
      StringsAt d p [(d.drop (p + 1)).take (octet d p)] (p + 1 + octet d p)
  | more {p next : Nat} {strings : List Bytes} (hp : p < d.length)
      (rest : StringsAt d (p + 1 + octet d p) strings next) :
      StringsAt d p ((d.drop (p + 1)).take (octet d p) :: strings) next

/-- The data of a record from `p` to `next`. -/
inductive DataAt (d : Bytes) : (p : Nat) → AnswerData → (next : Nat) → Prop where
  | a {p : Nat} : DataAt d p (.a ((d.drop p).take 4)) (p + 4)
  | ns {p next : Nat} {labels : List Bytes} (h : NameAt d p labels next) :
      DataAt d p (.ns ⟨p, labels⟩) next
  | cname {p next : Nat} {labels : List Bytes} (h : NameAt d p labels next) :
      DataAt d p (.cname ⟨p, labels⟩) next
  | mx {p next : Nat} {labels : List Bytes} (h : NameAt d (p + 2) labels next) :
      DataAt d p (.mx (field d p 2) ⟨p + 2, labels⟩) next
  | txt {p next : Nat} {strings : List Bytes} (h : StringsAt d p strings next) :
      DataAt d p (.txt strings) next
  | soa {p q next : Nat} {mlabels rlabels : List Bytes} (hm : NameAt d p mlabels q)
      (hr : NameAt d q rlabels next) :
      DataAt d p
        (.soa ⟨p, mlabels⟩ ⟨q, rlabels⟩ (field d next 4) (field d (next + 4) 4)
          (field d (next + 8) 4) (field d (next + 12) 4) (field d (next + 16) 4)) (next + 20)
  | ptr {p next : Nat} {labels : List Bytes} (h : NameAt d p labels next) :
      DataAt d p (.ptr ⟨p, labels⟩) next

/-- The record of an answer from `p` to `next`. -/
structure AnswerAt (d : Bytes) (p : Nat) (answer : Answer) (next : Nat) : Prop where
  pos : answer.owner.pos = p
  fields : ∃ q, NameAt d p answer.owner.labels q ∧ field d q 2 = answer.data.type.code ∧
    field d (q + 2) 2 = answer._class ∧ field d (q + 4) 4 = answer.ttl ∧
    field d (q + 8) 2 = answer.len ∧ DataAt d (q + 10) answer.data next ∧ next = q + 10 + answer.len
  inside : next ≤ d.length

inductive AnswersAt (d : Bytes) : (p : Nat) → List Answer → (next : Nat) → Prop where
  | nil {p : Nat} : AnswersAt d p [] p
  | cons {p q next : Nat} {answer : Answer} {answers : List Answer} (h : AnswerAt d p answer q)
      (rest : AnswersAt d q answers next) : AnswersAt d p (answer :: answers) next

/-- `n` records of any type from `p` to `next`: their owner, ten octets and as
many octets of data as the last two of these say. -/
inductive SectionAt (d : Bytes) : (p n next : Nat) → Prop where
  | nil {p : Nat} : SectionAt d p 0 p
  | cons {p q n next : Nat} {labels : List Bytes} (h : NameAt d p labels q)
      (inside : q + 10 + field d (q + 8) 2 ≤ d.length)
      (rest : SectionAt d (q + 10 + field d (q + 8) 2) n next) : SectionAt d p (n + 1) next

/-- A response to `qc`: its header, the question of the query, the answers and
two more sections, with nothing behind them. -/
structure Response (qc : QueryContext) (d : Bytes) (answers : List Answer) : Prop where
  header : 12 ≤ d.length
  id : field d 0 2 = qc.id
  qr : 128 ≤ octet d 2
  rcode : octet d 3 % 16 = 0
  qdCount : field d 4 2 = 1
  anCount : field d 6 2 = answers.length
  sections : ∃ labels p stop nsStop, NameAt d 12 labels p ∧ wire labels = qc.qName ∧
    p + 4 ≤ d.length ∧ field d p 2 = qc.qType ∧ field d (p + 2) 2 = qc.qClass ∧
    AnswersAt d (p + 4) answers stop ∧ SectionAt d stop (field d 8 2) nsStop ∧
    SectionAt d nsStop (field d 10 2) d.length

theorem bind_eq_ok {α β : Type} {x : Except Refusal α} {f : α → Except Refusal β} {r : β} :
    (x >>= f) = .ok r ↔ ∃ a, x = .ok a ∧ f a = .ok r := by
  cases x with
  | error e =>
      constructor
      · intro h
        cases h
      · rintro ⟨a, h, _⟩
        cases h
  | ok a =>
      constructor
      · intro h
        exact ⟨a, rfl, h⟩
      · rintro ⟨b, h, hf⟩
        obtain rfl := Except.ok.inj h
        exact hf

theorem ntohl_u32 {d : Bytes} {p : Nat} (h : p + 4 ≤ d.length) :
    Sockops.ntohl (u32 d p) = field d p 4 := by
  have hload := Sockops.hton_load ((d.drop p).take 4)
  have hlen : ((d.drop p).take 4).length = 4 := by
    rw [List.length_take, List.length_drop]
    omega
  rwa [hlen] at hload

theorem nameAt_lt_next {d : Bytes} {cur next : Nat} {labels : List Bytes}
    (h : NameAt d cur labels next) : cur < next := by
  induction h with
  | zero _ => omega
  | label _ _ _ ih => omega
  | pointer _ _ _ => omega

theorem stringsAt_lt_next {d : Bytes} {p next : Nat} {strings : List Bytes}
    (h : StringsAt d p strings next) : p < next := by
  induction h with
  | one => omega
  | more _ _ ih => omega

section

variable {d : Bytes} {fuel : Nat}

/-- The code comes to a text for the name at `p`. -/
def Spells (d : Bytes) (fuel p : Nat) : Prop := ∃ text next, parseDname d fuel p = .ok (text, next)

/-- The last stretch of the name at `p` has a label. -/
def EndsInLabelAt (d : Bytes) (p : Nat) : Prop :=
  ∀ moves fin next, Path d p moves fin next → EndsInLabel moves

theorem parsed_of_nameAt {p next : Nat} {labels : List Bytes} (h : NameAt d p labels next) :
    ∃ moves, Path d p moves .zero next ∧ labelsOf moves = labels ∧
      Returns d p (.ofSpelled (spelled moves .zero []) next) := by
  obtain ⟨moves, hpath, hlabels, _⟩ := nameAt_iff_path.mp h
  exact ⟨moves, hpath, hlabels, returns_of_path hpath⟩

theorem endsInLabelAt_iff {p next : Nat} {moves : List Move} {fin : End}
    (hpath : Path d p moves fin next) : EndsInLabelAt d p ↔ EndsInLabel moves := by
  constructor
  · intro h
    exact h _ _ _ hpath
  · intro h moves' fin' next' hpath'
    obtain ⟨rfl, _, _⟩ := path_unique hpath hpath'
    exact h

theorem parseDname_of_endsInLabelAt {p next : Nat} {labels : List Bytes}
    (h : NameAt d p labels next) (hends : EndsInLabelAt d p) (o : Parsed)
    (hfuel : parseDnsName d fuel p = some o) :
    parseDname d fuel p = .ok (dotted labels, next) := by
  obtain ⟨moves, hpath, rfl, hreturns⟩ := parsed_of_nameAt h
  have hends := (endsInLabelAt_iff hpath).mp hends
  obtain rfl := returns_unique ⟨fuel, hfuel⟩ hreturns
  have hne : dotted (labelsOf moves) ≠ [] :=
    fun hnil => labelsOf_ne_nil hends ((dotted_eq_nil_iff _).mp hnil)
  rw [spelled_zero hends] at hfuel
  rw [parseDname, hfuel]
  exact if_neg hne

theorem endsInLabelAt_of_spells {p next : Nat} {labels : List Bytes} (h : NameAt d p labels next)
    (hspells : Spells d fuel p) : EndsInLabelAt d p := by
  obtain ⟨moves, hpath, _, hreturns⟩ := parsed_of_nameAt h
  obtain ⟨text, c, hok⟩ := hspells
  rw [endsInLabelAt_iff hpath]
  by_contra hnot
  rw [spelled_zero_eq_none hnot [] fun _ => rfl] at hreturns
  rw [parseDname] at hok
  cases hparse : parseDnsName d fuel p with
  | none =>
      rw [hparse] at hok
      cases hok
  | some o =>
      obtain rfl := returns_unique ⟨fuel, hparse⟩ hreturns
      rw [hparse] at hok
      cases hok

theorem parseDname_iff {p next : Nat} {labels : List Bytes} (h : NameAt d p labels next)
    {r : Bytes × Nat} :
    parseDname d fuel p = .ok r ↔ Spells d fuel p ∧ r = (dotted labels, next) := by
  have hread : Spells d fuel p → parseDname d fuel p = .ok (dotted labels, next) := by
    intro hspells
    have hends := endsInLabelAt_of_spells h hspells
    obtain ⟨text, c, hok⟩ := hspells
    cases hparse : parseDnsName d fuel p with
    | none =>
        rw [parseDname, hparse] at hok
        cases hok
    | some o => exact parseDname_of_endsInLabelAt h hends o hparse
  constructor
  · intro hok
    have hspells : Spells d fuel p := ⟨r.1, r.2, hok⟩
    exact ⟨hspells, Except.ok.inj (hok.symm.trans (hread hspells))⟩
  · rintro ⟨hspells, rfl⟩
    exact hread hspells

theorem bind_parseDname_iff {β : Type} {p next : Nat} {labels : List Bytes}
    (h : NameAt d p labels next) {f : Bytes × Nat → Except Refusal β} {r : β} :
    (parseDname d fuel p >>= f) = .ok r ↔
      Spells d fuel p ∧ f (dotted labels, next) = .ok r := by
  rw [bind_eq_ok]
  constructor
  · rintro ⟨a, hok, hf⟩
    obtain ⟨hspells, rfl⟩ := (parseDname_iff h).mp hok
    exact ⟨hspells, hf⟩
  · rintro ⟨hspells, hf⟩
    exact ⟨_, (parseDname_iff h).mpr ⟨hspells, rfl⟩, hf⟩

theorem ok_eq_ok_iff {β : Type} {x y : β} :
    (Except.ok x : Except Refusal β) = .ok y ↔ y = x := by
  rw [Except.ok.injEq]
  exact eq_comm

private theorem parseTxtRdata_iff {rr : RrBase} {p : Nat} {strings : List Bytes}
    (h : StringsAt d p strings (p + rr.len)) {r : Rdata × Nat} :
    parseTxtRdata d rr p = .ok r ↔
      strings.length = 1 ∧ r = (.txt strings.flatten, p + rr.len) := by
  generalize hnext : p + rr.len = next at h
  cases h with
  | one hin hp =>
      have hlen : ¬ (d.getD p 0).toNat + 1 ≠ rr.len := by
        rw [← octet]
        omega
      rw [parseTxtRdata]
      simp only [if_neg hlen, ok_eq_ok_iff, List.length_singleton, true_and, List.flatten_cons,
        List.flatten_nil, List.append_nil]
      rfl
  | @more _ _ rest hp hrest =>
      have hlt := stringsAt_lt_next hrest
      have hlen : (d.getD p 0).toNat + 1 ≠ rr.len := by
        rw [← octet]
        omega
      have hne : rest ≠ [] := by
        rintro rfl
        cases hrest
      have htwo : ((d.drop (p + 1)).take (octet d p) :: rest).length ≠ 1 := by
        simpa using hne
      rw [parseTxtRdata]
      simp only [if_pos hlen, htwo, false_and, iff_false]
      exact fun hok => by cases hok

/-- The data of a record is read when the code can spell its names and a text is
one string. -/
theorem parseRdata_iff (rr : RrBase) {p : Nat} {data : AnswerData}
    (h : DataAt d p data (p + rr.len)) (hin : p + rr.len ≤ d.length)
    (htype : rr.type = data.type.code) {r : Rdata × Nat} :
    parseRdata d fuel rr p = .ok r ↔
      ((∀ n ∈ data.names, Spells d fuel n) ∧ data.SingleString) ∧
        r = (data.rdata, p + rr.len) := by
  rw [parseRdata, htype, RrType.ofCode_code]
  generalize hnext : p + rr.len = next at h
  cases h with
  | a =>
      have hlen : ¬ rr.len ≠ 4 := by omega
      have haddr : object 4 (u32 d p) = (d.drop p).take 4 := by
        have hload := object_load ((d.drop p).take 4)
        rwa [show ((d.drop p).take 4).length = 4 by
          rw [List.length_take, List.length_drop]; omega] at hload
      simp only [AnswerData.type, parseARdata, if_neg hlen, ok_eq_ok_iff, toHostIp, haddr,
        AnswerData.names, AnswerData.SingleString, AnswerData.rdata, List.not_mem_nil,
        false_implies, implies_true, true_and]
  | ns hname =>
      simp only [AnswerData.type, parseNsRdata, bind_parseDname_iff hname, ok_eq_ok_iff,
        AnswerData.names, AnswerData.SingleString, AnswerData.rdata, List.mem_singleton,
        forall_eq, and_true]
  | cname hname =>
      simp only [AnswerData.type, parseCnameRdata, bind_parseDname_iff hname, ok_eq_ok_iff,
        AnswerData.names, AnswerData.SingleString, AnswerData.rdata, List.mem_singleton,
        forall_eq, and_true]
  | ptr hname =>
      simp only [AnswerData.type, parsePtrRdata, bind_parseDname_iff hname, ok_eq_ok_iff,
        AnswerData.names, AnswerData.SingleString, AnswerData.rdata, List.mem_singleton,
        forall_eq, and_true]
  | mx hname =>
      have hlt := nameAt_lt_next hname
      have hlen : ¬ rr.len ≤ 2 := by omega
      simp only [AnswerData.type, parseMxRdata, if_neg hlen, bind_parseDname_iff hname,
        ok_eq_ok_iff, ntohs_u16 (show p + 2 ≤ d.length by omega), AnswerData.names,
        AnswerData.SingleString, AnswerData.rdata, List.mem_singleton, forall_eq, and_true]
  | txt hstrings =>
      subst hnext
      simp only [AnswerData.type, parseTxtRdata_iff hstrings, AnswerData.names,
        AnswerData.SingleString, AnswerData.rdata, List.not_mem_nil, false_implies, implies_true,
        true_and]
  | @soa q s _ _ hm hr =>
      have hlen : ¬ s + 20 > d.length := by omega
      simp only [AnswerData.type, parseSoaRdata, bind_parseDname_iff hm, bind_parseDname_iff hr,
        if_neg hlen, ok_eq_ok_iff, ntohl_u32 (show s + 4 ≤ d.length by omega),
        ntohl_u32 (show s + 4 + 4 ≤ d.length by omega),
        ntohl_u32 (show s + 8 + 4 ≤ d.length by omega),
        ntohl_u32 (show s + 12 + 4 ≤ d.length by omega),
        ntohl_u32 (show s + 16 + 4 ≤ d.length by omega), AnswerData.names, AnswerData.SingleString,
        AnswerData.rdata, List.mem_cons, List.not_mem_nil, or_false, forall_eq_or_imp, forall_eq,
        and_true, and_assoc]

theorem dotted_cons (label : Bytes) (labels : List Bytes) :
    dotted (label :: labels) = label ++ [DOT] ++ dotted labels := by
  simp [dotted]

theorem dotted_getLast? {labels : List Bytes} (h : labels ≠ []) :
    (dotted labels).getLast? = some DOT := by
  induction labels with
  | nil => exact absurd rfl h
  | cons label labels ih =>
      rcases eq_or_ne labels [] with rfl | hne
      · simp [dotted]
      · rw [dotted_cons, List.getLast?_append, ih hne]
        rfl

theorem labels_ne_nil_of_spells {p next : Nat} {labels : List Bytes} (h : NameAt d p labels next)
    (hspells : Spells d fuel p) : labels ≠ [] := by
  obtain ⟨moves, hpath, rfl, _⟩ := parsed_of_nameAt h
  exact labelsOf_ne_nil ((endsInLabelAt_iff hpath).mp (endsInLabelAt_of_spells h hspells))

theorem dataAt_lt_next {p next : Nat} {data : AnswerData} (h : DataAt d p data next) : p < next := by
  cases h with
  | a => omega
  | ns hname => exact nameAt_lt_next hname
  | cname hname => exact nameAt_lt_next hname
  | mx hname =>
      have hlt := nameAt_lt_next hname
      omega
  | txt hstrings => exact stringsAt_lt_next hstrings
  | soa hm hr =>
      have hlt := nameAt_lt_next hm
      have hlt' := nameAt_lt_next hr
      omega
  | ptr hname => exact nameAt_lt_next hname

private theorem parseRrBase_iff {p q : Nat} {answer : Answer}
    (hname : NameAt d p answer.owner.labels q)
    (htype : field d q 2 = answer.data.type.code) (hclass : field d (q + 2) 2 = answer._class)
    (httl : field d (q + 4) 4 = answer.ttl) (hlen : field d (q + 8) 2 = answer.len)
    (hpos : 0 < answer.len) (hin : q + 10 + answer.len ≤ d.length) {r : RrBase × Nat} :
    parseRrBase d fuel p = .ok r ↔ Spells d fuel p ∧ r = (answer.record.base, q + 10) := by
  rw [parseRrBase, bind_parseDname_iff hname]
  refine and_congr_right fun hspells => ?_
  have hlast := dotted_getLast? (labels_ne_nil_of_spells hname hspells)
  have hroom : ¬ q + 10 ≥ d.length := by omega
  simp only [hlast, ne_eq, not_true, if_false, if_neg hroom,
    ntohs_u16 (show q + 2 ≤ d.length by omega), ntohs_u16 (show q + 2 + 2 ≤ d.length by omega),
    ntohs_u16 (show q + 8 + 2 ≤ d.length by omega), ntohl_u32 (show q + 4 + 4 ≤ d.length by omega),
    htype, hclass, httl, hlen]
  rw [if_pos ⟨hpos, hin⟩, ok_eq_ok_iff]
  rfl

/-- The code can spell every name of the answer, and its text is one string. -/
def Readable (d : Bytes) (fuel : Nat) (answer : Answer) : Prop :=
  (∀ n ∈ answer.names, Spells d fuel n) ∧ answer.data.SingleString

private theorem bind_answer_iff {β : Type} {p next : Nat} {answer : Answer}
    (h : AnswerAt d p answer next)
    {f : RrBase → Rdata × Nat → Except Refusal β} {r : β} :
    (parseRrBase d fuel p >>= fun x => parseRdata d fuel x.1 x.2 >>= f x.1) = .ok r ↔
      Readable d fuel answer ∧ f answer.record.base (answer.record.rdata, next) = .ok r := by
  obtain ⟨q, hname, htype, hclass, httl, hlen, hdata, rfl⟩ := h.fields
  have hlt := dataAt_lt_next hdata
  have hbase : ∀ r, parseRrBase d fuel p = .ok r ↔ _ := fun r =>
    parseRrBase_iff hname htype hclass httl hlen (by omega) h.inside
  have hrdata : ∀ r, parseRdata d fuel answer.record.base (q + 10) = .ok r ↔ _ := fun r =>
    parseRdata_iff answer.record.base hdata h.inside rfl
  have hnames : (∀ n ∈ answer.names, Spells d fuel n) ↔
      Spells d fuel p ∧ ∀ n ∈ answer.data.names, Spells d fuel n := by
    rw [Answer.names, List.forall_mem_cons, h.pos]
  rw [bind_eq_ok, Readable, hnames]
  constructor
  · rintro ⟨x, hx, hrest⟩
    obtain ⟨hspells, rfl⟩ := (hbase x).mp hx
    obtain ⟨y, hy, hf⟩ := bind_eq_ok.mp hrest
    obtain ⟨⟨hall, hsingle⟩, rfl⟩ := (hrdata y).mp hy
    exact ⟨⟨⟨hspells, hall⟩, hsingle⟩, hf⟩
  · rintro ⟨⟨⟨hspells, hall⟩, hsingle⟩, hf⟩
    exact ⟨_, (hbase _).mpr ⟨hspells, rfl⟩,
      bind_eq_ok.mpr ⟨_, (hrdata _).mpr ⟨⟨hall, hsingle⟩, rfl⟩, hf⟩⟩

theorem parseAnswerRrs_iff {p stop : Nat} {answers : List Answer} (h : AnswersAt d p answers stop)
    {r : List Record × Nat} :
    parseAnswerRrs d fuel answers.length p = .ok r ↔
      (∀ answer ∈ answers, Readable d fuel answer) ∧ r = (answers.map Answer.record, stop) := by
  induction h generalizing r with
  | nil =>
      rw [List.length_nil, parseAnswerRrs, ok_eq_ok_iff]
      simp
  | @cons p q next answer answers hanswer _ ih =>
      have hstep : parseAnswerRrs d fuel (answers.length + 1) p =
          (parseRrBase d fuel p >>= fun x => parseRdata d fuel x.1 x.2 >>= fun y =>
            parseAnswerRrs d fuel answers.length y.2 >>= fun z =>
              .ok (⟨x.1, y.1⟩ :: z.1, z.2)) := rfl
      rw [List.length_cons, hstep,
        bind_answer_iff hanswer (f := fun rr y => parseAnswerRrs d fuel answers.length y.2 >>= fun z =>
              .ok (⟨rr, y.1⟩ :: z.1, z.2)), bind_eq_ok, List.forall_mem_cons]
      constructor
      · rintro ⟨hread, z, hz, hok⟩
        obtain ⟨hall, rfl⟩ := ih.mp hz
        exact ⟨⟨hread, hall⟩, (Except.ok.inj hok).symm⟩
      · rintro ⟨⟨hread, hall⟩, rfl⟩
        exact ⟨hread, _, ih.mpr ⟨hall, rfl⟩, rfl⟩

end

end Angel.Dns
