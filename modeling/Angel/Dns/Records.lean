import Angel.Dns.Answers

/-!
The loop of `parse_answer_rrs` with the pointer `record` that outlives its
passes: a type outside the `switch` assigns nothing and reads no data. The
records are those of the datagram when every type is known and every name is
well formed and ends where the length of the data says.
-/

namespace Angel.Dns

open Angel.Lib

/-- What the local `record` of `parse_answer_rrs` points at. -/
inductive Pointer where
  | null
  /-- As the call found it: no pass has assigned it. -/
  | stray
  | to (record : Record)
  deriving DecidableEq, Repr

/-- What `unpack` tells the promise of a query. -/
inductive Reply where
  | result (records : List Pointer)
  | error (rcode : Nat)
  deriving DecidableEq, Repr

section

variable (d : Bytes) (fuel : Nat)

/-- The `switch`: the pointer and the cursor behind it. -/
def assignRecord (rr : RrBase) (p : Nat) (record : Pointer) : Except Refusal (Pointer × Nat) :=
  match RrType.ofCode rr.type with
  | none => .ok (record, p)
  | some _ => do
      let (rdata, p) ← parseRdata d fuel rr p
      .ok (.to ⟨rr, rdata⟩, p)

/-- One pass of the loop. -/
def answerPass (p : Nat) (record : Pointer) : Except Refusal (Pointer × Nat) := do
  let (rr, p) ← parseRrBase d fuel p
  let (record, p) ← assignRecord d fuel rr p record
  if record = .null then .error .rejected else .ok (record, p)

/-- `parse_answer_rrs` when it finds `record` in the pointer. -/
def parseAnswerRrsFrom : (answer : Nat) → (p : Nat) → (record : Pointer) →
    Except Refusal (List Pointer × Nat)
  | 0, p, _ => .ok ([], p)
  | answer + 1, p, record => do
      let (record, p) ← answerPass d fuel p record
      let (res, p) ← parseAnswerRrsFrom answer p record
      .ok (record :: res, p)

/-- The pointer and the cursor after `i` passes. -/
def afterPasses : (i : Nat) → (p : Nat) → (record : Pointer) → Except Refusal (Pointer × Nat)
  | 0, p, record => .ok (record, p)
  | i + 1, p, record => do
      let (record, p) ← answerPass d fuel p record
      afterPasses i p record

/-- `resolver::unpack` with that loop. -/
def unpackFrom (queryMap : Nat → Option QueryContext) (record : Pointer) :
    Except Refusal (QueryContext × Reply) :=
  if d.length < 12 then .error .rejected
  else
    let id := Sockops.ntohs (u16 d 0)
    let qr := (d.getD 2 0) >>> 7
    let rcode := (d.getD 3 0) &&& 0x0f
    if qr = 0 then .error .rejected
    else
      match queryMap id with
      | none => .error .rejected
      | some qc =>
          if rcode ≠ 0 then .ok (qc, .error rcode.toNat)
          else
            let qdCount := Sockops.ntohs (u16 d 4)
            let anCount := Sockops.ntohs (u16 d 6)
            if qdCount ≠ 1 then .error .rejected
            else do
              let (name, p) ← parseDname d fuel 12
              if !matchName qc.name name then .error .rejected
              else if p + 4 ≥ d.length ∨ qc.qType ≠ Sockops.ntohs (u16 d p) ∨
                  qc.qClass ≠ Sockops.ntohs (u16 d (p + 2)) then
                .error .rejected
              else
                let (res, p) ← parseAnswerRrsFrom d fuel anCount (p + 4) record
                if p ≠ d.length then .error .rejected else .ok (qc, .result res)

end

theorem assignRecord_known {d : Bytes} {fuel p : Nat} {rr : RrBase} {type : RrType}
    (h : RrType.ofCode rr.type = some type) (record : Pointer) :
    assignRecord d fuel rr p record =
      (parseRdata d fuel rr p).map fun r => (.to ⟨rr, r.1⟩, r.2) := by
  rw [assignRecord, h]
  cases parseRdata d fuel rr p <;> rfl

/-- The head of the record at `p`; its data starts at `start`. -/
def RrAt (d : Bytes) (p : Nat) (rr : RrBase) (start : Nat) : Prop :=
  ∃ labels q, NameAt d p labels q ∧ start = q + 10 ∧
    rr = ⟨(dotted labels).dropLast, field d q 2, field d (q + 2) 2, field d (q + 4) 4,
      field d (q + 8) 2⟩

/-- The names in the data of a record of this type are well formed and leave off
at its end. The other types have no names in their data. -/
def NamesFill (d : Bytes) (start next : Nat) : RrType → Prop
  | .A => True
  | .TXT => True
  | .NS => ∃ labels, NameAt d start labels next
  | .CNAME => ∃ labels, NameAt d start labels next
  | .PTR => ∃ labels, NameAt d start labels next
  | .MX => ∃ labels, NameAt d (start + 2) labels next
  | .SOA => ∃ mlabels rlabels q stop, NameAt d start mlabels q ∧ NameAt d q rlabels stop ∧
      next = stop + 20

/-- `n` records from `p` on, of types that the `switch` knows, whose owner is a
well-formed name and whose names end with their data. -/
inductive Filled (d : Bytes) : (n p : Nat) → Prop where
  | nil {p : Nat} : Filled d 0 p
  | cons {n p start : Nat} {rr : RrBase} {type : RrType} (h : RrAt d p rr start)
      (known : RrType.ofCode rr.type = some type)
      (fill : NamesFill d start (start + rr.len) type) (rest : Filled d n (start + rr.len)) :
      Filled d (n + 1) p

/-- A result with one record for each pass, which is the record that stands at the
cursor of that pass, with data as long as its head says, and behind which the
cursor is left. -/
structure Decodes (d : Bytes) (fuel n p : Nat) (record : Pointer) (res : List Pointer) : Prop where
  count : res.length = n
  each : ∀ i < n, ∃ held cur rr start data held',
    afterPasses d fuel i p record = .ok (held, cur) ∧ RrAt d cur rr start ∧
    rr.type = data.type.code ∧ DataAt d start data (start + rr.len) ∧
    res[i]? = some (.to ⟨rr, data.rdata⟩) ∧
    afterPasses d fuel (i + 1) p record = .ok (held', start + rr.len)

section

variable {d : Bytes} {fuel : Nat}

/-- The head that the code has read has data, all of it inside the datagram. -/
theorem inside_of_parseRrBase {p start : Nat} {rr : RrBase}
    (h : parseRrBase d fuel p = .ok (rr, start)) : 0 < rr.len ∧ start + rr.len ≤ d.length := by
  rw [parseRrBase] at h
  obtain ⟨⟨text, q⟩, _, h⟩ := bind_eq_ok.mp h
  simp only at h
  split at h
  · cases h
  split at h
  · cases h
  split at h
  · rename_i hlen
    cases h
    exact hlen
  · cases h

/-- A head that the code has read is the one that stands there, if its owner is
well formed. -/
theorem eq_of_parseRrBase {p start start' : Nat} {rr rr' : RrBase} (hrr : RrAt d p rr start)
    (h : parseRrBase d fuel p = .ok (rr', start')) : rr' = rr ∧ start' = start := by
  obtain ⟨labels, q, hname, rfl, rfl⟩ := hrr
  rw [parseRrBase] at h
  obtain ⟨r, hread, h⟩ := bind_eq_ok.mp h
  obtain ⟨_, rfl⟩ := (parseDname_iff hname).mp hread
  simp only at h
  split at h
  · cases h
  split at h
  · cases h
  rename_i hroom
  have hq : q + 10 < d.length := by omega
  rw [ntohs_u16 (by omega), ntohs_u16 (by omega), ntohl_u32 (by omega), ntohs_u16 (by omega)] at h
  split at h
  · cases h
    exact ⟨rfl, rfl⟩
  · cases h

/-- The lengths that the code compares with the length of the data. -/
def LengthChecked (d : Bytes) (start len : Nat) : RrType → Prop
  | .A => len = 4
  | .TXT => len = octet d start + 1
  | _ => True

theorem lengthChecked_of_parseRdata {rr : RrBase} {type : RrType} {start : Nat}
    {r : Rdata × Nat} (htype : RrType.ofCode rr.type = some type)
    (h : parseRdata d fuel rr start = .ok r) : LengthChecked d start rr.len type := by
  rw [parseRdata, htype] at h
  cases type with
  | A =>
      simp only [parseARdata] at h
      split at h
      · cases h
      · rename_i hlen
        exact not_not.mp hlen
  | TXT =>
      simp only [parseTxtRdata] at h
      split at h
      · cases h
      · rename_i hlen
        exact (not_not.mp hlen).symm
  | NS => trivial
  | CNAME => trivial
  | SOA => trivial
  | PTR => trivial
  | MX => trivial

/-- Data of the checked length is that of a record of its type when its names
are well formed and end with it. -/
theorem dataAt_iff_namesFill {type : RrType} {start len : Nat}
    (hlen : LengthChecked d start len type) (hin : start + len ≤ d.length) :
    (∃ data, data.type = type ∧ DataAt d start data (start + len)) ↔
      NamesFill d start (start + len) type := by
  constructor
  · rintro ⟨data, rfl, hdata⟩
    generalize hnext : start + len = next at hdata
    cases hdata with
    | a => trivial
    | txt _ => trivial
    | ns hname => exact ⟨_, hname⟩
    | cname hname => exact ⟨_, hname⟩
    | ptr hname => exact ⟨_, hname⟩
    | mx hname => exact ⟨_, hname⟩
    | soa hm hr => exact ⟨_, _, _, _, hm, hr, rfl⟩
  · intro hfill
    cases type with
    | A =>
        obtain rfl : len = 4 := hlen
        exact ⟨_, rfl, .a⟩
    | TXT =>
        obtain rfl : len = octet d start + 1 := hlen
        have hstring : StringsAt d start [(d.drop (start + 1)).take (octet d start)]
            (start + 1 + octet d start) := .one (by omega) (by omega)
        have hend : start + 1 + octet d start = start + (octet d start + 1) := by omega
        rw [hend] at hstring
        exact ⟨_, rfl, .txt hstring⟩
    | NS =>
        obtain ⟨labels, hname⟩ := hfill
        exact ⟨_, rfl, .ns hname⟩
    | CNAME =>
        obtain ⟨labels, hname⟩ := hfill
        exact ⟨_, rfl, .cname hname⟩
    | PTR =>
        obtain ⟨labels, hname⟩ := hfill
        exact ⟨_, rfl, .ptr hname⟩
    | MX =>
        obtain ⟨labels, hname⟩ := hfill
        exact ⟨_, rfl, .mx hname⟩
    | SOA =>
        obtain ⟨mlabels, rlabels, q, stop, hm, hr, hstop⟩ := hfill
        rw [hstop]
        exact ⟨_, rfl, .soa hm hr⟩

theorem answerPass_cases {p cur : Nat} {record held : Pointer}
    (h : answerPass d fuel p record = .ok (held, cur)) :
    ∃ rr start, parseRrBase d fuel p = .ok (rr, start) ∧
      ((RrType.ofCode rr.type = none ∧ held = record ∧ cur = start) ∨
        ∃ type rdata, RrType.ofCode rr.type = some type ∧
          parseRdata d fuel rr start = .ok (rdata, cur) ∧ held = .to ⟨rr, rdata⟩) := by
  obtain ⟨⟨rr, start⟩, hbase, h⟩ := bind_eq_ok.mp h
  obtain ⟨⟨held', cur'⟩, hassign, h⟩ := bind_eq_ok.mp h
  simp only at hassign h
  split at h
  · cases h
  cases h
  refine ⟨rr, start, hbase, ?_⟩
  cases htype : RrType.ofCode rr.type with
  | none =>
      rw [assignRecord, htype] at hassign
      cases hassign
      exact .inl ⟨rfl, rfl, rfl⟩
  | some type =>
      rw [assignRecord_known htype record] at hassign
      cases hrdata : parseRdata d fuel rr start with
      | error e =>
          rw [hrdata] at hassign
          cases hassign
      | ok data =>
          rw [hrdata] at hassign
          cases hassign
          exact .inr ⟨type, data.1, rfl, rfl, rfl⟩

theorem parseAnswerRrsFrom_succ {n p stop : Nat} {record : Pointer} {res : List Pointer}
    (h : parseAnswerRrsFrom d fuel (n + 1) p record = .ok (res, stop)) :
    ∃ held cur rest, answerPass d fuel p record = .ok (held, cur) ∧
      parseAnswerRrsFrom d fuel n cur held = .ok (rest, stop) ∧ res = held :: rest := by
  obtain ⟨⟨held, cur⟩, hpass, h⟩ := bind_eq_ok.mp h
  obtain ⟨⟨rest, stop'⟩, hrest, h⟩ := bind_eq_ok.mp h
  cases h
  exact ⟨held, cur, rest, hpass, hrest, rfl⟩

private theorem afterPasses_succ {i p cur : Nat} {record held : Pointer}
    (h : answerPass d fuel p record = .ok (held, cur)) :
    afterPasses d fuel (i + 1) p record = afterPasses d fuel i cur held := by
  rw [afterPasses, h]
  rfl

/-- The first pass reads its record and leaves the cursor behind the data. -/
def FirstDecodes (d : Bytes) (p : Nat) (held : Pointer) (cur : Nat) : Prop :=
  ∃ rr start data, RrAt d p rr start ∧ rr.type = data.type.code ∧
    DataAt d start data (start + rr.len) ∧ held = .to ⟨rr, data.rdata⟩ ∧ cur = start + rr.len

theorem decodes_cons_iff {n p cur : Nat} {record held : Pointer} {rest : List Pointer}
    (h : answerPass d fuel p record = .ok (held, cur)) :
    Decodes d fuel (n + 1) p record (held :: rest) ↔
      FirstDecodes d p held cur ∧ Decodes d fuel n cur held rest := by
  constructor
  · rintro ⟨hcount, heach⟩
    refine ⟨?_, by simpa using hcount, fun i hi => ?_⟩
    · obtain ⟨held₀, cur₀, rr, start, data, held', hcur, hrr, htype, hdata, hres, hnext⟩ :=
        heach 0 (Nat.succ_pos n)
      cases hcur
      rw [afterPasses_succ h] at hnext
      cases hnext
      exact ⟨rr, start, data, hrr, htype, hdata, Option.some.inj hres, rfl⟩
    · have hnth := heach (i + 1) (Nat.succ_lt_succ hi)
      simp only [afterPasses_succ h, List.getElem?_cons_succ] at hnth
      exact hnth
  · rintro ⟨⟨rr, start, data, hrr, htype, hdata, rfl, rfl⟩, hcount, heach⟩
    refine ⟨congrArg Nat.succ hcount, fun i hi => ?_⟩
    cases i with
    | zero =>
        refine ⟨record, p, rr, start, data, .to ⟨rr, data.rdata⟩, rfl, hrr, htype, hdata, rfl, ?_⟩
        rw [afterPasses_succ h]
        rfl
    | succ i =>
        have hnth := heach i (Nat.lt_of_succ_lt_succ hi)
        simp only [afterPasses_succ h, List.getElem?_cons_succ]
        exact hnth

theorem decodes_nil (p : Nat) (record : Pointer) : Decodes d fuel 0 p record [] :=
  ⟨rfl, fun _ hi => absurd hi (Nat.not_lt_zero _)⟩

/-- The code reads well-formed data as it stands there, and leaves the cursor
behind it. -/
theorem firstDecodes_of_fill {p cur start : Nat} {record held : Pointer} {rr : RrBase}
    {type : RrType} (h : answerPass d fuel p record = .ok (held, cur)) (hrr : RrAt d p rr start)
    (htype : RrType.ofCode rr.type = some type)
    (hfill : NamesFill d start (start + rr.len) type) :
    FirstDecodes d p held cur ∧ cur = start + rr.len := by
  obtain ⟨rr', start', hbase, hcases⟩ := answerPass_cases h
  obtain ⟨rfl, rfl⟩ := eq_of_parseRrBase hrr hbase
  obtain ⟨_, hin⟩ := inside_of_parseRrBase hbase
  rcases hcases with ⟨hnone, _, _⟩ | ⟨type', rdata, htype', hread, rfl⟩
  · rw [hnone] at htype
    cases htype
  · obtain rfl := Option.some.inj (htype'.symm.trans htype)
    obtain ⟨data, rfl, hdata⟩ :=
      (dataAt_iff_namesFill (lengthChecked_of_parseRdata htype hread) hin).mpr hfill
    have hcode := RrType.code_of_ofCode htype
    obtain ⟨_, heq⟩ := (parseRdata_iff rr' hdata hin hcode).mp hread
    obtain ⟨rfl, rfl⟩ := Prod.mk.inj heq
    exact ⟨⟨rr', start', data, hrr, hcode, hdata, rfl, rfl⟩, rfl⟩

private theorem firstDecodes_iff {p cur : Nat} {record held : Pointer}
    (h : answerPass d fuel p record = .ok (held, cur)) :
    FirstDecodes d p held cur ↔
      ∃ rr start type, RrAt d p rr start ∧ RrType.ofCode rr.type = some type ∧
        NamesFill d start (start + rr.len) type := by
  constructor
  · rintro ⟨rr, start, data, hrr, hcode, hdata, _, _⟩
    obtain ⟨rr', start', hbase, hcases⟩ := answerPass_cases h
    obtain ⟨rfl, rfl⟩ := eq_of_parseRrBase hrr hbase
    obtain ⟨_, hin⟩ := inside_of_parseRrBase hbase
    have htype : RrType.ofCode rr'.type = some data.type := by
      rw [hcode]
      exact RrType.ofCode_code _
    rcases hcases with ⟨hnone, _, _⟩ | ⟨type', rdata, _, hread, _⟩
    · rw [hnone] at htype
      cases htype
    · have hlen := lengthChecked_of_parseRdata htype hread
      exact ⟨_, _, _, hrr, htype, (dataAt_iff_namesFill hlen hin).mp ⟨data, rfl, hdata⟩⟩
  · rintro ⟨rr, start, type, hrr, htype, hfill⟩
    exact (firstDecodes_of_fill h hrr htype hfill).1

/-- The result of a call that succeeds has the records of the datagram, one for
each pass, exactly when every type is known and every name is well formed, those
in the data to its end. -/
theorem parseAnswerRrs_decodes_iff (d : Bytes) (fuel n p stop : Nat) (record : Pointer)
    (res : List Pointer) (h : parseAnswerRrsFrom d fuel n p record = .ok (res, stop)) :
    Decodes d fuel n p record res ↔ Filled d n p := by
  induction n generalizing p record res with
  | zero =>
      cases h
      exact iff_of_true (decodes_nil _ record) .nil
  | succ n ih =>
      obtain ⟨held, cur, rest, hpass, hrest, rfl⟩ := parseAnswerRrsFrom_succ h
      rw [decodes_cons_iff hpass, ih cur held rest hrest]
      constructor
      · rintro ⟨hfirst, hfilled⟩
        obtain ⟨rr, start, type, hrr, htype, hfill⟩ := (firstDecodes_iff hpass).mp hfirst
        rw [(firstDecodes_of_fill hpass hrr htype hfill).2] at hfilled
        exact .cons hrr htype hfill hfilled
      · intro hfilled
        cases hfilled with
        | cons hrr htype hfill hfilled =>
            obtain ⟨hfirst, hcur⟩ := firstDecodes_of_fill hpass hrr htype hfill
            refine ⟨hfirst, ?_⟩
            rwa [hcur]

end

/-- The answers to a question for the addresses of `a`: its canonical name `b.a`
and an address of that. -/
def aliasResponse : Bytes :=
  [0, 1, 0x80, 0, 0, 1, 0, 2, 0, 0, 0, 0, 1, 97, 0, 0, 1, 0, 1,
    0xc0, 12, 0, 5, 0, 1, 0, 0, 0, 60, 0, 4, 1, 98, 0xc0, 12,
    0xc0, 31, 0, 1, 0, 1, 0, 0, 0, 60, 0, 4, 1, 2, 3, 4]

def aliasRecords : List Pointer :=
  [.to ⟨⟨[97], 5, 1, 60, 4⟩, .cname [98, DOT, 97, DOT]⟩,
    .to ⟨⟨[98, DOT, 97], 1, 1, 60, 4⟩, .a (toHostIp 0x04030201)⟩]

/-- Both records fill their places and are decoded, with the names behind their
pointers. -/
theorem parseAnswerRrs_decodes_alias :
    parseAnswerRrsFrom aliasResponse 3 2 19 .stray = .ok (aliasRecords, 51) ∧
      Decodes aliasResponse 3 2 19 .stray aliasRecords := by
  have hok : parseAnswerRrsFrom aliasResponse 3 2 19 .stray = .ok (aliasRecords, 51) := by
    decide
  have ha : NameAt aliasResponse 12 [[97]] 15 :=
    .label (by decide) (by decide) (.zero ⟨by decide, by decide⟩)
  have hpointer : ∀ cur, PointerAt aliasResponse cur 12 →
      NameAt aliasResponse cur [[97]] (cur + 2) := fun _ h => .pointer h ha
  have hat : ∀ cur, cur = 19 ∨ cur = 33 → PointerAt aliasResponse cur 12 := by
    rintro cur (rfl | rfl)
    · exact ⟨by decide, by decide, by decide, by decide⟩
    · exact ⟨by decide, by decide, by decide, by decide⟩
  have hb : NameAt aliasResponse 31 [[98], [97]] 35 :=
    .label (by decide) (by decide) (hpointer 33 (hat 33 (.inr rfl)))
  have hsecond : PointerAt aliasResponse 35 31 := ⟨by decide, by decide, by decide, by decide⟩
  have hcname : RrType.ofCode 5 = some .CNAME := by decide
  have haddress : RrType.ofCode 1 = some .A := by decide
  have hfilled : Filled aliasResponse 2 19 :=
    .cons ⟨_, _, hpointer 19 (hat 19 (.inl rfl)), rfl, rfl⟩ hcname ⟨_, hb⟩
      (.cons ⟨_, _, .pointer hsecond hb, rfl, rfl⟩ haddress trivial .nil)
  exact ⟨hok, (parseAnswerRrs_decodes_iff aliasResponse 3 2 19 51 .stray _ hok).mpr hfilled⟩

/-- The answers to the same question: the record of an IPv4 address and one of
type 28. -/
def mixedResponse : Bytes :=
  [0, 1, 0x80, 0, 0, 1, 0, 2, 0, 0, 0, 0, 1, 97, 0, 0, 1, 0, 1,
    0xc0, 12, 0, 1, 0, 1, 0, 0, 0, 60, 0, 4, 1, 2, 3, 4,
    0xc0, 12, 0, 28, 0, 1, 0, 0, 0, 60, 0, 16, 32, 1, 13, 184, 0, 0, 0, 0, 0, 0, 0, 0, 0, 0, 0, 1]

def mixedRecord : Record := ⟨⟨[97], 1, 1, 60, 4⟩, .a (toHostIp 0x04030201)⟩

/-- The second record is the first one again, and the cursor is left before the
data of the second. -/
theorem parseAnswerRrs_repeats_record :
    parseAnswerRrsFrom mixedResponse 3 2 19 .stray =
        .ok ([.to mixedRecord, .to mixedRecord], 47) ∧
      ¬ Decodes mixedResponse 3 2 19 .stray [.to mixedRecord, .to mixedRecord] := by
  have hafter : afterPasses mixedResponse 3 1 19 .stray = .ok (.to mixedRecord, 35) := by
    decide
  refine ⟨by decide, fun hdecodes => ?_⟩
  obtain ⟨held, cur, rr, start, data, held', hcur, hrr, _, _, hres, hnext⟩ :=
    hdecodes.each 1 (by decide)
  have htwo : afterPasses mixedResponse 3 2 19 .stray = .ok (.to mixedRecord, 47) := by
    decide
  rw [hafter] at hcur
  rw [htwo] at hnext
  cases hcur
  obtain ⟨labels, q, hname, rfl, hrr⟩ := hrr
  have hlt := nameAt_lt_next hname
  have hbase : mixedRecord.base = rr := by
    rw [show mixedRecord = ⟨rr, data.rdata⟩ from Pointer.to.inj (Option.some.inj hres)]
  have hstop : 47 = q + 10 + rr.len := congrArg Prod.snd (Except.ok.inj hnext)
  have hlen : rr.len = 4 := by
    rw [← hbase]
    rfl
  omega

end Angel.Dns
