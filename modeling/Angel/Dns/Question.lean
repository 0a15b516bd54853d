import Angel.Dns.Encoding

/-!
`resolver::query`. A name is stored as it was given and sent in its wire form,
which has no dot for the root; a name for `PTR` is rewritten before. The question
that comes back is compared with the stored name.
-/

namespace Angel.Dns

open Angel.Lib

/-- `to_arpa_name`; the empty string unless there are four fields. -/
def toArpaName (name : Bytes) : Bytes :=
  match Util.split name DOT with
  | [first, second, third, fourth] =>
      fourth ++ [DOT] ++ third ++ [DOT] ++ second ++ [DOT] ++ first ++ ascii ".in-addr.arpa"
  | _ => []

/-- `get_type_str`; `none` is the null pointer. -/
def getTypeStr (type : Nat) : Option String :=
  match RrType.ofCode type with
  | some .A => some "A"
  | some .NS => some "NS"
  | some .MX => some "MX"
  | some .SOA => some "SOA"
  | some .PTR => some "PTR"
  | some .TXT => some "TXT"
  | some .CNAME => some "CNAME"
  | none => none

/-- How a call of `query` ends. -/
inductive Asked where
  /-- A future that is not valid. -/
  | invalid
  /-- `to_dns_name` takes the last character of an empty view. -/
  | undefined
  | started (qc : QueryContext)

/-- The name that `query` encodes. -/
def askedName (name : Bytes) (qType : Nat) : Bytes :=
  if qType = RrType.PTR.code then toArpaName name else name

/-- `query`, with the id that `do_query` draws. -/
def query (id : Nat) (name : Bytes) (qType qClass : Nat) : Asked :=
  if getTypeStr qType = none ∨ name = [] then .invalid
  else if askedName name qType = [] then .undefined
  else if h : toDnsName (askedName name qType) = [] then .invalid
  else .started ⟨id, askedName name qType, toDnsName (askedName name qType), qType, qClass, rfl, h⟩

/-- The datagram has the bytes of the packet behind its header. -/
def Repeats (packet d : Bytes) : Prop :=
  ∃ header rest, header.length = 12 ∧ d = header ++ packet.drop 12 ++ rest

/-- A response that repeats the question of the query passes the comparison of
names in `unpack`. -/
def QueryContext.Recognises (qc : QueryContext) : Prop :=
  ∀ packet d, pack qc = some packet → Repeats packet d →
    ∃ text cur, Returns d 12 (.name text cur) ∧ text ≠ [] ∧ matchName qc.name text = true

/-- No view is empty, and a query that is started can be answered. -/
def Asked.Answerable : Asked → Prop
  | .invalid => True
  | .undefined => False
  | .started qc => qc.Recognises

theorem getTypeStr_eq_none_iff (type : Nat) : getTypeStr type = none ↔ RrType.ofCode type = none := by
  unfold getTypeStr
  split <;> simp_all

private theorem bareName_eq_self_iff {name : Bytes} :
    bareName name = name ↔ name.getLast? ≠ some DOT := by
  unfold bareName
  split
  · next hlast =>
      refine iff_of_false (fun heq => ?_) fun h => h hlast
      have hlength := congrArg List.length heq
      have hpos : 0 < name.length := List.length_pos_of_ne_nil (by
        rintro rfl
        cases hlast)
      rw [List.length_dropLast] at hlength
      omega
  · next hlast => exact iff_of_true rfl hlast

theorem matchName_bareName_iff (name : Bytes) :
    matchName name (bareName name ++ [DOT]) = true ↔ name.getLast? ≠ some DOT := by
  rw [matchName, List.getLast?_concat, if_pos rfl, List.dropLast_concat, decide_eq_true_eq, eq_comm,
    bareName_eq_self_iff]

theorem pack_eq {qc : QueryContext} {packet : Bytes} (h : pack qc = some packet) :
    packet = queryHeader qc.id ++
      (qc.qName ++ object 2 (Sockops.htons qc.qType) ++ object 2 (Sockops.htons qc.qClass)) := by
  simp only [pack] at h
  split at h
  · rw [← Option.some.inj h]
    simp only [List.append_assoc]
  · cases h

theorem pack_question {qc : QueryContext} {packet : Bytes} (h : pack qc = some packet) :
    packet.drop 12 =
      qc.qName ++ object 2 (Sockops.htons qc.qType) ++ object 2 (Sockops.htons qc.qClass) := by
  rw [pack_eq h]
  exact List.drop_left' (queryHeader_length qc.id)

private theorem repeats_self {qc : QueryContext} {packet : Bytes} (h : pack qc = some packet) :
    Repeats packet packet := by
  refine ⟨queryHeader qc.id, [], queryHeader_length qc.id, ?_⟩
  rw [pack_question h, List.append_nil]
  exact pack_eq h

/-- The name of a question that is repeated, as `parse_dns_name` returns it. -/
theorem returns_question {qc : QueryContext} {packet d : Bytes} (h : pack qc = some packet)
    (hd : Repeats packet d) :
    Returns d 12 (.name (bareName qc.name ++ [DOT]) (12 + qc.qName.length)) := by
  obtain ⟨header, rest, hheader, rfl⟩ := hd
  have hne : toDnsName qc.name ≠ [] := fun hnil => qc.qName_ne (qc.qName_eq.trans hnil)
  have hreturns := returns_toDnsName hne header
    (object 2 (Sockops.htons qc.qType) ++ object 2 (Sockops.htons qc.qClass) ++ rest)
  rw [hheader, ← qc.qName_eq] at hreturns
  rw [pack_question h]
  simpa only [List.append_assoc] using hreturns

/-- A query recognises its question exactly when its name has no dot at the end. -/
theorem recognises_iff (qc : QueryContext) : qc.Recognises ↔ qc.name.getLast? ≠ some DOT := by
  constructor
  · intro h
    obtain ⟨packet, hpack, _⟩ := pack_size qc
    obtain ⟨text, cur, hreturns, _, hmatch⟩ := h packet packet hpack (repeats_self hpack)
    have hsame := returns_unique hreturns (returns_question hpack (repeats_self hpack))
    obtain ⟨rfl, rfl⟩ := Parsed.name.inj hsame
    exact (matchName_bareName_iff qc.name).mp hmatch
  · intro hlast packet d hpack hrepeats
    refine ⟨_, _, returns_question hpack hrepeats, ?_, (matchName_bareName_iff qc.name).mpr hlast⟩
    exact List.append_ne_nil_of_right_ne_nil _ (List.cons_ne_nil _ _)

theorem toArpaName_ne_nil_iff (name : Bytes) :
    toArpaName name ≠ [] ↔ (Util.split name DOT).length = 4 := by
  unfold toArpaName
  split
  · next hsplit => simp [hsplit, ascii]
  · next hother =>
      refine iff_of_false (fun h => h rfl) fun hfour => ?_
      match hsplit : Util.split name DOT, hfour with
      | [first, second, third, fourth], _ => exact hother _ _ _ _ hsplit

theorem toArpaName_getLast? {name : Bytes} (h : toArpaName name ≠ []) :
    (toArpaName name).getLast? ≠ some DOT := by
  unfold toArpaName at h ⊢
  split at h
  · rw [List.getLast?_append_of_ne_nil _ (by decide)]
    decide
  · exact absurd rfl h

/-- The type is one that `query` refuses, or the name is empty. -/
def Refused (name : Bytes) (qType : Nat) : Prop := RrType.ofCode qType = none ∨ name = []

/-- A name with labels that can be encoded. -/
def LegalName (name : Bytes) : Prop := ∃ labels, LegalLabels labels ∧ bareName name = [DOT].intercalate labels

theorem answerable_cases (id : Nat) (name : Bytes) (qType qClass : Nat) :
    (query id name qType qClass).Answerable ↔
      Refused name qType ∨ askedName name qType ≠ [] ∧
        (toDnsName (askedName name qType) ≠ [] → (askedName name qType).getLast? ≠ some DOT) := by
  unfold query Refused
  split
  · next hrefused =>
      rw [getTypeStr_eq_none_iff] at hrefused
      exact iff_of_true trivial (.inl hrefused)
  · next hrefused =>
      rw [getTypeStr_eq_none_iff] at hrefused
      rw [or_iff_right hrefused]
      split
      · next hempty => exact iff_of_false (fun h => h) fun h => h.1 hempty
      · next hempty =>
          rw [and_iff_right hempty]
          split
          · next hillegal => exact iff_of_true trivial fun hlegal => absurd hillegal hlegal
          · next hlegal => exact (recognises_iff _).trans ⟨fun h _ => h, fun h => h hlegal⟩

/-- Every query that is accepted can be answered, and no empty view is encoded,
exactly where a name for `PTR` has four fields and a legal name for another type
does not end in a dot. -/
theorem query_answerable_iff (id : Nat) (name : Bytes) (qType qClass : Nat) :
    (query id name qType qClass).Answerable ↔
      Refused name qType ∨
        (if qType = RrType.PTR.code then (Util.split name DOT).length = 4
          else LegalName name → name.getLast? ≠ some DOT) := by
  rw [answerable_cases]
  by_cases hrefused : Refused name qType
  · exact iff_of_true (.inl hrefused) (.inl hrefused)
  rw [or_iff_right hrefused, or_iff_right hrefused]
  unfold askedName
  split
  · rw [toArpaName_ne_nil_iff]
    exact and_iff_left_of_imp fun hfour _ => toArpaName_getLast? ((toArpaName_ne_nil_iff name).mpr hfour)
  · have hname : name ≠ [] := fun hnil => hrefused (.inr hnil)
    rw [toDnsName_legal_iff, and_iff_right hname]
    rfl

/-- The dot of the root in a name, and an address of three fields. -/
theorem query_answerable_fails :
    ¬ (query 1 (ascii "a.") RrType.A.code 1).Answerable ∧
      ¬ (query 1 (ascii "1.2.3") RrType.PTR.code 1).Answerable := by
  simp only [answerable_cases, Refused]
  constructor <;> decide

end Angel.Dns
