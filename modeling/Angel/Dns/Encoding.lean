import Angel.Dns.Unpack

/-!
The names that `to_dns_name` encodes, how `parse_dns_name` reads them back, and
the size of the query that carries one.
-/

namespace Angel.Dns

open Angel.Lib

/-- Labels that a name may have, with the length of its encoding. -/
structure LegalLabels (labels : List Bytes) : Prop where
  some_label : labels ≠ []
  lengths : ∀ label ∈ labels, 1 ≤ label.length ∧ label.length ≤ 63
  no_dots : ∀ label ∈ labels, DOT ∉ label
  size : (wire labels).length ≤ 255

theorem wire_ne_nil (labels : List Bytes) : wire labels ≠ [] := by
  simp [wire]

private theorem split_intercalate {labels : List Bytes} (h : LegalLabels labels) :
    Util.split ([DOT].intercalate labels) DOT = labels :=
  List.splitOn_intercalate DOT h.no_dots h.some_label

theorem legalLabels_of_toDnsName {name : Bytes} (h : toDnsName name ≠ []) :
    LegalLabels (Util.split (bareName name) DOT) := by
  obtain ⟨-, hlengths, hsize⟩ := toDnsName_encoded h
  exact ⟨Util.split_ne_nil _ _, hlengths, Util.notMem_of_mem_split DOT _, hsize⟩

theorem toDnsName_intercalate {name : Bytes} {labels : List Bytes} (h : LegalLabels labels)
    (hname : bareName name = [DOT].intercalate labels) : toDnsName name = wire labels := by
  have hsplit : Util.split (bareName name) DOT = labels := hname ▸ split_intercalate h
  have hne : bareName name ≠ [] := by
    intro hnil
    rw [hnil] at hsplit
    have hlabel := (h.lengths [] (hsplit ▸ List.mem_cons_self)).1
    exact absurd hlabel (by decide)
  rw [toDnsName_eq, if_neg hne, hsplit, if_neg ((allowed_iff labels).mpr h.lengths), if_neg]
  exact Nat.not_lt.mpr h.size

theorem toDnsName_legal_iff (name : Bytes) :
    toDnsName name ≠ [] ↔
      ∃ labels, LegalLabels labels ∧ bareName name = [DOT].intercalate labels := by
  constructor
  · intro h
    exact ⟨_, legalLabels_of_toDnsName h, (Util.intercalate_split _ _).symm⟩
  · rintro ⟨labels, hlabels, hname⟩
    rw [toDnsName_intercalate hlabels hname]
    exact wire_ne_nil labels

private theorem getD_append_cons (front : Bytes) (c : UInt8) (rest : Bytes) :
    (front ++ c :: rest).getD front.length 0 = c := by
  simp [List.getD_eq_getElem?_getD]

theorem path_of_wire {labels : List Bytes}
    (h : ∀ label ∈ labels, 1 ≤ label.length ∧ label.length ≤ 63) (front rest : Bytes) :
    Path (front ++ wire labels ++ rest) front.length (labels.map .label) .zero
      (front.length + (wire labels).length) := by
  induction labels generalizing front with
  | nil =>
      apply Path.zero
      constructor
      · simp [wire]
      · rw [octet, List.append_assoc]
        exact congrArg UInt8.toNat (getD_append_cons front 0 rest)
  | cons label labels ih =>
      have hlabel := h label List.mem_cons_self
      have hrest := ih (fun l hl => h l (List.mem_cons_of_mem label hl))
        (front ++ UInt8.ofNat label.length :: label)
      have hshape : front ++ wire (label :: labels) ++ rest =
          front ++ (UInt8.ofNat label.length :: label) ++ wire labels ++ rest := by
        rw [wire_cons]
        simp only [List.append_assoc, List.cons_append]
      have hbyte : octet (front ++ wire (label :: labels) ++ rest) front.length = label.length := by
        rw [wire_cons, octet, List.append_assoc, List.cons_append, getD_append_cons,
          UInt8.toNat_ofNat']
        omega
      have hnext : (front ++ UInt8.ofNat label.length :: label).length =
          front.length + 1 + label.length := by
        rw [List.length_append, List.length_cons]
        omega
      have hdrop : (front ++ wire (label :: labels) ++ rest).drop (front.length + 1) =
          label ++ (wire labels ++ rest) := by
        have hcut : front ++ wire (label :: labels) ++ rest =
            (front ++ [UInt8.ofNat label.length]) ++ (label ++ (wire labels ++ rest)) := by
          rw [wire_cons]
          simp only [List.append_assoc, List.cons_append, List.nil_append]
        rw [hcut]
        exact List.drop_left' (by simp)
      rw [hnext, ← hshape, ← hbyte] at hrest
      have hwire := List.length_pos_iff.mpr (wire_ne_nil labels)
      have hlength : (front ++ wire (label :: labels) ++ rest).length =
          front.length + 1 + label.length + (wire labels).length + rest.length := by
        rw [hshape]
        simp only [List.length_append, List.length_cons]
        omega
      have hstep := Path.label ⟨by omega, by omega, by omega⟩ hrest
      rw [hdrop, hbyte, List.take_left] at hstep
      have hend : front.length + (wire (label :: labels)).length =
          front.length + 1 + label.length + (wire labels).length := by
        rw [wire_cons, List.length_cons, List.length_append]
        omega
      rw [hend]
      exact hstep

theorem labelsOf_map (labels : List Bytes) : labelsOf (labels.map .label) = labels := by
  induction labels with
  | nil => rfl
  | cons label labels ih => exact congrArg _ ih

private theorem endsInLabel_map {labels : List Bytes} (h : labels ≠ []) :
    EndsInLabel (labels.map .label) := by
  obtain ⟨front, last, rfl⟩ : ∃ front last, labels = front ++ [last] :=
    ⟨_, _, (List.dropLast_append_getLast h).symm⟩
  exact ⟨last, by rw [List.map_append, List.map_singleton, List.getLast?_concat]⟩

private theorem dotted_eq_intercalate {labels : List Bytes} (h : labels ≠ []) :
    dotted labels = [DOT].intercalate labels ++ [DOT] := by
  have hne : dotted labels ≠ [] := fun hnil => h ((dotted_eq_nil_iff labels).mp hnil)
  have hlast : (dotted labels).getLast hne = DOT := by
    have hdot := dotted_getLast? h
    rw [List.getLast?_eq_some_getLast hne] at hdot
    exact Option.some.inj hdot
  rw [← dotted_dropLast h, ← hlast, List.dropLast_append_getLast]

/-- What is encoded is read back, dot by dot, wherever it stands in a datagram. -/
theorem returns_toDnsName {name : Bytes} (h : toDnsName name ≠ []) (front rest : Bytes) :
    Returns (front ++ toDnsName name ++ rest) front.length
      (.name (bareName name ++ [DOT]) (front.length + (toDnsName name).length)) := by
  have hlegal := legalLabels_of_toDnsName h
  have hencoded := toDnsName_intercalate hlegal (Util.intercalate_split _ _).symm
  have hpath := returns_of_path (path_of_wire hlegal.lengths front rest)
  rw [spelled_zero (endsInLabel_map hlegal.some_label), labelsOf_map,
    dotted_eq_intercalate hlegal.some_label, Util.intercalate_split] at hpath
  rw [hencoded]
  exact hpath

def maxUdpSize : Nat := 512

/-- `dns_header`, as `pack` fills it in. -/
def queryHeader (id : Nat) : Bytes :=
  [id, 0x0100, 1, 0, 0, 0].flatMap fun field => object 2 (Sockops.htons field)

/-- `pack`; `none` is the failed `Assert`. -/
def pack (qc : QueryContext) : Option Bytes :=
  let buf := queryHeader qc.id
  let nType := Sockops.htons qc.qType
  let nClass := Sockops.htons qc.qClass
  let buf := buf ++ qc.qName ++ object 2 nType ++ object 2 nClass
  if buf.length ≤ maxUdpSize then some buf else none

theorem queryHeader_length (id : Nat) : (queryHeader id).length = 12 := by
  simp [queryHeader]

theorem pack_size (qc : QueryContext) : ∃ buf, pack qc = some buf ∧ buf.length ≤ 512 := by
  have hne : toDnsName qc.name ≠ [] := fun hnil => qc.qName_ne (qc.qName_eq.trans hnil)
  have hlegal := legalLabels_of_toDnsName hne
  have hencoded := toDnsName_intercalate hlegal (Util.intercalate_split _ _).symm
  have hsize : qc.qName.length ≤ 255 := by
    rw [qc.qName_eq, hencoded]
    exact hlegal.size
  have hlength : (queryHeader qc.id ++ qc.qName ++ object 2 (Sockops.htons qc.qType) ++
      object 2 (Sockops.htons qc.qClass)).length = 16 + qc.qName.length := by
    simp only [List.length_append, queryHeader_length, object_length]
    omega
  refine ⟨_, if_pos ?_, ?_⟩
  · rw [hlength, maxUdpSize]
    omega
  · rw [hlength]
    omega

/-- A name is encoded exactly when its labels are legal, its encoding is read
back to the name and a dot with the cursor behind the zero octet, and a query
for it fits a datagram. -/
theorem toDnsName_spec (name : Bytes) :
    (toDnsName name ≠ [] ↔
      ∃ labels, LegalLabels labels ∧ bareName name = [DOT].intercalate labels) ∧
    (toDnsName name ≠ [] → ∀ front rest,
      Returns (front ++ toDnsName name ++ rest) front.length
        (.name (bareName name ++ [DOT]) (front.length + (toDnsName name).length))) ∧
    ∀ qc : QueryContext, qc.name = name → ∃ buf, pack qc = some buf ∧ buf.length ≤ 512 :=
  ⟨toDnsName_legal_iff name, returns_toDnsName, fun qc _ => pack_size qc⟩

end Angel.Dns
