import Angel.Dns.Answers

/-!
When a well-formed response completes its query. The question has to come back
under the query's name, and the datagram has to end behind an answer section
that is not empty and that the code can read.
-/

namespace Angel.Dns

open Angel.Lib

/-- Lengths that a length octet can say. -/
def LabelLengths (labels : List Bytes) : Prop := ∀ label ∈ labels, 0 < label.length ∧ label.length < 256

theorem nameAt_labels {d : Bytes} {cur next : Nat} {labels : List Bytes}
    (h : NameAt d cur labels next) : LabelLengths labels := by
  induction h with
  | zero _ => simp [LabelLengths]
  | label hpos hmax rest ih =>
      intro label hmem
      rcases List.mem_cons.mp hmem with rfl | hrest
      · rw [labelText_length (nameAt_lt rest).le]
        omega
      · exact ih label hrest
  | pointer _ _ ih => exact ih

theorem wire_cons (label : Bytes) (labels : List Bytes) :
    wire (label :: labels) = UInt8.ofNat label.length :: (label ++ wire labels) := by
  simp [wire]

private theorem wire_nil_ne_cons (label : Bytes) (labels : List Bytes)
    (h : LabelLengths (label :: labels)) :
    wire [] ≠ wire (label :: labels) := by
  rw [wire_cons]
  intro heq
  have hlen := h label List.mem_cons_self
  have hnat := congrArg UInt8.toNat (List.cons.inj heq).1
  rw [UInt8.toNat_ofNat', Nat.mod_eq_of_lt hlen.2] at hnat
  exact hlen.1.ne hnat

theorem wire_injective {labels labels' : List Bytes} (h : wire labels = wire labels')
    (hlen : LabelLengths labels) (hlen' : LabelLengths labels') : labels = labels' := by
  induction labels generalizing labels' with
  | nil =>
      cases labels' with
      | nil => rfl
      | cons label' labels' => exact absurd h (wire_nil_ne_cons label' labels' hlen')
  | cons label labels ih =>
      cases labels' with
      | nil => exact absurd h.symm (wire_nil_ne_cons label labels hlen)
      | cons label' labels' =>
          rw [wire_cons, wire_cons] at h
          obtain ⟨hhead, htail⟩ := List.cons.inj h
          have hl := (hlen label List.mem_cons_self).2
          have hl' := (hlen' label' List.mem_cons_self).2
          have hnat := congrArg UInt8.toNat hhead
          rw [UInt8.toNat_ofNat', UInt8.toNat_ofNat', Nat.mod_eq_of_lt hl,
            Nat.mod_eq_of_lt hl'] at hnat
          obtain ⟨rfl, hrest⟩ := List.append_inj htail hnat
          rw [ih hrest (fun l hl => hlen l (List.mem_cons_of_mem _ hl))
            fun l hl => hlen' l (List.mem_cons_of_mem _ hl)]

theorem dotted_dropLast {labels : List Bytes} (h : labels ≠ []) :
    (dotted labels).dropLast = [DOT].intercalate labels := by
  induction labels with
  | nil => exact absurd rfl h
  | cons label labels ih =>
      rcases eq_or_ne labels [] with rfl | hne
      · simp [dotted]
      · have hdotted : dotted labels ≠ [] := fun hnil => hne ((dotted_eq_nil_iff _).mp hnil)
        rw [dotted_cons, List.dropLast_append_of_ne_nil hdotted, ih hne]
        obtain ⟨second, rest, rfl⟩ := List.exists_cons_of_ne_nil hne
        simp [List.intercalate]

/-- The name of a query without the dot of the root. -/
def bareName (name : Bytes) : Bytes := if name.getLast? = some DOT then name.dropLast else name

theorem toDnsName_eq (name : Bytes) :
    toDnsName name =
      if bareName name = [] then []
      else if (Util.split (bareName name) DOT).any fun label =>
          label.length = 0 || maxLabelSize < label.length then []
      else if maxNameSize < (wire (Util.split (bareName name) DOT)).length then []
      else wire (Util.split (bareName name) DOT) := rfl

theorem allowed_iff (labels : List Bytes) :
    ¬ (labels.any fun label => label.length = 0 || maxLabelSize < label.length) = true ↔
      ∀ label ∈ labels, 1 ≤ label.length ∧ label.length ≤ 63 := by
  have hmax : maxLabelSize = 63 := rfl
  simp only [List.any_eq_true, not_exists, not_and, Bool.or_eq_true, decide_eq_true_eq, not_or, hmax]
  refine forall₂_congr fun label _ => ?_
  omega

theorem toDnsName_encoded {name : Bytes} (h : toDnsName name ≠ []) :
    toDnsName name = wire (Util.split (bareName name) DOT) ∧
      (∀ label ∈ Util.split (bareName name) DOT, 1 ≤ label.length ∧ label.length ≤ 63) ∧
      (wire (Util.split (bareName name) DOT)).length ≤ maxNameSize := by
  rw [toDnsName_eq] at h ⊢
  split at h
  · exact absurd rfl h
  next hne =>
  split at h
  · exact absurd rfl h
  next hany =>
  split at h
  · exact absurd rfl h
  next hsize =>
  rw [if_neg hne, if_neg hany, if_neg hsize]
  exact ⟨rfl, (allowed_iff _).mp hany, Nat.le_of_not_lt hsize⟩

private theorem toDnsName_labels {name : Bytes} (h : toDnsName name ≠ []) :
    toDnsName name = wire (Util.split (bareName name) DOT) ∧
      LabelLengths (Util.split (bareName name) DOT) := by
  obtain ⟨hwire, hlengths, -⟩ := toDnsName_encoded h
  refine ⟨hwire, fun label hmem => ?_⟩
  have hlabel := hlengths label hmem
  omega

/-- The question of a query comes back under its name unless that ends in the
dot of the root. -/
theorem matchName_iff {qc : QueryContext} {d : Bytes} {p : Nat} {labels : List Bytes}
    (hname : NameAt d 12 labels p) (hwire : wire labels = qc.qName) (hne : labels ≠ []) :
    matchName qc.name (dotted labels) = true ↔ qc.name.getLast? ≠ some DOT := by
  have hlegal : toDnsName qc.name ≠ [] := fun hnil => qc.qName_ne (qc.qName_eq.trans hnil)
  obtain ⟨hq, hlen⟩ := toDnsName_labels hlegal
  have hlabels : labels = Util.split (bareName qc.name) DOT :=
    wire_injective (hwire.trans (qc.qName_eq.trans hq)) (nameAt_labels hname) hlen
  have hbare : (dotted labels).dropLast = bareName qc.name := by
    rw [dotted_dropLast hne, hlabels, Util.intercalate_split]
  rw [matchName, dotted_getLast? hne, if_pos rfl, hbare, decide_eq_true_eq, bareName]
  constructor
  · intro heq hlast
    rw [if_pos hlast] at heq
    have hlength := congrArg List.length heq
    have hnonempty : qc.name ≠ [] := by
      intro hnil
      rw [hnil] at hlast
      cases hlast
    have hpos := List.length_pos_of_ne_nil hnonempty
    rw [List.length_dropLast] at hlength
    omega
  · intro hlast
    rw [if_neg hlast]

theorem sectionAt_le {d : Bytes} {p n next : Nat} (h : SectionAt d p n next) : p ≤ next := by
  induction h with
  | nil => exact le_rfl
  | cons hname _ _ ih =>
      have hlt := nameAt_lt_next hname
      omega

private theorem sectionAt_zero_iff {d : Bytes} {p n next : Nat} (h : SectionAt d p n next) :
    n = 0 ↔ next = p := by
  cases h with
  | nil => simp
  | cons hname _ rest =>
      have hlt := nameAt_lt_next hname
      have hle := sectionAt_le rest
      constructor
      · intro hn
        cases hn
      · intro heq
        omega

private theorem answersAt_nil_iff {d : Bytes} {p next : Nat} {answers : List Answer}
    (h : AnswersAt d p answers next) : p ≤ next ∧ (answers = [] ↔ next = p) := by
  induction h with
  | nil => simp
  | cons hanswer _ ih =>
      obtain ⟨q, hname, _, _, _, _, hdata, rfl⟩ := hanswer.fields
      have hlt := nameAt_lt_next hname
      refine ⟨by omega, fun hnil => ?_, fun heq => ?_⟩
      · cases hnil
      · omega

/-- Nothing stands behind a last answer exactly when there is an answer and the
other sections are empty. -/
theorem answers_last_iff {d : Bytes} {p stop nsStop ns ar : Nat} {answers : List Answer}
    (hanswers : AnswersAt d p answers stop) (hns : SectionAt d stop ns nsStop)
    (har : SectionAt d nsStop ar d.length) :
    p < d.length ∧ stop = d.length ↔ answers ≠ [] ∧ ns = 0 ∧ ar = 0 := by
  obtain ⟨hle, hnil⟩ := answersAt_nil_iff hanswers
  have hns_le := sectionAt_le hns
  have har_le := sectionAt_le har
  rw [ne_eq, hnil, sectionAt_zero_iff hns, sectionAt_zero_iff har]
  omega

section

variable {d : Bytes} {fuel : Nat} {qc : QueryContext} {answers : List Answer}

private theorem qr_set (h : 128 ≤ octet d 2) : ¬ d.getD 2 0 >>> 7 = 0 := by
  intro hzero
  have hnat := congrArg UInt8.toNat hzero
  rw [UInt8.toNat_shiftRight, Nat.shiftRight_eq_div_pow] at hnat
  have hdiv : octet d 2 / 2 ^ 7 = 0 := hnat
  omega

private theorem rcode_clear (h : octet d 3 % 16 = 0) : ¬ (d.getD 3 0 &&& 0x0f) ≠ 0 := by
  rw [not_not]
  apply UInt8.toNat_inj.mp
  rw [UInt8.toNat_and]
  exact (Nat.and_two_pow_sub_one_eq_mod _ 4).trans h

/-- With a response in hand `unpack` is the reading of the question and of the
answers, and a comparison with the end of the datagram after each. -/
theorem unpack_iff (queryMap : Nat → Option QueryContext) (hpending : queryMap qc.id = some qc)
    (h : Response qc d answers) {labels : List Bytes} {p stop : Nat} (hname : NameAt d 12 labels p)
    (hin : p + 4 ≤ d.length) (htype : field d p 2 = qc.qType) (hclass : field d (p + 2) 2 = qc.qClass)
    (hanswers : AnswersAt d (p + 4) answers stop) {records : List Record} :
    unpack d fuel queryMap = .ok (qc, .result records) ↔
      Spells d fuel 12 ∧ matchName qc.name (dotted labels) = true ∧
        (p + 4 < d.length ∧ stop = d.length) ∧ (∀ answer ∈ answers, Readable d fuel answer) ∧
        records = answers.map Answer.record := by
  have hheader := h.header
  have hshort : ¬ d.length < 12 := by omega
  have hqd : ¬ field d 4 2 ≠ 1 := fun hne => hne h.qdCount
  rw [unpack, if_neg hshort]
  simp only [if_neg (qr_set h.qr), ntohs_u16 (show 0 + 2 ≤ d.length by omega), h.id, hpending,
    if_neg (rcode_clear h.rcode), ntohs_u16 (show 4 + 2 ≤ d.length by omega), if_neg hqd,
    ntohs_u16 (show 6 + 2 ≤ d.length by omega), h.anCount, bind_parseDname_iff hname]
  refine and_congr_right fun _ => ?_
  cases hmatch : matchName qc.name (dotted labels) with
  | false => simp
  | true =>
      rcases Nat.lt_or_ge (p + 4) d.length with hroom | hend
      · have hquestion : ¬ (p + 4 ≥ d.length ∨ qc.qType ≠ field d p 2 ∨
            qc.qClass ≠ field d (p + 2) 2) := by
          rintro (hge | hne | hne)
          · omega
          · exact hne htype.symm
          · exact hne hclass.symm
        simp only [Bool.not_true, Bool.false_eq_true, if_false,
          ntohs_u16 (show p + 2 ≤ d.length by omega), ntohs_u16 (show p + 2 + 2 ≤ d.length by omega),
          if_neg hquestion, bind_eq_ok]
        constructor
        · rintro ⟨r, hr, hrest⟩
          obtain ⟨hread, rfl⟩ := (parseAnswerRrs_iff hanswers).mp hr
          rcases eq_or_ne stop d.length with hstop | hstop
          · simp only [hstop, ne_eq, not_true, if_false, Except.ok.injEq, Prod.mk.injEq,
              Notice.result.injEq, true_and] at hrest
            exact ⟨trivial, ⟨hroom, hstop⟩, hread, hrest.symm⟩
          · simp only [if_pos hstop] at hrest
            cases hrest
        · rintro ⟨_, ⟨_, hstop⟩, hread, rfl⟩
          refine ⟨_, (parseAnswerRrs_iff hanswers).mpr ⟨hread, rfl⟩, ?_⟩
          exact if_neg (not_not.mpr hstop)
      · have hquestion : p + 4 ≥ d.length := hend
        simp [hquestion]

private theorem exists_nameAt_of_dataAt {p next : Nat} {data : AnswerData}
    (h : DataAt d p data next) :
    ∀ n ∈ data.names, ∃ labels stop, NameAt d n labels stop := by
  intro n hn
  cases h with
  | a => cases hn
  | txt => cases hn
  | ns hname => exact List.mem_singleton.mp hn ▸ ⟨_, _, hname⟩
  | cname hname => exact List.mem_singleton.mp hn ▸ ⟨_, _, hname⟩
  | mx hname => exact List.mem_singleton.mp hn ▸ ⟨_, _, hname⟩
  | ptr hname => exact List.mem_singleton.mp hn ▸ ⟨_, _, hname⟩
  | soa hm hr =>
      rcases List.mem_cons.mp hn with rfl | hn
      · exact ⟨_, _, hm⟩
      · exact List.mem_singleton.mp hn ▸ ⟨_, _, hr⟩

theorem exists_nameAt_of_answersAt {p next : Nat} (h : AnswersAt d p answers next) :
    ∀ answer ∈ answers, ∀ n ∈ answer.names, ∃ labels stop, NameAt d n labels stop := by
  induction h with
  | nil => simp
  | cons hanswer _ ih =>
      intro answer hmem n hn
      rcases List.mem_cons.mp hmem with rfl | hrest
      · obtain ⟨q, hname, _, _, _, _, hdata, _⟩ := hanswer.fields
        rcases List.mem_cons.mp hn with rfl | hn
        · exact ⟨_, _, hanswer.pos ▸ hname⟩
        · exact exists_nameAt_of_dataAt hdata n hn
      · exact ih answer hrest n hn

private theorem spells_mono {fuel' p : Nat} (hle : fuel ≤ fuel') (h : Spells d fuel p) :
    Spells d fuel' p := by
  obtain ⟨text, next, hok⟩ := h
  refine ⟨text, next, ?_⟩
  rw [parseDname] at hok
  cases hparse : parseDnsName d fuel p with
  | none =>
      rw [hparse] at hok
      cases hok
  | some o =>
      rw [hparse] at hok
      rw [parseDname, parseDnsName_le hle hparse]
      exact hok

private theorem exists_fuel_spells (names : List Nat)
    (hnames : ∀ n ∈ names, ∃ labels stop, NameAt d n labels stop)
    (hends : ∀ n ∈ names, EndsInLabelAt d n) : ∃ fuel, ∀ n ∈ names, Spells d fuel n := by
  induction names with
  | nil => exact ⟨0, by simp⟩
  | cons n names ih =>
      obtain ⟨fuel, hfuel⟩ := ih (fun m hm => hnames m (List.mem_cons_of_mem _ hm))
        fun m hm => hends m (List.mem_cons_of_mem _ hm)
      obtain ⟨labels, stop, hname⟩ := hnames n List.mem_cons_self
      obtain ⟨_, _, _, fuel', hreturns⟩ := parsed_of_nameAt hname
      have hok := parseDname_of_endsInLabelAt hname (hends n List.mem_cons_self) _ hreturns
      refine ⟨max fuel fuel', fun m hm => ?_⟩
      rcases List.mem_cons.mp hm with rfl | hm
      · exact spells_mono (Nat.le_max_right _ _) ⟨_, _, hok⟩
      · exact spells_mono (Nat.le_max_left _ _) (hfuel m hm)

/-- A response that the code completes its query with: there is an answer,
nothing stands behind the answers, no name is the root or ends in a pointer to a
zero octet, every text is one string, and the query's name does not end in a
dot. -/
structure Completes (qc : QueryContext) (d : Bytes) (answers : List Answer) : Prop where
  some_answer : answers ≠ []
  no_authority : field d 8 2 = 0
  no_additional : field d 10 2 = 0
  query_name : qc.name.getLast? ≠ some DOT
  question : EndsInLabelAt d 12
  names : ∀ answer ∈ answers, ∀ n ∈ answer.names, EndsInLabelAt d n
  texts : ∀ answer ∈ answers, answer.data.SingleString

/-- A pending query is resolved with exactly the answers of its response when
the response is one of these, and is left waiting by every other. -/
theorem unpack_resolves_iff (queryMap : Nat → Option QueryContext) (qc : QueryContext)
    (hpending : queryMap qc.id = some qc) (d : Bytes) (answers : List Answer)
    (h : Response qc d answers) :
    (∃ fuel, unpack d fuel queryMap = .ok (qc, .result (answers.map Answer.record))) ↔
      Completes qc d answers := by
  obtain ⟨labels, p, stop, nsStop, hname, hwire, hin, htype, hclass, hanswers, hns, har⟩ := h.sections
  have hall := exists_nameAt_of_answersAt hanswers
  constructor
  · rintro ⟨fuel, hok⟩
    obtain ⟨hspells, hmatch, hend, hread, _⟩ :=
      (unpack_iff queryMap hpending h hname hin htype hclass hanswers).mp hok
    obtain ⟨hsome, hauthority, hadditional⟩ := (answers_last_iff hanswers hns har).mp hend
    have hne := labels_ne_nil_of_spells hname hspells
    refine ⟨hsome, hauthority, hadditional, (matchName_iff hname hwire hne).mp hmatch,
      endsInLabelAt_of_spells hname hspells, ?_, fun answer hmem => (hread answer hmem).2⟩
    intro answer hmem n hn
    obtain ⟨_, _, hname'⟩ := hall answer hmem n hn
    exact endsInLabelAt_of_spells hname' ((hread answer hmem).1 n hn)
  · intro hc
    obtain ⟨fuel, hfuel⟩ := exists_fuel_spells (d := d) (12 :: answers.flatMap Answer.names)
      (by
        intro n hn
        rcases List.mem_cons.mp hn with rfl | hn
        · exact ⟨_, _, hname⟩
        · obtain ⟨answer, hmem, hn⟩ := List.mem_flatMap.mp hn
          exact hall answer hmem n hn)
      (by
        intro n hn
        rcases List.mem_cons.mp hn with rfl | hn
        · exact hc.question
        · obtain ⟨answer, hmem, hn⟩ := List.mem_flatMap.mp hn
          exact hc.names answer hmem n hn)
    have hspells := hfuel 12 List.mem_cons_self
    have hne := labels_ne_nil_of_spells hname hspells
    refine ⟨fuel, (unpack_iff queryMap hpending h hname hin htype hclass hanswers).mpr
      ⟨hspells, (matchName_iff hname hwire hne).mpr hc.query_name,
        (answers_last_iff hanswers hns har).mpr ⟨hc.some_answer, hc.no_authority, hc.no_additional⟩,
        fun answer hmem => ⟨fun n hn => ?_, hc.texts answer hmem⟩, rfl⟩⟩
    exact hfuel n (List.mem_cons_of_mem _ (List.mem_flatMap.mpr ⟨answer, hmem, hn⟩))

end

/-- A query for the address of `a`. -/
def addressQuery : QueryContext :=
  { id := 0x1234, name := ascii "a", qName := [0x01, 0x61, 0x00], qType := 1, qClass := 1
    qName_eq := by decide, qName_ne := by decide }

/-- Its answer, with the owner as a pointer to the question. -/
def addressResponse : Bytes :=
  [0x12, 0x34, 0x81, 0x80, 0x00, 0x01, 0x00, 0x01, 0x00, 0x00, 0x00, 0x00,
    0x01, 0x61, 0x00, 0x00, 0x01, 0x00, 0x01,
    0xc0, 0x0c, 0x00, 0x01, 0x00, 0x01, 0x00, 0x00, 0x00, 0x3c, 0x00, 0x04, 0x7f, 0x00, 0x00, 0x01]

def addressAnswer : Answer :=
  { owner := ⟨19, [[0x61]]⟩, _class := 1, ttl := 60, len := 4, data := .a [0x7f, 0x00, 0x00, 0x01] }

/-- The same without an answer. -/
def emptyResponse : Bytes :=
  [0x12, 0x34, 0x81, 0x80, 0x00, 0x01, 0x00, 0x00, 0x00, 0x00, 0x00, 0x00,
    0x01, 0x61, 0x00, 0x00, 0x01, 0x00, 0x01]

theorem unpack_resolves_address :
    ∃ fuel, unpack addressResponse fuel (fun _ => some addressQuery) =
      .ok (addressQuery, .result [addressAnswer.record]) := by
  have hquestion : NameAt addressResponse 12 [[0x61]] 15 :=
    .label (by decide) (by decide) (.zero ⟨by decide, by decide⟩)
  have howner : NameAt addressResponse 19 [[0x61]] 21 :=
    .pointer (p := 12) ⟨by decide, by decide, by decide, by decide⟩ hquestion
  have hanswer : AnswerAt addressResponse 19 addressAnswer 35 :=
    ⟨rfl, ⟨21, howner, by decide, by decide, by decide, by decide, .a, rfl⟩, by decide⟩
  have hresponse : Response addressQuery addressResponse [addressAnswer] :=
    ⟨by decide, by decide, by decide, by decide, by decide, by decide,
      ⟨[[0x61]], 15, 35, 35, hquestion, by decide, by decide, by decide, by decide,
        .cons hanswer .nil, .nil, .nil⟩⟩
  have hquestionPath : Path addressResponse 12 [.label [0x61]] .zero 15 :=
    .label ⟨by decide, by decide, by decide⟩ (.zero ⟨by decide, by decide⟩)
  have hownerPath : Path addressResponse 19 [.pointer, .label [0x61]] .zero 21 :=
    .pointer (p := 12) ⟨by decide, by decide, by decide, by decide⟩ hquestionPath
  have hcompletes : Completes addressQuery addressResponse [addressAnswer] :=
    { some_answer := by decide
      no_authority := by decide
      no_additional := by decide
      query_name := by decide
      question := (endsInLabelAt_iff hquestionPath).mpr ⟨_, rfl⟩
      names := by
        intro answer hmem n hn
        obtain rfl := List.mem_singleton.mp hmem
        obtain rfl := List.mem_singleton.mp hn
        exact (endsInLabelAt_iff hownerPath).mpr ⟨_, rfl⟩
      texts := by
        intro answer hmem
        obtain rfl := List.mem_singleton.mp hmem
        trivial }
  exact (unpack_resolves_iff (fun _ => some addressQuery) addressQuery rfl addressResponse
    [addressAnswer] hresponse).mpr hcompletes

/-- A response without answers is well formed and resolves nothing. -/
theorem unpack_ignores_empty_answer :
    Response addressQuery emptyResponse [] ∧
      ¬ ∃ fuel, unpack emptyResponse fuel (fun _ => some addressQuery) =
        .ok (addressQuery, .result []) := by
  have hquestion : NameAt emptyResponse 12 [[0x61]] 15 :=
    .label (by decide) (by decide) (.zero ⟨by decide, by decide⟩)
  have hresponse : Response addressQuery emptyResponse [] :=
    ⟨by decide, by decide, by decide, by decide, by decide, by decide,
      ⟨[[0x61]], 15, 19, 19, hquestion, by decide, by decide, by decide, by decide, .nil, .nil,
        .nil⟩⟩
  refine ⟨hresponse, ?_⟩
  rintro ⟨fuel, hok⟩
  obtain ⟨_, _, ⟨hroom, _⟩, _⟩ := (unpack_iff (fun _ => some addressQuery) rfl hresponse hquestion
    (by decide) (by decide) (by decide) .nil).mp hok
  exact absurd hroom (by decide)

end Angel.Dns
