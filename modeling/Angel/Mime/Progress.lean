import Angel.Mime.Grammar

/-!
Where a node of the parser is in the body that it reads. The relation says what
the node has collected and what is still to come; each case of `parse` takes the
node on until the bytes run out, the multipart is complete, or a part is met
that is not accepted.
-/

namespace Angel.Mime

open Angel.Lib Util Buffer Http

/-- The current part is decoded from `text` alone, unless it is not accepted. -/
structure Decoding (own : ContentValue) (boundary : Boundary) (part : Entity) (node : Node)
    (text : Bytes) : Prop where
  free : ¬ delimiter boundary.bytes <:+: text
  shows : (node.decode text).1 = true → Shows own part (node.decode text).2
  refused : (node.decode text).1 = false → ¬ part.Accepted

/-- A node that reads the parts of a multipart, and what is still to come of
them. -/
inductive Reading : NodeData → Option TextLine → Boundary → List Entity → Node → Bytes → Prop where
  | dash {data : NodeData} {preamble : Option TextLine} {boundary : Boundary} {parts : List Entity} :
      Reading data preamble boundary parts
        (.multipart data boundary.bytes .dashBoundary [] [] none)
        (opening preamble ++ (dashBoundary boundary.bytes ++
          Entity.content.behind boundary.bytes parts))
  | header {data : NodeData} {boundary : Boundary} {done parts : List Entity} {part : Entity}
      {nodes : List Node} {read todo : List FieldLine}
      (hdone : List.Forall₂ (Shows data.contentType) done nodes)
      (hfields : part.fields = read ++ todo) :
      Reading data none boundary (done ++ part :: parts)
        (.multipart data boundary.bytes .headerPart nodes (Headers.enterAll [] read) none)
        (renderFields todo ++ CRLF ++ (part.content ++ (delimiter boundary.bytes ++
          Entity.content.behind boundary.bytes parts)))
  | inner {data data' : NodeData} {boundary boundary' : Boundary} {done parts parts' : List Entity}
      {padding : Padding} {fields : List FieldLine} {preamble : Option TextLine} {rest : Bytes}
      {nodes : List Node} {child : Node} {remaining : Bytes}
      (hdone : List.Forall₂ (Shows data.contentType) done nodes)
      (hheaders : data'.headers = Headers.enterAll [] fields)
      (hannounced : Announces data'.headers data'.contentType boundary'.bytes)
      (hbody : data'.body = [])
      (hchild : Reading data' preamble boundary' parts' child remaining) :
      Reading data none boundary
        (done ++ .multipart padding fields preamble boundary' parts' rest :: parts)
        (.multipart data boundary.bytes .headerPart nodes [] (some child))
        (remaining ++ (rest ++ (delimiter boundary.bytes ++
          Entity.content.behind boundary.bytes parts)))
  | body {data : NodeData} {boundary : Boundary} {done parts : List Entity} {part : Entity}
      {nodes : List Node} {node : Node} {text : Bytes}
      (hdone : List.Forall₂ (Shows data.contentType) done nodes)
      (hpart : Decoding data.contentType boundary part node text) :
      Reading data none boundary (done ++ part :: parts)
        (.multipart data boundary.bytes .bodyPart nodes [] (some node))
        (text ++ (delimiter boundary.bytes ++ Entity.content.behind boundary.bytes parts))
  | delimiter {data : NodeData} {boundary : Boundary} {done parts : List Entity} {part : Entity}
      {nodes : List Node} {node : Node}
      (hdone : List.Forall₂ (Shows data.contentType) done nodes)
      (hpart : Shows data.contentType part node) :
      Reading data none boundary (done ++ part :: parts)
        (.multipart data boundary.bytes .delimiter nodes [] (some node))
        (Entity.content.behind boundary.bytes parts)

/-- What a multipart with the boundary `boundary` holds. -/
structure WellFormedBody (preamble : Option TextLine) (boundary : Boundary) (parts : List Entity) :
    Prop where
  preamble : PreambleFree preamble boundary
  nonempty : parts ≠ []
  parts : ∀ part ∈ parts, part.WellFormed boundary

/-- `parse` stops with an error or without a return code. -/
def Failed (r : ParseResult) : Prop :=
  (∃ fault, r = .error fault) ∨ ∃ node buf, r = .ok (.error, node, buf)

/-- What a call comes to, when `more` is to arrive and `tail` stands behind the
close-delimiter: it waits for the rest of the multipart, has read all of it and
skipped what has arrived of the padding, or is at a part that is not accepted. -/
def Progress (data : NodeData) (preamble : Option TextLine) (boundary : Boundary)
    (parts : List Entity) (more tail : Bytes) (r : ParseResult) : Prop :=
  (∃ node remaining buf, r = .ok (.notEnough, node, buf) ∧
    Reading data preamble boundary parts node remaining ∧ buf ++ more = remaining ++ tail ∧
    buf.length < remaining.length) ∨
  (preamble = none ∧ ∃ nodes extra,
    r = .ok (.ok, .multipart data boundary.bytes .delimiter nodes [] none, skipLwspChar extra) ∧
    List.Forall₂ (Shows data.contentType) parts nodes ∧ extra ++ more = tail) ∨
  (Failed r ∧ ¬ (preamble = none ∧ ∀ part ∈ parts, part.Accepted))

/-- `parse` does what it is for, where the depth and the bytes are below `n`. -/
def Proceeds (parse : Node → Bytes → ParseResult) (n : Nat) : Prop :=
  ∀ {data : NodeData} {preamble : Option TextLine} {boundary : Boundary} {parts : List Entity}
    {node : Node} {remaining buf more tail : Bytes},
    Reading data preamble boundary parts node remaining → WellFormedBody preamble boundary parts →
    buf ++ more = remaining ++ tail → node.depth + buf.length < n →
    Progress data preamble boundary parts more tail (parse node buf)

theorem CR_not_mem_boundaryLine (boundary : Boundary) : CR ∉ LF :: dashBoundary boundary.bytes := by
  intro hmem
  rw [dashBoundary, List.mem_cons, List.mem_append] at hmem
  rcases hmem with heq | hmem | hmem
  · exact absurd heq (by decide)
  · exact absurd hmem (by decide)
  · exact (boundary.plain CR hmem).1 rfl

theorem CR_not_mem_dashBoundary (boundary : Boundary) : CR ∉ dashBoundary boundary.bytes :=
  fun hmem => CR_not_mem_boundaryLine boundary (List.mem_cons_of_mem LF hmem)

theorem startsWith_line {s line : Bytes} (hs : CR ∉ s) (h : ¬ s <+: line) (rest : Bytes) :
    startsWith (line ++ CRLF ++ rest) s = false := by
  rw [startsWith, Bool.eq_false_iff, ne_eq, List.isPrefixOf_iff_prefix]
  intro hstart
  rcases Nat.lt_or_ge line.length s.length with hlt | hle
  · have hline : line ++ [CR] <+: s := by
      apply List.prefix_of_prefix_length_le _ hstart
      · rw [List.length_append]
        exact hlt
      · exact ⟨LF :: rest, by simp [CRLF, CR, LF]⟩
    exact hs (hline.subset (by simp))
  · apply h
    apply List.prefix_of_prefix_length_le hstart _ hle
    rw [List.append_assoc]
    exact List.prefix_append _ _

theorem Padding.CR_not_mem (padding : Padding) : CR ∉ padding.bytes := by
  intro hmem
  exact absurd (padding.lwsp CR hmem) (by decide)

theorem boundaryLine_unbroken (boundary : Boundary) (padding : Padding) :
    ¬ CRLF <:+: dashBoundary boundary.bytes ++ padding.bytes := by
  apply not_crlf_of_not_mem
  intro hmem
  rcases List.mem_append.mp hmem with hmem | hmem
  · exact CR_not_mem_dashBoundary boundary hmem
  · exact padding.CR_not_mem hmem

theorem padding_unbroken (padding : Padding) : ¬ CRLF <:+: padding.bytes :=
  not_crlf_of_not_mem padding.CR_not_mem

theorem not_startsWith_hyphens (padding : Padding) (rest : Bytes) :
    ¬ startsWith (padding.bytes ++ CRLF ++ rest) TWO_HYPHEN = true := by
  have hhead : ∀ c s, islwsp c = true ∨ c = CR → ¬ startsWith (c :: s) TWO_HYPHEN = true := by
    intro c s hc hstart
    rw [startsWith, List.isPrefixOf_iff_prefix] at hstart
    obtain ⟨behind, hbehind⟩ := hstart
    obtain ⟨rfl, _⟩ := List.cons.inj hbehind
    exact absurd hc (by decide)
  cases hbytes : padding.bytes with
  | nil => exact hhead CR (LF :: rest) (.inr rfl)
  | cons c bytes =>
      have hc : islwsp c = true := padding.lwsp c (by rw [hbytes]; exact List.mem_cons_self)
      exact hhead c _ (.inl hc)

theorem skipLwspChar_stream {buf more text rest : Bytes} (h : buf ++ more = text ++ CR :: rest) :
    ∃ left, left <:+ text ∧ skipLwspChar buf ++ more = left ++ CR :: rest := by
  induction buf generalizing text with
  | nil => exact ⟨text, List.suffix_refl text, h⟩
  | cons c buf ih =>
      by_cases hc : islwsp c = true
      · cases text with
        | nil =>
            obtain ⟨rfl, _⟩ := List.cons.inj h
            exact absurd hc (by decide)
        | cons d text =>
            obtain ⟨left, hleft, hskip⟩ := ih (List.cons.inj h).2
            refine ⟨left, hleft.trans (List.suffix_cons d text), ?_⟩
            rw [skipLwspChar, List.dropWhile_cons, if_pos hc]
            exact hskip
      · refine ⟨text, List.suffix_refl text, ?_⟩
        rw [skipLwspChar, List.dropWhile_cons, if_neg hc]
        exact h

theorem skipLwspChar_length (buf : Bytes) : (skipLwspChar buf).length ≤ buf.length :=
  (List.dropWhile_suffix _).length_le

section

variable {parse : Node → Bytes → ParseResult} {n : Nat} {data : NodeData}
  {preamble : Option TextLine} {boundary : Boundary} {done parts : List Entity} {part : Entity}
  {nodes : List Node} {buf more tail : Bytes}

theorem Progress.waits {r : ParseResult} {node : Node} {remaining buf : Bytes}
    (hresult : r = .ok (.notEnough, node, buf))
    (hreading : Reading data preamble boundary parts node remaining)
    (hbuf : buf ++ more = remaining ++ tail) (hshort : buf.length < remaining.length) :
    Progress data preamble boundary parts more tail r :=
  .inl ⟨node, remaining, buf, hresult, hreading, hbuf, hshort⟩

theorem Progress.complete {r : ParseResult} {nodes : List Node} {extra : Bytes}
    (hresult : r = .ok (.ok, .multipart data boundary.bytes .delimiter nodes [] none,
      skipLwspChar extra))
    (hnodes : List.Forall₂ (Shows data.contentType) parts nodes) (hextra : extra ++ more = tail) :
    Progress data none boundary parts more tail r :=
  .inr (.inl ⟨rfl, nodes, extra, hresult, hnodes, hextra⟩)

theorem Progress.stops {r : ParseResult} (hfailed : Failed r) (hpart : part ∈ parts)
    (hnot : ¬ part.Accepted) : Progress data preamble boundary parts more tail r :=
  .inr (.inr ⟨hfailed, fun h => hnot (h.2 part hpart)⟩)

theorem delimiterCase_waits (node : Node) (padding : Padding) {left : Bytes} (hleft : left ≠ [])
    (h : buf ++ left = TWO_HYPHEN ∨ buf ++ left = padding.bytes ++ CRLF) :
    delimiterCase parse data boundary.bytes nodes [] (some node) buf =
      .ok (.notEnough, .multipart data boundary.bytes .delimiter nodes [] (some node), buf) := by
  rw [delimiterCase]
  by_cases hlen : buf.length < 2
  · rw [if_pos hlen]
  rw [if_neg hlen]
  rcases h with h | h
  · have hshort := arrived_length_lt hleft h
    exact absurd hshort hlen
  · have hnone : findCrlf buf = none := findCrlf_incomplete (padding_unbroken padding) h hleft
    have hstart : ¬ startsWith buf TWO_HYPHEN = true := by
      intro hstart
      apply not_startsWith_hyphens padding []
      rw [List.append_nil, ← h]
      rw [startsWith, List.isPrefixOf_iff_prefix] at hstart ⊢
      exact hstart.trans (List.prefix_append buf left)
    rw [if_neg hstart, hnone]

theorem delimiterCase_close (node : Node) (extra : Bytes) :
    delimiterCase parse data boundary.bytes nodes [] (some node) (TWO_HYPHEN ++ extra) =
      .ok (.ok, .multipart data boundary.bytes .delimiter (nodes ++ [node]) [] none,
        skipLwspChar extra) := by
  have hlen : ¬ (TWO_HYPHEN ++ extra).length < 2 := by
    rw [List.length_append]
    exact Nat.not_lt.mpr (Nat.le_add_right 2 _)
  rw [delimiterCase, if_neg hlen, if_pos (startsWith_append TWO_HYPHEN extra)]
  rfl

private theorem delimiterCase_line (node : Node) (padding : Padding) (extra : Bytes) :
    delimiterCase parse data boundary.bytes nodes [] (some node) (padding.bytes ++ CRLF ++ extra) =
      parse (.multipart data boundary.bytes .headerPart (nodes ++ [node]) [] none) extra := by
  have hlen : ¬ (padding.bytes ++ CRLF ++ extra).length < 2 := by
    have htwo : CRLF.length = 2 := rfl
    simp only [List.length_append]
    omega
  have hcrlf : findCrlf (padding.bytes ++ CRLF ++ extra) = some padding.bytes.length :=
    findCrlf_line (padding_unbroken padding) extra
  have hall : ((padding.bytes ++ CRLF ++ extra).take padding.bytes.length).all islwsp = true := by
    rw [take_line]
    exact List.all_eq_true.mpr padding.lwsp
  rw [delimiterCase, if_neg hlen, if_neg (not_startsWith_hyphens padding extra), hcrlf]
  simp only [hall, Bool.not_true, Bool.false_eq_true, if_false, drop_line]

private theorem headers_progress (hparse : Proceeds parse n)
    (hdone : List.Forall₂ (Shows data.contentType) done nodes)
    (hok : WellFormedBody none boundary (done ++ part :: parts))
    (hbuf : buf ++ more = renderFields part.fields ++ (CRLF ++ (part.content ++
      (delimiter boundary.bytes ++ Entity.content.behind boundary.bytes parts))) ++ tail)
    (hsize : buf.length + 1 < n) :
    Progress data none boundary (done ++ part :: parts) more tail
      (parse (.multipart data boundary.bytes .headerPart nodes [] none) buf) := by
  have hreading : Reading data none boundary (done ++ part :: parts)
      (.multipart data boundary.bytes .headerPart nodes [] none)
      (renderFields part.fields ++ CRLF ++ (part.content ++ (delimiter boundary.bytes ++
        Entity.content.behind boundary.bytes parts))) := .header hdone (List.nil_append _).symm
  have hdepth : Node.depth (.multipart data boundary.bytes .headerPart nodes [] none) = 1 := rfl
  apply hparse hreading hok
  · rw [hbuf]
    simp only [List.append_assoc]
  · omega

theorem delimiterCase_progress (hparse : Proceeds parse n)
    (hdone : List.Forall₂ (Shows data.contentType) done nodes)
    (hok : WellFormedBody none boundary (done ++ part :: parts)) {node : Node}
    (hpart : Shows data.contentType part node)
    (hbuf : buf ++ more = Entity.content.behind boundary.bytes parts ++ tail)
    (hsize : buf.length < n) :
    Progress data none boundary (done ++ part :: parts) more tail
      (delimiterCase parse data boundary.bytes nodes [] (some node) buf) := by
  have hdone' : List.Forall₂ (Shows data.contentType) (done ++ [part]) (nodes ++ [node]) :=
    List.rel_append hdone (.cons hpart .nil)
  have hreading : Reading data none boundary (done ++ part :: parts)
      (.multipart data boundary.bytes .delimiter nodes [] (some node))
      (Entity.content.behind boundary.bytes parts) := .delimiter hdone hpart
  cases parts with
  | nil =>
      rcases arrived_cases hbuf with ⟨left, hleft, hshort, _⟩ | ⟨extra, rfl, hextra⟩
      · apply Progress.waits (delimiterCase_waits node .none hleft (.inl hshort)) hreading hbuf
        exact arrived_length_lt hleft hshort
      · exact .complete (delimiterCase_close node extra) hdone' hextra
  | cons next parts =>
      have hstream : buf ++ more = (next.padding.bytes ++ CRLF) ++ (renderFields next.fields ++
          (CRLF ++ (next.content ++ (delimiter boundary.bytes ++
            Entity.content.behind boundary.bytes parts))) ++ tail) := by
        rw [hbuf, Entity.content.behind]
        simp only [List.append_assoc]
      rcases arrived_cases hstream with ⟨left, hleft, hshort, _⟩ | ⟨extra, rfl, hextra⟩
      · apply Progress.waits (delimiterCase_waits node next.padding hleft (.inr hshort)) hreading hbuf
        have hlen := arrived_length_lt hleft hshort
        rw [Entity.content.behind, ← List.append_assoc, List.length_append]
        exact Nat.lt_add_right _ hlen
      · have hparts : done ++ part :: next :: parts = (done ++ [part]) ++ next :: parts := by simp
        have hless : extra.length + 1 < n := by
          have htwo : CRLF.length = 2 := rfl
          simp only [List.length_append] at hsize
          omega
        rw [delimiterCase_line, hparts]
        exact headers_progress hparse hdone' (hparts ▸ hok) hextra hless

theorem bodyPartCase_progress (hparse : Proceeds parse n)
    (hdone : List.Forall₂ (Shows data.contentType) done nodes)
    (hok : WellFormedBody none boundary (done ++ part :: parts)) {node : Node} {text : Bytes}
    (hpart : Decoding data.contentType boundary part node text)
    (hbuf : buf ++ more = text ++ (delimiter boundary.bytes ++
      Entity.content.behind boundary.bytes parts) ++ tail)
    (hsize : buf.length < n) :
    Progress data none boundary (done ++ part :: parts) more tail
      (bodyPartCase parse data boundary.bytes nodes [] (some node) buf) := by
  have hstream : buf ++ more = (text ++ delimiter boundary.bytes) ++
      (Entity.content.behind boundary.bytes parts ++ tail) := by
    rw [hbuf]
    simp only [List.append_assoc]
  rcases arrived_cases hstream with ⟨left, hleft, hshort, _⟩ | ⟨extra, rfl, hextra⟩
  · have hnone : find (delimiter boundary.bytes) buf = none :=
      find_incomplete (CR_not_mem_boundaryLine boundary) hpart.free hshort hleft
    apply Progress.waits _ (.body hdone hpart) hbuf
    · rw [← List.append_assoc, List.length_append]
      exact Nat.lt_add_right _ (arrived_length_lt hleft hshort)
    · rw [bodyPartCase, hnone]
  · have hfind : find (delimiter boundary.bytes) (text ++ delimiter boundary.bytes ++ extra) =
        some text.length := find_pattern (CR_not_mem_boundaryLine boundary) hpart.free extra
    have htake : (text ++ delimiter boundary.bytes ++ extra).take text.length = text := by
      rw [List.append_assoc, List.take_left]
    have hdrop : (text ++ delimiter boundary.bytes ++ extra).drop
        (text.length + (delimiter boundary.bytes).length) = extra := by
      rw [← List.length_append, List.drop_left]
    rw [bodyPartCase, hfind]
    simp only [htake, hdrop]
    cases hdecode : (node.decode text).1 with
    | false =>
        have hmem : part ∈ done ++ part :: parts := by simp
        apply Progress.stops _ hmem (hpart.refused hdecode)
        exact .inr ⟨_, _, rfl⟩
    | true =>
        simp only [Bool.not_true, Bool.false_eq_true, if_false]
        apply delimiterCase_progress hparse hdone hok (hpart.shows hdecode) hextra
        simp only [List.length_append] at hsize
        omega

theorem not_delimiter_infix_of_suffix {text left : Bytes}
    (h : ¬ delimiter boundary.bytes <:+: text) (hleft : left <:+ text) :
    ¬ delimiter boundary.bytes <:+: left :=
  fun hin => h (hin.trans hleft.isInfix)

/-- Of an inner multipart that is complete nothing is taken for a text in an
encoding. -/
theorem decoding_multipart {own : ContentValue} {data : NodeData} {padding : Padding}
    {fields : List FieldLine} {inner : Boundary} {parts : List Entity} {rest text : Bytes}
    {nodes : List Node} (hheaders : data.headers = Headers.enterAll [] fields)
    (hannounced : Announces data.headers data.contentType inner.bytes)
    (hencoding : text = [] ∨ NotEncoded (Headers.enterAll [] fields)) (hbody : data.body = [])
    (hnodes : List.Forall₂ (Shows data.contentType) parts nodes)
    (hfree : ¬ delimiter boundary.bytes <:+: text) :
    Decoding own boundary (.multipart padding fields none inner parts rest)
      (.multipart data inner.bytes .delimiter nodes [] none) text := by
  have htrue : (data.decode text).1 = true := by
    rw [decode_iff, hheaders]
    rcases hencoding with rfl | hencoding
    · exact fun hne => absurd rfl hne
    · exact hencoding.textKept text
  refine ⟨hfree, fun _ => ?_, fun hfalse => ?_⟩
  · apply Shows.ofParts
    · rw [decode_headers, hheaders]
    · rw [decode_headers, decode_contentType]
      exact hannounced
    · intro hnone
      rw [decode_headers] at hnone
      rw [decode_unencoded hnone]
      exact hbody
    · rw [decode_contentType]
      exact hnodes
  · have htrue' : ((Node.multipart data inner.bytes .delimiter nodes [] none).decode text).1 = true :=
      htrue
    rw [htrue'] at hfalse
    cases hfalse

theorem decoding_part {own : ContentValue} {padding : Padding} {fields : List FieldLine}
    {octets : Bytes} {data : NodeData}
    (hnode : getPartNode own (Headers.enterAll [] fields) = .ok (some (.part data)))
    (hfree : ¬ delimiter boundary.bytes <:+: octets) :
    Decoding own boundary (.leaf padding fields octets) (.part data) octets := by
  refine ⟨hfree, fun htrue => .leaf hnode htrue, ?_⟩
  rintro hfalse (⟨_, htext⟩ | _)
  have htrue : (data.decode octets).1 = true := by
    rw [decode_iff, (getPartNode_data own hnode).1]
    exact htext
  have hfalse' : (data.decode octets).1 = false := hfalse
  rw [htrue] at hfalse'
  cases hfalse'

theorem Reading.node_eq {node : Node} {remaining : Bytes}
    (h : Reading data preamble boundary parts node remaining) :
    ∃ state nodes partHeaders cur,
      node = .multipart data boundary.bytes state nodes partHeaders cur := by
  cases h <;> exact ⟨_, _, _, _, rfl⟩

theorem WellFormedBody.current (h : WellFormedBody preamble boundary (done ++ part :: parts)) :
    part.WellFormed boundary := h.parts part (by simp)

theorem currentPart_inner_progress (hparse : Proceeds parse n)
    (hdone : List.Forall₂ (Shows data.contentType) done nodes) {data' : NodeData}
    {boundary' : Boundary} {padding : Padding} {fields : List FieldLine}
    {preamble' : Option TextLine} {parts' : List Entity} {rest : Bytes}
    (hok : WellFormedBody none boundary
      (done ++ .multipart padding fields preamble' boundary' parts' rest :: parts))
    (hheaders : data'.headers = Headers.enterAll [] fields)
    (hannounced : Announces data'.headers data'.contentType boundary'.bytes)
    (hbody : data'.body = []) {child : Node} {remaining : Bytes}
    (hchild : Reading data' preamble' boundary' parts' child remaining)
    (hbuf : buf ++ more = remaining ++ (rest ++ (delimiter boundary.bytes ++
      Entity.content.behind boundary.bytes parts)) ++ tail)
    (hsize : child.depth + buf.length < n) :
    Progress data none boundary
      (done ++ .multipart padding fields preamble' boundary' parts' rest :: parts) more tail
      (currentPart parse data boundary.bytes nodes [] child buf) := by
  have hmem : Entity.multipart padding fields preamble' boundary' parts' rest ∈
      done ++ .multipart padding fields preamble' boundary' parts' rest :: parts := by simp
  have hstream : buf ++ more = remaining ++ (rest ++ (delimiter boundary.bytes ++
      (Entity.content.behind boundary.bytes parts ++ tail))) := by
    rw [hbuf]
    simp only [List.append_assoc]
  have hlen := congrArg List.length hstream
  cases hok.current with
  | multipart _ hencoding hpreamble hne hparts htail =>
  obtain ⟨state, nodes', partHeaders, cur, rfl⟩ := hchild.node_eq
  rw [currentPart]
  rcases hparse hchild ⟨hpreamble, hne, hparts⟩ hstream hsize with
    ⟨node, remaining', left, hresult, hreading, hleft, hshort⟩ |
    ⟨rfl, nodes'', extra, hresult, hnodes, hextra⟩ | ⟨hfailed, hnot⟩
  · rw [hresult]
    apply Progress.waits rfl (.inner hdone hheaders hannounced hbody hreading)
    · rw [hleft]
      simp only [List.append_assoc]
    · rw [List.length_append]
      omega
  · rw [hresult]
    obtain ⟨left, hsuffix, hskip⟩ := skipLwspChar_stream hextra
    have hleft : left = [] ∨ NotEncoded (Headers.enterAll [] fields) :=
      hencoding.imp_left fun (hnil : rest = []) => List.suffix_nil.mp (hnil ▸ hsuffix)
    have hpart : Decoding data.contentType boundary
        (.multipart padding fields none boundary' parts' rest)
        (.multipart data' boundary'.bytes .delimiter nodes'' [] none) left :=
      decoding_multipart hheaders hannounced hleft hbody hnodes
        (not_delimiter_infix_of_suffix htail hsuffix)
    apply bodyPartCase_progress hparse hdone hok hpart
    · rw [List.append_assoc, List.append_assoc]
      exact hskip
    · have hless := skipLwspChar_length extra
      have hafter := congrArg List.length hextra
      simp only [List.length_append] at hlen hafter
      omega
  · have hrefused : ¬ (Entity.multipart padding fields preamble' boundary' parts' rest).Accepted := by
      rintro (_ | hparts)
      exact hnot ⟨rfl, hparts⟩
    apply Progress.stops _ hmem hrefused
    rcases hfailed with ⟨fault, hfault⟩ | ⟨node, left, herror⟩
    · rw [hfault]
      exact .inl ⟨fault, rfl⟩
    · rw [herror]
      exact .inr ⟨_, _, rfl⟩

private theorem getPartNode_progress (hparse : Proceeds parse n)
    (hdone : List.Forall₂ (Shows data.contentType) done nodes)
    (hok : WellFormedBody none boundary (done ++ part :: parts))
    (hbuf : buf ++ more = part.content ++ (delimiter boundary.bytes ++
      Entity.content.behind boundary.bytes parts) ++ tail)
    (hsize : buf.length + 1 < n) :
    (∃ cur, getPartNode data.contentType part.headers = .ok (some cur) ∧
      Progress data none boundary (done ++ part :: parts) more tail
        (currentPart parse data boundary.bytes nodes [] cur buf)) ∨
    ((getPartNode data.contentType part.headers = .ok none ∨
      ∃ fault, getPartNode data.contentType part.headers = .error fault) ∧ ¬ part.Accepted) := by
  cases hok.current with
  | @leaf _ padding fields octets hfree hsingle =>
      by_cases htype : TypeRead (Headers.enterAll [] fields)
      · obtain ⟨data', hnode, _⟩ := getPartNode_part data.contentType hsingle htype
        refine .inl ⟨.part data', hnode, ?_⟩
        have hpart : Decoding data.contentType boundary (.leaf padding fields octets) (.part data')
            octets := decoding_part hnode hfree
        exact bodyPartCase_progress hparse hdone hok hpart hbuf (by omega)
      · refine .inr ⟨getPartNode_unread data.contentType htype, ?_⟩
        rintro (⟨hread, _⟩ | _)
        exact htype hread
  | @multipart _ inner padding fields preamble' parts' rest contentType hannounced _ _ _ _ _ =>
      have hnode : getPartNode data.contentType (Headers.enterAll [] fields) =
          .ok (some (Node.create (Headers.enterAll [] fields) contentType inner.bytes)) :=
        getPartNode_multipart data.contentType hannounced
      refine .inl ⟨_, hnode, ?_⟩
      apply currentPart_inner_progress hparse hdone hok rfl hannounced rfl .dash
      · rw [hbuf, Entity.content]
        simp only [List.append_assoc]
      · change 1 + buf.length < n
        omega

theorem headerPartCase_progress (hparse : Proceeds parse n)
    (hdone : List.Forall₂ (Shows data.contentType) done nodes)
    (hok : WellFormedBody none boundary (done ++ part :: parts)) {read todo : List FieldLine}
    (hfields : part.fields = read ++ todo)
    (hbuf : buf ++ more = renderFields todo ++ CRLF ++ (part.content ++
      (delimiter boundary.bytes ++ Entity.content.behind boundary.bytes parts)) ++ tail)
    (hsize : buf.length < n) :
    Progress data none boundary (done ++ part :: parts) more tail
      (headerPartCase parse data boundary.bytes nodes (Headers.enterAll [] read) none buf) := by
  have hstream : buf ++ more = renderFields todo ++ CRLF ++ (part.content ++
      (delimiter boundary.bytes ++ Entity.content.behind boundary.bytes parts) ++ tail) := by
    rw [hbuf]
    simp only [List.append_assoc]
  rw [headerPartCase]
  rcases parseHeader_block todo (Headers.enterAll [] read) hstream with
    ⟨extra, hextra, hless, hheader⟩ | ⟨read', todo', left, htodo, hleft, hshort, hheader⟩
  · have hall : (Headers.enterAll [] read).enterAll todo = part.headers := by
      rw [← enterAll_append, ← hfields, Entity.headers]
    rw [hall] at hheader
    simp only [hheader, bind, Except.bind, ne_eq, not_true_eq_false, if_false]
    rcases getPartNode_progress hparse hdone hok hextra (by omega) with
      ⟨cur, hcur, hprogress⟩ | ⟨hnode, hnot⟩
    · rw [hcur]
      exact hprogress
    · have hmem : part ∈ done ++ part :: parts := by simp
      apply Progress.stops _ hmem hnot
      rcases hnode with hnone | ⟨fault, hfault⟩
      · rw [hnone]
        exact .inr ⟨_, _, rfl⟩
      · rw [hfault]
        exact .inl ⟨fault, rfl⟩
  · have hread : part.fields = (read ++ read') ++ todo' := by
      rw [hfields, htodo, List.append_assoc]
    apply Progress.waits _ (.header hdone hread)
    · rw [hleft]
      simp only [List.append_assoc]
    · simp only [List.length_append] at hshort ⊢
      omega
    · rw [enterAll_append, hheader]
      rfl

/-- A line in front of the boundary is an error: only the parser of the whole
body reads a preamble. -/
theorem dashBoundaryCase_preamble {line : TextLine} (parts : List Entity)
    (hfree : PreambleFree (some line) boundary)
    (hbuf : buf ++ more = opening (some line) ++ (dashBoundary boundary.bytes ++
      Entity.content.behind boundary.bytes parts) ++ tail) :
    Progress data (some line) boundary parts more tail
      (dashBoundaryCase parse data boundary.bytes [] [] none buf) := by
  have hstream : buf ++ more = (line.bytes ++ CRLF) ++ (dashBoundary boundary.bytes ++
      Entity.content.behind boundary.bytes parts ++ tail) := by
    rw [hbuf, opening]
    simp only [List.append_assoc]
  rcases arrived_cases hstream with ⟨left, hleft, hshort, _⟩ | ⟨extra, rfl, _⟩
  · have hnone : findCrlf buf = none := findCrlf_incomplete line.unbroken hshort hleft
    apply Progress.waits _ .dash hbuf
    · rw [opening, List.length_append]
      exact Nat.lt_add_right _ (arrived_length_lt hleft hshort)
    · rw [dashBoundaryCase, hnone]
  · have hcrlf : findCrlf (line.bytes ++ CRLF ++ extra) = some line.bytes.length :=
      findCrlf_line line.unbroken extra
    have hstart : startsWith (line.bytes ++ CRLF ++ extra) (dashBoundary boundary.bytes) = false :=
      startsWith_line (CR_not_mem_dashBoundary boundary) (hfree line rfl) extra
    refine .inr (.inr ⟨.inr ?_, fun h => nomatch h.1⟩)
    rw [dashBoundaryCase, hcrlf]
    simp only [hstart, Bool.not_false, if_true]
    exact ⟨_, _, rfl⟩

private theorem dashBoundaryCase_progress (hparse : Proceeds parse n)
    (hok : WellFormedBody none boundary parts)
    (hbuf : buf ++ more = dashBoundary boundary.bytes ++
      Entity.content.behind boundary.bytes parts ++ tail)
    (hsize : buf.length < n) :
    Progress data none boundary parts more tail
      (dashBoundaryCase parse data boundary.bytes [] [] none buf) := by
  obtain ⟨part, parts, rfl⟩ := List.exists_cons_of_ne_nil hok.nonempty
  have hstream : buf ++ more = (dashBoundary boundary.bytes ++ part.padding.bytes ++ CRLF) ++
      (renderFields part.fields ++ CRLF ++ (part.content ++ (delimiter boundary.bytes ++
        Entity.content.behind boundary.bytes parts)) ++ tail) := by
    rw [hbuf, Entity.content.behind]
    simp only [List.append_assoc]
  have hfree := boundaryLine_unbroken boundary part.padding
  rcases arrived_cases hstream with ⟨left, hleft, hshort, _⟩ | ⟨extra, rfl, hextra⟩
  · have hnone : findCrlf buf = none := findCrlf_incomplete hfree hshort hleft
    apply Progress.waits _ .dash hbuf
    · have hlen := arrived_length_lt hleft hshort
      rw [Entity.content.behind]
      simp only [opening, List.length_append] at hlen ⊢
      omega
    · rw [dashBoundaryCase, hnone]
  · have hcrlf : findCrlf (dashBoundary boundary.bytes ++ part.padding.bytes ++ CRLF ++ extra) =
        some (dashBoundary boundary.bytes ++ part.padding.bytes).length := findCrlf_line hfree extra
    have hstart : startsWith (dashBoundary boundary.bytes ++ part.padding.bytes ++ CRLF ++ extra)
        (dashBoundary boundary.bytes) = true := by
      rw [List.append_assoc, List.append_assoc]
      exact startsWith_append _ _
    have hlen : ¬ (dashBoundary boundary.bytes ++ part.padding.bytes).length <
        (dashBoundary boundary.bytes).length := by
      rw [List.length_append]
      exact Nat.not_lt.mpr (Nat.le_add_right _ _)
    have hall : (((dashBoundary boundary.bytes ++ part.padding.bytes ++ CRLF ++ extra).take
        (dashBoundary boundary.bytes ++ part.padding.bytes).length).drop
          (dashBoundary boundary.bytes).length).all islwsp = true := by
      rw [take_line, List.drop_left]
      exact List.all_eq_true.mpr part.padding.lwsp
    rw [dashBoundaryCase, hcrlf]
    simp only [hstart, Bool.not_true, Bool.false_eq_true, if_false, if_neg hlen, hall, drop_line]
    have hless : extra.length < n := by
      simp only [List.length_append] at hsize
      omega
    have hprogress : Progress data none boundary ([] ++ part :: parts) more tail
        (headerPartCase parse data boundary.bytes [] (Headers.enterAll [] []) none extra) :=
      headerPartCase_progress hparse .nil hok (List.nil_append _).symm hextra hless
    exact hprogress

theorem parse_proceeds (fuel : Nat) : Proceeds (Node.parse fuel) fuel := by
  induction fuel with
  | zero =>
      intro data preamble boundary parts node remaining buf more tail _ _ _ hsize
      exact absurd hsize (Nat.not_lt_zero _)
  | succ fuel ih =>
      intro data preamble boundary parts node remaining buf more tail hreading hok hbuf hsize
      cases hreading with
      | dash =>
          have hless : buf.length < fuel := by
            rw [Node.depth] at hsize
            omega
          cases preamble with
          | none => exact dashBoundaryCase_progress ih hok hbuf hless
          | some line => exact dashBoundaryCase_preamble parts hok.preamble hbuf
      | header hdone hfields =>
          have hless : buf.length < fuel := by
            rw [Node.depth] at hsize
            omega
          exact headerPartCase_progress ih hdone hok hfields hbuf hless
      | inner hdone hheaders hannounced hbody hchild =>
          have hless : _ + 1 + buf.length < fuel + 1 := hsize
          exact currentPart_inner_progress ih hdone hok hheaders hannounced hbody hchild hbuf (by omega)
      | body hdone hpart =>
          have hless : _ + 1 + buf.length < fuel + 1 := hsize
          exact bodyPartCase_progress ih hdone hok hpart hbuf (by omega)
      | delimiter hdone hpart =>
          have hless : _ + 1 + buf.length < fuel + 1 := hsize
          exact delimiterCase_progress ih hdone hok hpart hbuf (by omega)

end

end Angel.Mime
