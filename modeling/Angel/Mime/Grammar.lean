import Angel.Mime.Content

/-!
The grammar of a multipart body as `mime.cc` states it. A part is an entity:
header lines, an empty line and octets, and the octets of a multipart are again
boundary lines and entities.
-/

namespace Angel.Mime

open Angel.Lib Util Buffer Http

/-- `transport-padding := *LWSP-char` -/
structure Padding where
  bytes : Bytes
  lwsp : ∀ c ∈ bytes, islwsp c = true

def Padding.none : Padding := ⟨[], nofun⟩

/-- A line of text without its end. -/
structure TextLine where
  bytes : Bytes
  unbroken : ¬ CRLF <:+: bytes

/-- `*(*text CRLF)` -/
def renderText (lines : List TextLine) : Bytes := lines.flatMap fun line => line.bytes ++ CRLF

/-- `[preamble CRLF]` with a preamble of one line. -/
def opening : Option TextLine → Bytes
  | none => []
  | some line => line.bytes ++ CRLF

/-- A `body-part` with the padding of the boundary line in front of it. The
`tail` of a multipart is what stands behind its close-delimiter. -/
inductive Entity where
  | leaf (padding : Padding) (fields : List FieldLine) (octets : Bytes)
  | multipart (padding : Padding) (fields : List FieldLine) (preamble : Option TextLine)
      (boundary : Boundary) (parts : List Entity) (tail : Bytes)

namespace Entity

def padding : Entity → Padding
  | leaf padding _ _ => padding
  | multipart padding _ _ _ _ _ => padding

def fields : Entity → List FieldLine
  | leaf _ fields _ => fields
  | multipart _ fields _ _ _ _ => fields

/-- The header lines as they are entered. -/
def headers (part : Entity) : Headers := Headers.enterAll [] part.fields

/-- What stands behind the empty line. -/
def content : Entity → Bytes
  | leaf _ _ octets => octets
  | multipart _ _ preamble boundary parts tail =>
      opening preamble ++ (dashBoundary boundary.bytes ++ (behind boundary.bytes parts ++ tail))
where
  /-- What stands behind a boundary when `parts` are to come, up to the end of
  the close-delimiter. -/
  behind (boundary : Bytes) : List Entity → Bytes
    | [] => TWO_HYPHEN
    | part :: parts =>
        part.padding.bytes ++ (CRLF ++ (renderFields part.fields ++ (CRLF ++ (part.content ++
          (delimiter boundary ++ behind boundary parts)))))

/-- A part without the boundary line. -/
def wire (part : Entity) : Bytes := renderFields part.fields ++ (CRLF ++ part.content)

theorem behind_joined (boundary : Bytes) {parts : List Entity}
    (h : ∀ part ∈ parts, part.padding = .none) :
    content.behind boundary parts = Tree.joined boundary (parts.map wire) := by
  induction parts with
  | nil => rfl
  | cons part parts ih =>
      have hfirst := h part List.mem_cons_self
      have hrest := ih fun p hp => h p (List.mem_cons_of_mem part hp)
      rw [content.behind, hfirst, hrest, List.map_cons, Tree.joined, wire]
      simp only [Padding.none, List.nil_append, List.append_assoc]

end Entity

theorem CleanHeaders.exists_fields {headers : Headers} (h : CleanHeaders headers) :
    ∃ fields : List FieldLine, renderFields fields = Tree.renderHeaders headers ∧
      Headers.enterAll [] fields = headers := by
  obtain ⟨lines, hmap, hdistinct, hrender⟩ := h.exists_lines
  refine ⟨lines.map HeaderLine.field, (renderFields_map lines).trans hrender, ?_⟩
  rw [enterAll_headerMap hdistinct, hmap]

/-- The `Content-Type` among the headers is `contentType`. -/
def HasType (headers : Headers) (contentType : ContentValue) : Prop :=
  ∃ value, headers.find (ascii "Content-Type") = some value ∧
    parseContentType value = .ok (some contentType)

def ContentValue.IsMultipart (contentType : ContentValue) : Prop :=
  equalCase contentType.maintype (ascii "multipart") = true

/-- The headers announce a multipart with this boundary. -/
structure Announces (headers : Headers) (contentType : ContentValue) (boundary : Bytes) : Prop where
  hasType : HasType headers contentType
  isMultipart : contentType.IsMultipart
  hasBoundary : contentType.parameters.find (ascii "boundary") = some boundary

/-- The text is not written in an encoding. -/
def NotEncoded (headers : Headers) : Prop :=
  ∀ encoding, headers.find (ascii "Content-Transfer-Encoding") = some encoding →
    equalCase encoding (ascii "base64") = false ∧
      equalCase encoding (ascii "quoted-printable") = false

/-- The preamble is no boundary line. -/
def PreambleFree (preamble : Option TextLine) (boundary : Boundary) : Prop :=
  ∀ line, preamble = some line → ¬ dashBoundary boundary.bytes <+: line.bytes

/-- A part of a multipart with the boundary `boundary`: nothing in it is taken
for the delimiter, its `Content-Type` says what it is, and what stands behind
the parts of a multipart is not encoded. -/
inductive Entity.WellFormed : Boundary → Entity → Prop where
  | leaf {boundary : Boundary} {padding : Padding} {fields : List FieldLine} {octets : Bytes}
      (hfree : ¬ delimiter boundary.bytes <:+: octets)
      (hsingle : ∀ contentType, HasType (Headers.enterAll [] fields) contentType →
        ¬ contentType.IsMultipart) :
      WellFormed boundary (.leaf padding fields octets)
  | multipart {boundary inner : Boundary} {padding : Padding} {fields : List FieldLine}
      {preamble : Option TextLine} {parts : List Entity} {tail : Bytes} {contentType : ContentValue}
      (hannounced : Announces (Headers.enterAll [] fields) contentType inner.bytes)
      (hencoding : tail = [] ∨ NotEncoded (Headers.enterAll [] fields))
      (hpreamble : PreambleFree preamble inner) (hne : parts ≠ [])
      (hparts : ∀ part ∈ parts, WellFormed inner part)
      (htail : ¬ delimiter boundary.bytes <:+: tail) :
      WellFormed boundary (.multipart padding fields preamble inner parts tail)

/-- The `Content-Type` can be read where there is one. -/
def TypeRead (headers : Headers) : Prop :=
  ∀ value, headers.find (ascii "Content-Type") = some value →
    ∃ contentType, parseContentType value = .ok (some contentType)

/-- An encoded text that is not empty does not become empty. -/
def TextKept (headers : Headers) (octets : Bytes) : Prop :=
  octets ≠ [] → ∀ encoding, headers.find (ascii "Content-Transfer-Encoding") = some encoding →
    (equalCase encoding (ascii "base64") = true → Base64.mimeDecode octets ≠ []) ∧
      (equalCase encoding (ascii "quoted-printable") = true → QP.decode octets ≠ [])

/-- The `Content-Type` can be read, something is left of the text, and there is
no preamble in front of the inner parts. -/
inductive Entity.Accepted : Entity → Prop where
  | leaf {padding : Padding} {fields : List FieldLine} {octets : Bytes}
      (htype : TypeRead (Headers.enterAll [] fields))
      (htext : TextKept (Headers.enterAll [] fields) octets) : Accepted (.leaf padding fields octets)
  | multipart {padding : Padding} {fields : List FieldLine} {boundary : Boundary}
      {parts : List Entity} {tail : Bytes} (hparts : ∀ part ∈ parts, Accepted part) :
      Accepted (.multipart padding fields none boundary parts tail)

/-- A node of a multipart with the content type `own` says what the entity says.
The text of a multipart is that of its parts; only under an encoding it has one
of its own. -/
inductive Shows : ContentValue → Entity → Node → Prop where
  | leaf {own : ContentValue} {padding : Padding} {fields : List FieldLine} {octets : Bytes}
      {data : NodeData}
      (hnode : getPartNode own (Headers.enterAll [] fields) = .ok (some (.part data)))
      (htext : (data.decode octets).1 = true) :
      Shows own (.leaf padding fields octets) (.part (data.decode octets).2)
  | multipart {own : ContentValue} {padding : Padding} {fields : List FieldLine}
      {boundary : Boundary} {parts : List Entity} {tail : Bytes} {data : NodeData}
      {nodes : List Node} (hheaders : data.headers = Headers.enterAll [] fields)
      (hannounced : Announces data.headers data.contentType boundary.bytes)
      (hbody : data.headers.find (ascii "Content-Transfer-Encoding") = none → data.body = [])
      (hlength : parts.length = nodes.length)
      (hparts : ∀ part node, (part, node) ∈ parts.zip nodes → Shows data.contentType part node) :
      Shows own (.multipart padding fields none boundary parts tail)
        (.multipart data boundary.bytes .delimiter nodes [] none)

theorem Shows.ofParts {own : ContentValue} {padding : Padding} {fields : List FieldLine}
    {boundary : Boundary} {parts : List Entity} {tail : Bytes} {data : NodeData}
    {nodes : List Node} (hheaders : data.headers = Headers.enterAll [] fields)
    (hannounced : Announces data.headers data.contentType boundary.bytes)
    (hbody : data.headers.find (ascii "Content-Transfer-Encoding") = none → data.body = [])
    (hparts : List.Forall₂ (Shows data.contentType) parts nodes) :
    Shows own (.multipart padding fields none boundary parts tail)
      (.multipart data boundary.bytes .delimiter nodes [] none) := by
  obtain ⟨hlength, hzip⟩ := List.forall₂_iff_zip.mp hparts
  exact .multipart hheaders hannounced hbody hlength fun _ _ hmem => hzip hmem

section

variable {headers : Headers} (own : ContentValue)

theorem getPartNode_multipart {contentType : ContentValue} {boundary : Bytes}
    (h : Announces headers contentType boundary) :
    getPartNode own headers = .ok (some (Node.create headers contentType boundary)) := by
  obtain ⟨value, hfind, hparse⟩ := h.hasType
  have hmain : equalCase contentType.maintype (ascii "multipart") = true := h.isMultipart
  rw [getPartNode, hfind]
  simp only [hparse, bind, Except.bind, hmain, Bool.not_true, Bool.false_eq_true, if_false,
    h.hasBoundary]

theorem getPartNode_part (hsingle : ∀ contentType, HasType headers contentType →
      ¬ contentType.IsMultipart) (htype : TypeRead headers) :
    ∃ data, getPartNode own headers = .ok (some (.part data)) ∧ data.headers = headers ∧
      data.body = [] := by
  rw [getPartNode]
  cases hfind : headers.find (ascii "Content-Type") with
  | none => exact ⟨_, rfl, rfl, rfl⟩
  | some value =>
      obtain ⟨contentType, hparse⟩ := htype value hfind
      have hmain : equalCase contentType.maintype (ascii "multipart") = false :=
        Bool.eq_false_iff.mpr (hsingle contentType ⟨value, hfind, hparse⟩)
      refine ⟨⟨headers, contentType, []⟩, ?_, rfl, rfl⟩
      simp only [hparse, bind, Except.bind, hmain, Bool.not_false, if_true]

theorem getPartNode_unread (h : ¬ TypeRead headers) :
    getPartNode own headers = .ok none ∨ ∃ fault, getPartNode own headers = .error fault := by
  rw [TypeRead] at h
  push Not at h
  obtain ⟨value, hfind, hparse⟩ := h
  rw [getPartNode, hfind]
  cases htype : parseContentType value with
  | error fault =>
      refine .inr ⟨fault, ?_⟩
      simp only [htype, bind, Except.bind]
  | ok contentType =>
      cases contentType with
      | none =>
          refine .inl ?_
          simp only [htype, bind, Except.bind]
      | some contentType => exact absurd htype (hparse contentType)

theorem getPartNode_data {data : NodeData} (h : getPartNode own headers = .ok (some (.part data))) :
    data.headers = headers ∧ data.body = [] := by
  rw [getPartNode] at h
  cases hfind : headers.find (ascii "Content-Type") with
  | none =>
      rw [hfind] at h
      cases h
      exact ⟨rfl, rfl⟩
  | some value =>
      rw [hfind] at h
      cases hparse : parseContentType value with
      | error fault =>
          simp only [hparse, bind, Except.bind] at h
          cases h
      | ok contentType =>
          simp only [hparse, bind, Except.bind] at h
          split at h
          · cases h
          split at h
          · cases h
            exact ⟨rfl, rfl⟩
          split at h
          · cases h
          · cases h

theorem getPartNode_single {data : NodeData} (h : getPartNode own headers = .ok (some (.part data))) :
    ∀ contentType, HasType headers contentType → ¬ contentType.IsMultipart := by
  rintro contentType ⟨value, hfind, hparse⟩ hmain
  have hmain' : equalCase contentType.maintype (ascii "multipart") = true := hmain
  rw [getPartNode, hfind] at h
  simp only [hparse, bind, Except.bind, hmain', Bool.not_true, Bool.false_eq_true, if_false] at h
  split at h
  · cases h
  · cases h

theorem typeRead_of_getPartNode {node : Node} (h : getPartNode own headers = .ok (some node)) :
    TypeRead headers := by
  by_contra hnot
  rcases getPartNode_unread own hnot with hnone | ⟨fault, hfault⟩
  · rw [hnone] at h
    cases h
  · rw [hfault] at h
    cases h

end

private theorem not_base64_of_qp {encoding : Bytes}
    (h : equalCase encoding (ascii "quoted-printable") = true) :
    ¬ equalCase encoding (ascii "base64") = true := by
  intro hbase
  simp only [equalCase, Bool.and_eq_true, decide_eq_true_eq] at h hbase
  exact absurd (h.1.symm.trans hbase.1) (by decide)

theorem decode_iff (n : NodeData) (octets : Bytes) :
    (n.decode octets).1 = true ↔ TextKept n.headers octets := by
  rw [NodeData.decode, TextKept]
  by_cases hnil : octets = []
  · simp [hnil]
  rw [if_neg hnil]
  cases hfind : n.headers.find (ascii "Content-Transfer-Encoding") with
  | none => simp
  | some encoding =>
      simp only [ne_eq, decide_eq_true_eq, hnil, not_false_eq_true, Option.some.injEq, forall_const,
        forall_eq']
      split
      next hbase =>
        have hqp : ¬ equalCase encoding (ascii "quoted-printable") = true :=
          fun hqp => not_base64_of_qp hqp hbase
        simp [hbase, hqp]
      next hbase =>
        split
        next hqp => simp [hbase, hqp]
        next hqp => simp [hbase, hqp, hnil]

theorem NotEncoded.textKept {headers : Headers} (h : NotEncoded headers) (octets : Bytes) :
    TextKept headers octets := by
  intro _ encoding hfind
  obtain ⟨hbase, hqp⟩ := h encoding hfind
  refine ⟨fun htrue => ?_, fun htrue => ?_⟩
  · rw [hbase] at htrue
    cases htrue
  · rw [hqp] at htrue
    cases htrue

@[simp] theorem decode_headers (n : NodeData) (octets : Bytes) :
    (n.decode octets).2.headers = n.headers := by
  rw [NodeData.decode]
  split
  · rfl
  · split <;> rfl

@[simp] theorem decode_contentType (n : NodeData) (octets : Bytes) :
    (n.decode octets).2.contentType = n.contentType := by
  rw [NodeData.decode]
  split
  · rfl
  · split <;> rfl

theorem decode_unencoded {n : NodeData}
    (h : n.headers.find (ascii "Content-Transfer-Encoding") = none) (octets : Bytes) :
    n.decode octets = (true, n) := by
  rw [NodeData.decode, h]
  exact ite_self _

theorem Shows.accepted {own : ContentValue} {part : Entity} {node : Node} (h : Shows own part node) :
    part.Accepted := by
  induction h with
  | @leaf own padding fields octets data hnode htext =>
      rw [decode_iff, (getPartNode_data own hnode).1] at htext
      exact .leaf (typeRead_of_getPartNode own hnode) htext
  | @multipart own padding fields boundary parts tail data nodes _ _ _ hlength _ ih =>
      apply Entity.Accepted.multipart
      intro part hpart
      obtain ⟨i, hi, rfl⟩ := List.mem_iff_getElem.mp hpart
      have hnode : i < nodes.length := hlength ▸ hi
      refine ih _ nodes[i] (List.mem_iff_getElem.mpr ⟨i, ?_, List.getElem_zip⟩)
      rw [List.length_zip]
      omega

end Angel.Mime
