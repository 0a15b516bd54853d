import Angel.Mime.Envelope

/-!
Parts without a `Content-Transfer-Encoding`. The form-data writer gives its
parts none, and what it writes is a body of the grammar; the parser stores
nothing of such a part.
-/

namespace Angel.Mime

open Angel.Lib Util Buffer Http

/-- The arguments of `add_text_part` and `add_file_part`. -/
inductive FormPart where
  | text (name value : Bytes)
  | file (name pathname : Bytes) (mediaType : Option Bytes) (content : Bytes)

namespace FormPart

def add (whole : Part) : FormPart → Part
  | text name value => whole.addTextPart name value
  | file name pathname mediaType content => whole.addFilePart name pathname mediaType content

/-- The bytes that are sent. -/
def octets : FormPart → Bytes
  | text _ value => value
  | file _ _ _ content => content

def disposition : FormPart → Bytes
  | text name _ => ascii "form-data; name=\"" ++ name ++ ascii "\""
  | file name pathname _ _ =>
      ascii "form-data; name=\"" ++ name ++ ascii "\"; filename=\"" ++ pathname ++ ascii "\""

def mediaType : FormPart → Bytes
  | text .. => ascii "text/plain; charset=utf-8"
  | file _ _ mediaType _ => mediaType.getD (ascii "application/octet-stream")

/-- A name on one line. -/
def OneLine (name : Bytes) : Prop := ∀ c ∈ name, c ≠ CR ∧ c ≠ LF

instance (name : Bytes) : Decidable (OneLine name) :=
  inferInstanceAs (Decidable (∀ c ∈ name, c ≠ CR ∧ c ≠ LF))

/-- Names of one line, and a media type that is none of a multipart. -/
structure Plain (part : FormPart) : Prop where
  disposition : OneLine part.disposition
  typeLine : part.mediaType ≠ [] ∧ trim part.mediaType = part.mediaType ∧ OneLine part.mediaType
  single : ∀ contentType, parseContentType part.mediaType = .ok (some contentType) →
    ¬ contentType.IsMultipart

/-- The parser can read the media type. -/
def TypeKnown (part : FormPart) : Prop :=
  ∃ contentType, parseContentType part.mediaType = .ok (some contentType)

/-- The part as it is kept. -/
def base (part : FormPart) : Base where
  topLevel := false
  headers := [(ascii "Content-Disposition", part.disposition), (ascii "Content-Type", part.mediaType)]
  encodedData := part.octets

theorem add_eq (base : Base) (boundary : Bytes) (parts : List Part) (part : FormPart) :
    part.add (.multipart base boundary parts) =
      .multipart base boundary (parts ++ [.single part.base]) := by
  cases part <;> rfl

end FormPart

/-- A form-data writer to which the parts are added. -/
def formData (boundary : Bytes) (parts : List FormPart) : Part :=
  parts.foldl FormPart.add (multipart (ascii "form-data") boundary)

namespace FormPart

private theorem disposition_trimmed (part : FormPart) :
    part.disposition ≠ [] ∧ trim part.disposition = part.disposition := by
  have hquoted : ∀ middle : Bytes,
      ascii "form-data; name=\"" ++ middle ++ ascii "\"" ≠ [] ∧
        trim (ascii "form-data; name=\"" ++ middle ++ ascii "\"") =
          ascii "form-data; name=\"" ++ middle ++ ascii "\"" := by
    intro middle
    refine ⟨?_, trim_between (by decide) (by decide) (by decide) (by decide)⟩
    rw [ascii]
    exact List.cons_ne_nil _ _
  cases part with
  | text name value => exact hquoted name
  | file name pathname mediaType content =>
      have hshape : disposition (.file name pathname mediaType content) =
          ascii "form-data; name=\"" ++ (name ++ ascii "\"; filename=\"" ++ pathname) ++
            ascii "\"" := by
        simp only [disposition, List.append_assoc]
      rw [hshape]
      exact hquoted _

theorem headers_clean {part : FormPart} (h : part.Plain) : CleanHeaders part.base.headers := by
  obtain ⟨hne, htrim⟩ := part.disposition_trimmed
  let first : HeaderLine :=
    { name := ascii "Content-Disposition", value := part.disposition, nameFree := by decide,
      valueNonempty := hne, valueTrimmed := htrim, valueFree := h.disposition }
  let second : HeaderLine :=
    { name := ascii "Content-Type", value := part.mediaType, nameFree := contentTypeName_free,
      valueNonempty := h.typeLine.1, valueTrimmed := h.typeLine.2.1, valueFree := h.typeLine.2.2 }
  exact (cleanHeaders_nil.emplace first).emplace second

theorem find_encoding (part : FormPart) :
    part.base.headers.find (ascii "Content-Transfer-Encoding") = none := by
  rw [find_none]
  intro entry hentry
  have hdisposition : toLower (ascii "Content-Disposition") ≠
      toLower (ascii "Content-Transfer-Encoding") := by decide
  have htype : toLower (ascii "Content-Type") ≠ toLower (ascii "Content-Transfer-Encoding") := by
    decide
  simp only [base, List.mem_cons, List.not_mem_nil, or_false] at hentry
  rcases hentry with rfl | rfl
  · exact hdisposition
  · exact htype

end FormPart

/-- A part without a `Content-Transfer-Encoding`. -/
def Entity.Unencoded (part : Entity) : Prop :=
  part.headers.find (ascii "Content-Transfer-Encoding") = none

private theorem find_none_perm {headers headers' : Headers} {field : Bytes}
    (h : headers.find field = none) (hperm : headers'.Perm headers) : headers'.find field = none := by
  rw [find_none] at h ⊢
  exact fun entry hentry => h entry (hperm.subset hentry)

/-- An entity that stands for a part of the writer. -/
structure FormPart.IsEntity (date : Bytes) (order : Headers → Headers) (boundary : Boundary)
    (part : FormPart) (entity : Entity) : Prop where
  wellFormed : entity.WellFormed boundary
  unencoded : entity.Unencoded
  accepted : entity.Accepted ↔ part.TypeKnown
  padding : entity.padding = .none
  wire : entity.wire = (Part.single part.base).str date order

section

variable {date : Bytes} {order : Headers → Headers} {boundary : Boundary}

theorem FormPart.exists_entity (horder : ∀ headers, (order headers).Perm headers) {part : FormPart}
    (hplain : part.Plain) (hfree : ¬ delimiter boundary.bytes <:+: part.octets) :
    ∃ entity : Entity, part.IsEntity date order boundary entity := by
  have hperm := horder part.base.headers
  have hclean := (FormPart.headers_clean hplain).perm hperm
  obtain ⟨fields, hfields, henter⟩ := hclean.exists_fields
  have htype : (Headers.enterAll [] fields).find (ascii "Content-Type") = some part.mediaType := by
    rw [henter]
    exact hclean.find_eq (hperm.mem_iff.mpr (List.mem_cons_of_mem _ List.mem_cons_self))
  have hencoding : (Headers.enterAll [] fields).find (ascii "Content-Transfer-Encoding") = none := by
    rw [henter]
    exact find_none_perm part.find_encoding hperm
  refine ⟨.leaf .none fields part.octets, ?_, hencoding, ⟨?_, ?_⟩, rfl, ?_⟩
  · apply Entity.WellFormed.leaf hfree
    rintro contentType ⟨value, hfind, hparse⟩
    rw [htype] at hfind
    cases hfind
    exact hplain.single contentType hparse
  · rintro (⟨hread, _⟩ | _)
    exact hread part.mediaType htype
  · intro hknown
    refine .leaf (fun value hfind => ?_) fun _ encoding hfind => ?_
    · rw [htype] at hfind
      cases hfind
      exact hknown
    · rw [hencoding] at hfind
      cases hfind
  · rw [Entity.wire, Entity.fields, hfields, Part.str, Tree.base_str _ rfl]
    rfl

private theorem formData_eq (boundary : Bytes) (parts : List FormPart) :
    formData boundary parts = .multipart { Base.create with topLevel := false } boundary
      (parts.map fun part => .single part.base) := by
  have hall : ∀ (done : List Part), parts.foldl FormPart.add
      (.multipart { Base.create with topLevel := false } boundary done) =
        .multipart { Base.create with topLevel := false } boundary
          (done ++ parts.map fun part => .single part.base) := by
    induction parts with
    | nil =>
        intro done
        rw [List.map_nil, List.append_nil]
        rfl
    | cons part parts ih =>
        intro done
        rw [List.foldl_cons, FormPart.add_eq, ih, List.map_cons, List.append_assoc]
        rfl
  exact hall []

/-- What is written is a body without an epilogue whose preamble is an empty line: the writer has
no headers of its own. -/
theorem formData_body (horder : ∀ headers, (order headers).Perm headers) {parts : List FormPart}
    (hne : parts ≠ []) (hplain : ∀ part ∈ parts, part.Plain)
    (hfree : ∀ part ∈ parts, ¬ delimiter boundary.bytes <:+: part.octets) :
    ∃ m : MultipartBody, m.WellFormed ∧ m.boundary = boundary ∧ m.epilogue = none ∧
      List.Forall₂ (FormPart.IsEntity date order boundary) parts m.parts ∧
      (formData boundary.bytes parts).str date order = m.text := by
  have hexists : ∀ part ∈ parts, ∃ entity, part.IsEntity date order boundary entity :=
    fun part hpart => FormPart.exists_entity horder (hplain part hpart) (hfree part hpart)
  obtain ⟨entities, hentities⟩ := exists_forall₂ hexists
  have hwires : entities.map Entity.wire =
      parts.map fun part => (Part.single part.base).str date order :=
    map_eq_of_forall₂ hentities fun _ _ h => h.wire
  have hpadding : ∀ entity ∈ entities, entity.padding = .none :=
    forall_of_forall₂ hentities fun _ _ h => h.padding
  have hempty : Base.str date order { Base.create with topLevel := false } = CRLF := by
    have hnil : order [] = [] := (horder []).eq_nil
    rw [Tree.base_str _ rfl, Base.create, hnil]
    rfl
  refine ⟨⟨some ⟨[], not_crlf_nil⟩, boundary, entities, .none, none⟩, ⟨?_,
    ne_nil_of_forall₂ hentities hne, forall_of_forall₂ hentities fun _ _ h => h.wellFormed⟩, rfl,
    rfl, hentities, ?_⟩
  · intro line hline
    cases hline
    rintro ⟨rest, hrest⟩
    cases hrest
  · rw [formData_eq, Tree.str_parts (fun h => hne (List.map_eq_nil_iff.mp h)), hempty, List.map_map]
    have hmap : parts.map (Part.str date order ∘ fun part => Part.single part.base) =
        entities.map Entity.wire := hwires.symm
    rw [hmap, ← Entity.behind_joined _ hpadding]
    simp [MultipartBody.text, MultipartBody.front, MultipartBody.tail, MultipartBody.ending, opening,
      Padding.none]

end

/-- The body of each part is what stands between its header block and the next
delimiter. -/
def MultipartBody.KeepsBodies (m : MultipartBody) (p : MultipartParser) : Prop :=
  ∃ root, p.root = some root ∧
    List.Forall₂ (fun part node => Node.getBody node = part.content) m.parts root.iterParts

theorem Shows.getBody_unencoded {own : ContentValue} {part : Entity} {node : Node}
    (h : Shows own part node) (hpart : part.Unencoded) : node.getBody = [] := by
  cases h with
  | @leaf _ padding fields octets data hnode htext =>
      obtain ⟨hheaders, hbody⟩ := getPartNode_data own hnode
      have hnone : data.headers.find (ascii "Content-Transfer-Encoding") = none := by
        rw [hheaders]
        exact hpart
      rw [decode_unencoded hnone, Node.getBody, hbody]
  | multipart hheaders _ hbody =>
      apply hbody
      rw [hheaders]
      exact hpart

private theorem forall₂_getBody_iff {own : ContentValue} {parts : List Entity} {nodes : List Node}
    (h : List.Forall₂ (Shows own) parts nodes) (hparts : ∀ part ∈ parts, part.Unencoded) :
    List.Forall₂ (fun part node => Node.getBody node = part.content) parts nodes ↔
      ∀ part ∈ parts, part.content = [] := by
  induction h with
  | nil => simp
  | @cons part node parts nodes hshows _ ih =>
      obtain ⟨hpart, hparts⟩ := List.forall_mem_cons.mp hparts
      rw [List.forall₂_cons, hshows.getBody_unencoded hpart, ih hparts, List.forall_mem_cons]
      exact and_congr_left' eq_comm

/-- When `Ok` has been returned for parts without an encoding, their bodies are
kept exactly when all of them are empty. -/
theorem keepsBodies_iff (m : MultipartBody) (hm : m.WellFormed) (text : Bytes)
    (contentType : ContentValue)
    (htype : MultipartParser.makeRoot text = .ok (some (rootOf contentType m.boundary)))
    (hparts : ∀ part ∈ m.parts, part.Unencoded) (segments : List Bytes)
    (hsegments : segments.flatten = m.text) (p : MultipartParser) (buf : Bytes)
    (hok : run feed (.ok (.notEnough, .create text, [])) segments = .ok (.ok, p, buf)) :
    m.KeepsBodies p ↔ ∀ part ∈ m.parts, part.content = [] := by
  obtain ⟨data, nodes, hroot, hnodes⟩ := shows_of_run_ok hm htype hsegments hok
  rw [← forall₂_getBody_iff hnodes hparts, MultipartBody.KeepsBodies]
  constructor
  · rintro ⟨root, hroot', hbodies⟩
    rw [hroot] at hroot'
    cases hroot'
    exact hbodies
  · exact fun hbodies => ⟨_, hroot, hbodies⟩

theorem dispositionLine_free : COLON ∉ ascii "Content-Disposition" := by decide

theorem dispositionLine_oneLine :
    ¬ CRLF <:+: ascii "Content-Disposition" ++ COLON :: ascii " form-data; name=\"a\"" := by
  decide

private theorem typeLine_free : COLON ∉ ascii "Content-Type" := by decide

private theorem typeLine_oneLine :
    ¬ CRLF <:+: ascii "Content-Type" ++ COLON :: ascii " text/plain; charset=utf-8" := by
  decide

def formLines : List FieldLine :=
  [⟨ascii "Content-Disposition", ascii " form-data; name=\"a\"", dispositionLine_free,
      dispositionLine_oneLine⟩,
    ⟨ascii "Content-Type", ascii " text/plain; charset=utf-8", typeLine_free, typeLine_oneLine⟩]

/-- The field `a` with the value `value`. -/
def form (value : Bytes) : MultipartBody where
  preamble := some ⟨[], not_crlf_nil⟩
  boundary := edge
  parts := [.leaf .none formLines value]
  padding := .none
  epilogue := none

example : (formData edge.bytes [.text (ascii "a") (ascii "b")]).str [] id =
    (form (ascii "b")).text := by
  decide

theorem textPart_type : parseContentType (ascii "text/plain; charset=utf-8") =
    .ok (some ⟨ascii "text/plain", [(ascii "charset", ascii "utf-8")]⟩) := by decide

theorem form_wellFormed {value : Bytes} (hvalue : ¬ delimiter edge.bytes <:+: value) :
    (form value).WellFormed := by
  refine ⟨?_, List.cons_ne_nil _ _, List.forall_mem_singleton.mpr (.leaf hvalue ?_)⟩
  · intro line hline
    cases hline
    rintro ⟨rest, hrest⟩
    cases hrest
  · rintro contentType ⟨text, htext, hparse⟩
    have hfind : (Headers.enterAll [] formLines).find (ascii "Content-Type") =
        some (ascii "text/plain; charset=utf-8") := by decide
    rw [hfind] at htext
    cases htext
    rw [textPart_type] at hparse
    cases hparse
    unfold ContentValue.IsMultipart
    decide

theorem form_unencoded (value : Bytes) : ∀ part ∈ (form value).parts, part.Unencoded := by
  have hfind : (Headers.enterAll [] formLines).find (ascii "Content-Transfer-Encoding") = none := by
    decide
  exact List.forall_mem_singleton.mpr hfind

theorem formData_plain : PlainSubtype (ascii "form-data") := by
  unfold PlainSubtype
  decide

/-- The bodies of the parts when `Ok` has been returned. -/
def bodies : Except Fault (ParseCode × MultipartParser × Bytes) → Option (List Bytes)
  | .ok (.ok, p, _) => p.root.map fun root => root.iterParts.map Node.getBody
  | _ => none

theorem exists_of_bodies {s : Except Fault (ParseCode × MultipartParser × Bytes)} {l : List Bytes}
    (h : bodies s = some l) : ∃ p buf, s = .ok (.ok, p, buf) ∧
      p.root.map (fun root => root.iterParts.map Node.getBody) = some l := by
  rw [bodies.eq_def] at h
  split at h
  · exact ⟨_, _, rfl, h⟩
  · cases h

/-- An empty field is kept. -/
theorem keepsBodies_empty : ∃ p buf,
    run feed (.ok (.notEnough, .create (multipartType (ascii "form-data") edge.bytes), []))
        [(form []).text] = .ok (.ok, p, buf) ∧ (form []).KeepsBodies p := by
  have hbodies : bodies (run feed (.ok (.notEnough,
      .create (multipartType (ascii "form-data") edge.bytes), [])) [(form []).text]) = some [[]] := by
    decide
  obtain ⟨p, buf, hok, _⟩ := exists_of_bodies hbodies
  refine ⟨p, buf, hok, ?_⟩
  apply (keepsBodies_iff (form []) (form_wellFormed (by decide))
    (multipartType (ascii "form-data") edge.bytes) (multipartValue (ascii "form-data") edge.bytes)
    (makeRoot_multipart formData_plain edge) (form_unencoded []) [(form []).text] (by simp) p buf
    hok).mpr
  exact List.forall_mem_singleton.mpr rfl

/-- The value of a field is lost. -/
theorem keepsBodies_fails : ¬ ∀ (m : MultipartBody) (text : Bytes) (contentType : ContentValue)
    (segments : List Bytes) (p : MultipartParser) (buf : Bytes), m.WellFormed →
      MultipartParser.makeRoot text = .ok (some (rootOf contentType m.boundary)) →
      (∀ part ∈ m.parts, part.Unencoded) → segments.flatten = m.text →
      run feed (.ok (.notEnough, .create text, [])) segments = .ok (.ok, p, buf) →
        m.KeepsBodies p := by
  intro h
  have hbodies : bodies (run feed (.ok (.notEnough,
      .create (multipartType (ascii "form-data") edge.bytes), [])) [(form (ascii "b")).text]) =
        some [[]] := by
    decide
  obtain ⟨p, buf, hok, hempty⟩ := exists_of_bodies hbodies
  obtain ⟨root, hroot, hkept⟩ := h (form (ascii "b")) (multipartType (ascii "form-data") edge.bytes)
    (multipartValue (ascii "form-data") edge.bytes) [(form (ascii "b")).text] p buf
    (form_wellFormed (by decide)) (makeRoot_multipart formData_plain edge)
    (form_unencoded (ascii "b")) (by simp) hok
  rw [hroot, Option.map_some, Option.some.injEq] at hempty
  have hmap := map_eq_of_forall₂ hkept fun _ _ heq => heq
  rw [hempty] at hmap
  cases hmap

private theorem getBody_of_shows {own : ContentValue} {parts : List Entity} {nodes : List Node}
    (h : List.Forall₂ (Shows own) parts nodes) (hparts : ∀ part ∈ parts, part.Unencoded) :
    nodes.map Node.getBody = parts.map fun _ => [] := by
  induction h with
  | nil => rfl
  | @cons part node parts nodes hshows _ ih =>
      obtain ⟨hpart, hparts⟩ := List.forall_mem_cons.mp hparts
      rw [List.map_cons, List.map_cons, hshows.getBody_unencoded hpart, ih hparts]

/-- The parser takes a form exactly when it can read the media type of every part. It has then a
node for each part, and none of them has a body. -/
theorem form_received_iff (date : Bytes) (order : Headers → Headers)
    (horder : ∀ headers, (order headers).Perm headers) (boundary : Boundary)
    (parts : List FormPart) (hne : parts ≠ []) (hplain : ∀ part ∈ parts, part.Plain)
    (hfree : ∀ part ∈ parts, ¬ delimiter boundary.bytes <:+: part.octets) (segments : List Bytes)
    (hsegments : segments.flatten = (formData boundary.bytes parts).str date order) :
    (∃ p root buf, run feed (.ok (.notEnough,
        .create (multipartType (ascii "form-data") boundary.bytes), [])) segments =
          .ok (.ok, p, buf) ∧ p.root = some root ∧
        root.iterParts.map Node.getBody = parts.map fun _ => []) ↔
      ∀ part ∈ parts, part.TypeKnown := by
  obtain ⟨m, hm, hboundary, hepilogue, hentities, htext⟩ := formData_body horder hne hplain hfree
  subst hboundary
  have hfound : ∀ n, m.FoundAt n := by
    intro n
    rw [MultipartBody.FoundAt, hepilogue]
    trivial
  have haccepted : (∀ part ∈ parts, part.TypeKnown) ↔ ∀ part ∈ m.parts, part.Accepted :=
    forall_iff_of_forall₂ hentities fun _ _ h => h.accepted.symm
  have hunencoded : ∀ part ∈ m.parts, part.Unencoded :=
    forall_of_forall₂ hentities fun _ _ h => h.unencoded
  rw [haccepted]
  rcases body_run hm (makeRoot_multipart formData_plain m.boundary) (hsegments.trans htext) with
    ⟨p, extra, back, hrun, hread, hextra, _⟩ | ⟨hstopped, hnot⟩
  · obtain ⟨p', data, nodes, buf, hok, hroot, _, hnodes, _⟩ :=
      (isRead_closing hread back hextra).mpr (hfound _)
    refine iff_of_true ⟨p', _, buf, hrun.trans hok, hroot, ?_⟩ hread.accepted
    rw [Node.iterParts, getBody_of_shows hnodes hunencoded, List.map_const', List.map_const',
      hentities.length_eq]
  · refine iff_of_false ?_ hnot
    rintro ⟨p, root, buf, hok, _, _⟩
    rw [hok] at hstopped
    rcases hstopped with ⟨_, hfault⟩ | ⟨_, _, herror⟩
    · cases hfault
    · cases herror

theorem filePart_type : ∀ contentType,
    parseContentType (ascii "application/octet-stream") ≠ .ok (some contentType) := by
  have hfault : (parseContentType (ascii "application/octet-stream")).isOk = false := by
    decide
  intro contentType h
  rw [h] at hfault
  cases hfault

private theorem textPart_plain : FormPart.Plain (.text (ascii "a") (ascii "b")) := by
  refine ⟨by decide, ⟨by decide, by decide, by decide⟩, ?_⟩
  intro contentType h
  rw [FormPart.mediaType, textPart_type] at h
  cases h
  unfold ContentValue.IsMultipart
  decide

private theorem filePart_plain :
    FormPart.Plain (.file (ascii "f") (ascii "x.bin") none (ascii "c")) := by
  refine ⟨by decide, ⟨by decide, by decide, by decide⟩, ?_⟩
  exact fun contentType h => absurd h (filePart_type contentType)

/-- A field that arrives in two segments is read, and not any more when a file without a media
type stands beside it. -/
theorem form_received_field :
    (∃ p root buf, run feed (.ok (.notEnough,
        .create (multipartType (ascii "form-data") edge.bytes), []))
          [((formData edge.bytes [.text (ascii "a") (ascii "b")]).str [] id).take 9,
            ((formData edge.bytes [.text (ascii "a") (ascii "b")]).str [] id).drop 9] =
          .ok (.ok, p, buf) ∧ p.root = some root ∧ root.iterParts.map Node.getBody = [[]]) ∧
      ¬ ∃ p root buf, run feed (.ok (.notEnough,
        .create (multipartType (ascii "form-data") edge.bytes), []))
          [(formData edge.bytes [.text (ascii "a") (ascii "b"),
            .file (ascii "f") (ascii "x.bin") none (ascii "c")]).str [] id] =
          .ok (.ok, p, buf) ∧ p.root = some root ∧ root.iterParts.map Node.getBody = [[], []] := by
  have hfree : ∀ part ∈ [FormPart.text (ascii "a") (ascii "b"),
      .file (ascii "f") (ascii "x.bin") none (ascii "c")],
      ¬ delimiter edge.bytes <:+: part.octets := by
    decide
  constructor
  · refine (form_received_iff [] id List.Perm.refl edge _ (List.cons_ne_nil _ _)
      (List.forall_mem_singleton.mpr textPart_plain)
      (List.forall_mem_singleton.mpr (hfree _ List.mem_cons_self)) _ (by simp)).mpr ?_
    exact List.forall_mem_singleton.mpr ⟨_, textPart_type⟩
  · intro h
    have hknown := (form_received_iff [] id List.Perm.refl edge _ (List.cons_ne_nil _ _)
      (List.forall_mem_cons.mpr ⟨textPart_plain, List.forall_mem_singleton.mpr filePart_plain⟩)
      hfree _ (by simp)).mp h
    obtain ⟨contentType, htype⟩ := hknown _ (List.mem_cons_of_mem _ List.mem_cons_self)
    exact filePart_type contentType htype

end Angel.Mime
