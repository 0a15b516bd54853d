import Angel.Mime.Parser
import Mathlib.Data.List.Forall2

/-!
Trees of text parts and multiparts: how they are built, and what `str` writes of
them. The header maps that are built are clean: no name is there twice, and
every entry makes a header line.
-/

namespace Angel.Mime

open Angel.Lib Util Buffer Http

/-- A boundary without the bytes that end a line or a quoted string. -/
structure Boundary where
  bytes : Bytes
  plain : ∀ c ∈ bytes, c ≠ CR ∧ c ≠ LF ∧ c ≠ 34 ∧ c ≠ 92

/-- What `generate_boundary` writes: `----=_Part_{seq}_{tid}.{timestamp-str}`. -/
def boundaryText (part : Nat) (tid : Bytes) (us : Nat) : Bytes :=
  ascii "----=_Part_" ++ decimal part ++ ascii "_" ++ tid ++ ascii "." ++ decimal us

/-- `generate_boundary`: `tid` is the text of a thread id. -/
def generateBoundary (part : Nat) (tid : Bytes) (us : Nat)
    (htid : ∀ c ∈ tid, c ≠ CR ∧ c ≠ LF ∧ c ≠ 34 ∧ c ≠ 92) : Boundary where
  bytes := boundaryText part tid us
  plain := by
    have hdigit : ∀ c, isdigit c = true → c ≠ CR ∧ c ≠ LF ∧ c ≠ 34 ∧ c ≠ 92 := by
      rintro c hc
      refine ⟨?_, ?_, ?_, ?_⟩ <;> rintro rfl <;> exact absurd hc (by decide)
    have hdecimal : ∀ n, ∀ c ∈ decimal n, c ≠ CR ∧ c ≠ LF ∧ c ≠ 34 ∧ c ≠ 92 :=
      fun n c hc => hdigit c (List.all_eq_true.mp (decimal_digits n) c hc)
    simp only [boundaryText, List.forall_mem_append]
    exact ⟨⟨⟨⟨⟨by decide, hdecimal part⟩, by decide⟩, htid⟩, by decide⟩, hdecimal us⟩

/-- A subtype that leaves the type, its parameters and the line as they are. -/
def PlainSubtype (subtype : Bytes) : Prop := ∀ c ∈ subtype, c ≠ 47 ∧ c ≠ 59 ∧ c ≠ CR ∧ c ≠ LF

/-- The arguments of a text part without a name, whose character set is encoded
as 7bit or quoted-printable. -/
structure TextPart where
  txtdata : Bytes
  subtype : Bytes
  charset : Bytes
  encoding : getEncoding (canonical charset) = .qp ∨ getEncoding (canonical charset) = .bit7

def TextPart.base (t : TextPart) : Base :=
  Base.create.init t.txtdata (ascii "text") t.subtype none (getEncoding (canonical t.charset))
    (some (canonical t.charset))

theorem TextPart.text_eq (t : TextPart) : text t.txtdata t.subtype t.charset none = some t.base := by
  have hne : getEncoding (canonical t.charset) ≠ .none := by
    rcases t.encoding with h | h <;> rw [h] <;> decide
  rw [text, if_neg hne]
  rfl

/-- A tree of parts with the headers that are added to each. -/
inductive Tree where
  | text (part : TextPart) (extra : List HeaderLine)
  | multipart (subtype : Bytes) (boundary : Boundary) (extra : List HeaderLine) (parts : List Tree)

namespace Tree

def addHeaders (extra : List HeaderLine) (part : Part) : Part :=
  extra.foldl (fun part line => part.addHeader line.name line.value) part

/-- The tree as the calls of the constructors, of `add_header` and of `attach`
build it. -/
def build : Tree → Part
  | text part extra => addHeaders extra (.single part.base)
  | multipart subtype boundary extra parts =>
      (buildAll parts).foldl (fun whole part => part.attach whole)
        (addHeaders extra (Mime.multipart subtype boundary.bytes))
where
  buildAll : List Tree → List Part
    | [] => []
    | tree :: trees => tree.build :: buildAll trees

/-- The headers of the part. -/
def headers (tree : Tree) : Headers := tree.build.base.headers

section

variable (order : Headers → Headers)

def renderHeaders (headers : Headers) : Bytes :=
  headers.flatMap fun header => header.1 ++ ascii ": " ++ header.2 ++ CRLF

/-- What stands behind the headers of a part. -/
def content : Tree → Bytes
  | text part _ => part.base.encodedData
  | multipart _ boundary _ parts => dashBoundary boundary.bytes ++ behind boundary.bytes parts
where
  /-- What stands behind a boundary when `parts` are to come. -/
  behind (boundary : Bytes) : List Tree → Bytes
    | [] => TWO_HYPHEN
    | part :: parts =>
        CRLF ++ (renderHeaders (order part.headers) ++ (CRLF ++ (part.content ++
          (delimiter boundary ++ behind boundary parts))))

/-- A part that has been attached. -/
def wire (tree : Tree) : Bytes :=
  renderHeaders (order tree.headers) ++ (CRLF ++ tree.content order)

end

/-- The text of a part does not hold the delimiter of the multipart it is
attached to. -/
def FreeOf (boundary : Bytes) : Tree → Prop
  | text part _ => ¬ delimiter boundary <:+: part.base.encodedData
  | multipart .. => True

/-- The part has a `Content-Type`: a form-data multipart does not get one. -/
def Announced : Tree → Prop
  | text .. => True
  | multipart subtype _ _ _ => subtype ≠ ascii "form-data"

/-- Every multipart has a part, and no text holds the delimiter around it. -/
inductive Proper : Tree → Prop where
  | text {part : TextPart} {extra : List HeaderLine} : Proper (.text part extra)
  | multipart {subtype : Bytes} {boundary : Boundary} {extra : List HeaderLine} {parts : List Tree}
      (hne : parts ≠ []) (hfree : ∀ part ∈ parts, part.FreeOf boundary.bytes)
      (hparts : ∀ part ∈ parts, Proper part) : Proper (.multipart subtype boundary extra parts)

/-- The subtypes are plain, and the inner multiparts are announced. -/
inductive Plain : Tree → Prop where
  | text {part : TextPart} {extra : List HeaderLine} (hplain : PlainSubtype part.subtype) :
      Plain (.text part extra)
  | multipart {subtype : Bytes} {boundary : Boundary} {extra : List HeaderLine} {parts : List Tree}
      (hplain : PlainSubtype subtype) (hannounced : ∀ part ∈ parts, part.Announced)
      (hparts : ∀ part ∈ parts, Plain part) : Plain (.multipart subtype boundary extra parts)

/-- A part as `attach` keeps it. -/
def attached (tree : Tree) : Part := tree.build.withBase { tree.build.base with topLevel := false }

/-- The headers are added to the base of the object. -/
def addAll (extra : List HeaderLine) (base : Base) : Base :=
  extra.foldl (fun base line => base.addHeader line.name line.value) base

theorem addHeaders_single (extra : List HeaderLine) (base : Base) :
    addHeaders extra (.single base) = .single (addAll extra base) := by
  induction extra generalizing base with
  | nil => rfl
  | cons line extra ih => exact ih _

theorem addHeaders_multipart (extra : List HeaderLine) (base : Base) (boundary : Bytes)
    (parts : List Part) :
    addHeaders extra (.multipart base boundary parts) =
      .multipart (addAll extra base) boundary parts := by
  induction extra generalizing base with
  | nil => rfl
  | cons line extra ih => exact ih _

theorem addAll_encodedData (extra : List HeaderLine) (base : Base) :
    (addAll extra base).encodedData = base.encodedData := by
  induction extra generalizing base with
  | nil => rfl
  | cons line extra ih => exact ih _

theorem attach_all (trees : List Tree) (base : Base) (boundary : Bytes) (parts : List Part) :
    (build.buildAll trees).foldl (fun whole part => part.attach whole)
        (.multipart base boundary parts) =
      .multipart base boundary (parts ++ trees.map attached) := by
  induction trees generalizing parts with
  | nil => rw [List.map_nil, List.append_nil]; rfl
  | cons tree trees ih =>
      rw [build.buildAll, List.foldl_cons, Part.attach, ih, List.map_cons, List.append_assoc]
      rfl

/-- The base that the constructor of a multipart makes. -/
def multipartBase (subtype boundary : Bytes) : Base := (Mime.multipart subtype boundary).base

theorem multipart_eq (subtype boundary : Bytes) :
    Mime.multipart subtype boundary = .multipart (multipartBase subtype boundary) boundary [] := by
  rw [multipartBase, Mime.multipart]
  split <;> rfl

theorem multipartBase_encodedData (subtype boundary : Bytes) :
    (multipartBase subtype boundary).encodedData = [] := by
  rw [multipartBase, Mime.multipart]
  split <;> rfl

theorem build_text (part : TextPart) (extra : List HeaderLine) :
    build (.text part extra) = .single (addAll extra part.base) := addHeaders_single extra part.base

theorem build_multipart (subtype : Bytes) (boundary : Boundary) (extra : List HeaderLine)
    (parts : List Tree) :
    build (.multipart subtype boundary extra parts) =
      .multipart (addAll extra (multipartBase subtype boundary.bytes)) boundary.bytes
        (parts.map attached) := by
  rw [build, multipart_eq, addHeaders_multipart, attach_all, List.nil_append]

section

variable {date : Bytes} {order : Headers → Headers}

/-- The parts with the boundary lines around them. -/
def joined (boundary : Bytes) : List Bytes → Bytes
  | [] => TWO_HYPHEN
  | part :: parts => CRLF ++ (part ++ (delimiter boundary ++ joined boundary parts))

private theorem strAll_joined (parts : List Part) (boundary front : Bytes) :
    (front ++ CRLF ++ Part.str.strAll date order boundary parts).dropLast.dropLast ++ TWO_HYPHEN =
      front ++ joined boundary (parts.map (Part.str date order)) := by
  induction parts generalizing front with
  | nil => simp [Part.str.strAll, joined, CRLF]
  | cons part parts ih =>
      have hrest := ih (front ++ CRLF ++ part.str date order ++ delimiter boundary)
      rw [List.map_cons, Part.str.strAll, joined]
      simp only [delimiter, dashBoundary, List.append_assoc] at hrest ⊢
      exact hrest

theorem behind_joined (boundary : Bytes) (parts : List Tree) :
    content.behind order boundary parts = joined boundary (parts.map (wire order)) := by
  induction parts with
  | nil => rfl
  | cons part parts ih =>
      rw [content.behind, List.map_cons, joined, ih, wire]
      simp only [List.append_assoc]

theorem str_parts {parts : List Part} (hne : parts ≠ []) (base : Base) (boundary : Bytes) :
    (Part.multipart base boundary parts).str date order = base.str date order ++
      (dashBoundary boundary ++ joined boundary (parts.map (Part.str date order))) := by
  have hjoined : (base.str date order ++ TWO_HYPHEN ++ boundary ++ CRLF ++
      Part.str.strAll date order boundary parts).dropLast.dropLast ++ TWO_HYPHEN =
        base.str date order ++ TWO_HYPHEN ++ boundary ++
          joined boundary (parts.map (Part.str date order)) := strAll_joined parts boundary _
  have hsome : parts.isEmpty = false := List.isEmpty_eq_false_iff.mpr hne
  rw [Part.str, hsome]
  simp only [Bool.false_eq_true, if_false]
  rw [hjoined, dashBoundary, List.append_assoc, List.append_assoc, List.append_assoc]

theorem str_multipart {parts : List Tree} {boundary : Bytes} {base : Base} (hne : parts ≠ [])
    (hparts : ∀ part ∈ parts, part.attached.str date order = part.wire order) :
    (Part.multipart base boundary (parts.map attached)).str date order =
      base.str date order ++ (dashBoundary boundary ++ content.behind order boundary parts) := by
  have hwires : (parts.map attached).map (Part.str date order) = parts.map (wire order) := by
    rw [List.map_map]
    exact List.map_congr_left hparts
  rw [str_parts (fun h => hne (List.map_eq_nil_iff.mp h)), hwires, behind_joined]

theorem base_str (base : Base) (h : base.topLevel = false) :
    base.str date order = renderHeaders (order base.headers) ++ (CRLF ++ base.encodedData) := by
  rw [Base.str, h, if_neg (by decide), List.append_assoc]
  rfl

theorem str_attached {tree : Tree} (h : tree.Proper) :
    tree.attached.str date order = tree.wire order := by
  induction h with
  | @text part extra =>
      rw [attached, wire, headers, content, build_text, Part.withBase, Part.str, base_str _ rfl]
      simp only [Part.base, addAll_encodedData]
  | @multipart subtype boundary extra parts hne _ _ ih =>
      rw [attached, wire, headers, content, build_multipart, Part.withBase, str_multipart hne ih,
        base_str _ rfl]
      simp only [Part.base, addAll_encodedData, multipartBase_encodedData, List.append_nil,
        List.append_assoc]

end

end Tree

/-- No name is there twice, ignoring case, and every entry makes a line. -/
structure CleanHeaders (headers : Headers) : Prop where
  lines : ∀ entry ∈ headers, ∃ line : HeaderLine, (line.name, line.value) = entry
  distinct : headers.Pairwise fun first second => toLower first.1 ≠ toLower second.1

theorem find_none {headers : Headers} {field : Bytes} :
    headers.find field = none ↔ ∀ entry ∈ headers, toLower entry.1 ≠ toLower field := by
  rw [Headers.find, Option.map_eq_none_iff, List.find?_eq_none]
  simp

theorem CleanHeaders.emplace {headers : Headers} (h : CleanHeaders headers) (line : HeaderLine) :
    CleanHeaders (headers.emplace line.name line.value) := by
  rw [Headers.emplace]
  split
  · exact h
  · next hcount =>
      have hnone : headers.find line.name = none := by
        rwa [Headers.count, Option.not_isSome_iff_eq_none] at hcount
      refine ⟨?_, ?_⟩
      · intro entry hentry
        rw [List.mem_append, List.mem_singleton] at hentry
        rcases hentry with hentry | rfl
        · exact h.lines entry hentry
        · exact ⟨line, rfl⟩
      · rw [List.pairwise_append]
        refine ⟨h.distinct, List.pairwise_singleton _ _, ?_⟩
        intro entry hentry other hother
        rw [List.mem_singleton] at hother
        rw [hother]
        exact find_none.mp hnone entry hentry

theorem CleanHeaders.addAll {base : Base} (h : CleanHeaders base.headers) (extra : List HeaderLine) :
    CleanHeaders (Tree.addAll extra base).headers := by
  induction extra generalizing base with
  | nil => exact h
  | cons line extra ih => exact ih (h.emplace line)

theorem cleanHeaders_nil : CleanHeaders [] := ⟨nofun, List.Pairwise.nil⟩

/-- A map with the same entries in another order is clean and finds the same. -/
theorem CleanHeaders.perm {headers headers' : Headers} (h : CleanHeaders headers)
    (hperm : headers'.Perm headers) : CleanHeaders headers' := by
  refine ⟨fun entry hentry => h.lines entry (hperm.subset hentry), ?_⟩
  exact h.distinct.perm hperm.symm fun hne => Ne.symm hne

theorem CleanHeaders.tail {entry : Bytes × Bytes} {headers : Headers}
    (h : CleanHeaders (entry :: headers)) : CleanHeaders headers :=
  ⟨fun e he => h.lines e (List.mem_cons_of_mem entry he), (List.pairwise_cons.mp h.distinct).2⟩

theorem CleanHeaders.find_eq {headers : Headers} (h : CleanHeaders headers) {name value : Bytes}
    (hmem : (name, value) ∈ headers) : headers.find name = some value := by
  induction headers with
  | nil => cases hmem
  | cons entry headers ih =>
      rw [Headers.find, List.find?_cons]
      rcases List.mem_cons.mp hmem with rfl | hmem
      · simp
      · have hne := (List.pairwise_cons.mp h.distinct).1 _ hmem
        simp only [hne, decide_false]
        exact ih h.tail hmem

theorem CleanHeaders.exists_lines {headers : Headers} (h : CleanHeaders headers) :
    ∃ lines : List HeaderLine, headerMap lines = headers ∧ DistinctNames lines ∧
      renderLines lines = Tree.renderHeaders headers := by
  induction headers with
  | nil => exact ⟨[], rfl, List.Pairwise.nil, rfl⟩
  | cons entry headers ih =>
      obtain ⟨lines, hmap, hdistinct, hrender⟩ := ih h.tail
      obtain ⟨line, rfl⟩ := h.lines _ List.mem_cons_self
      refine ⟨line :: lines, ?_, ?_, ?_⟩
      · rw [← hmap]
        rfl
      · refine List.pairwise_cons.mpr ⟨?_, hdistinct⟩
        intro other hother
        have hmem : (other.name, other.value) ∈ headers := by
          rw [← hmap]
          exact List.mem_map_of_mem hother
        exact (List.pairwise_cons.mp h.distinct).1 _ hmem
      · have hline : renderLines (line :: lines) =
            line.name ++ SEP ++ line.value ++ CRLF ++ renderLines lines := rfl
        rw [hline, hrender]
        rfl

theorem TextPart.canonical_mem (t : TextPart) : canonical t.charset ∈ charsetMap.map Prod.fst := by
  have hne : getEncoding (canonical t.charset) ≠ .none := by
    rcases t.encoding with h | h <;> rw [h] <;> decide
  by_contra hnot
  apply hne
  have hnone : charsetMap.find? (fun entry => entry.1 = canonical t.charset) = none := by
    rw [List.find?_eq_none]
    intro entry hentry heq
    rw [decide_eq_true_eq] at heq
    exact hnot (heq ▸ List.mem_map_of_mem hentry)
  rw [getEncoding, hnone]
  rfl

theorem charset_plain : ∀ cs ∈ charsetMap.map Prod.fst,
    (∀ c ∈ cs, c ≠ CR ∧ c ≠ LF ∧ c ≠ 59 ∧ c ≠ 34) ∧ cs ≠ [] ∧ trim cs = cs ∧
      isspace (cs.getLastD 0) = false := by
  decide

/-- The `Content-Type` of a text part. -/
def TextPart.contentType (t : TextPart) : Bytes :=
  ascii "text/" ++ t.subtype ++ ascii "; charset=" ++ canonical t.charset

/-- A value between a text that starts it and one that ends it has nothing to
trim. -/
theorem trim_between {first middle last : Bytes} (hfirst : first ≠ []) (hlast : last ≠ [])
    (hhead : isspace (first.headD 0) = false) (hend : isspace (last.getLastD 0) = false) :
    trim (first ++ middle ++ last) = first ++ middle ++ last := by
  apply Lib.trimmed_of_ends
  · intro c hc
    obtain ⟨b, first, rfl⟩ := List.exists_cons_of_ne_nil hfirst
    cases hc
    exact hhead
  · intro c hc
    rw [List.getLast?_append_of_ne_nil _ hlast] at hc
    rwa [List.getLastD_eq_getLast?, hc] at hend

theorem TextPart.contentType_ne_nil (t : TextPart) : t.contentType ≠ [] := by
  rw [TextPart.contentType, ascii]
  exact List.cons_ne_nil _ _

theorem TextPart.contentType_trimmed (t : TextPart) : trim t.contentType = t.contentType := by
  obtain ⟨_, hne, _, hlast⟩ := charset_plain _ t.canonical_mem
  have hshape : t.contentType =
      ascii "text/" ++ (t.subtype ++ ascii "; charset=") ++ canonical t.charset := by
    simp only [TextPart.contentType, List.append_assoc]
  rw [hshape]
  exact trim_between (by decide) hne (by decide) hlast

theorem TextPart.contentType_free (t : TextPart) (hplain : PlainSubtype t.subtype) :
    ∀ c ∈ t.contentType, c ≠ CR ∧ c ≠ LF := by
  have hsubtype : ∀ c ∈ t.subtype, c ≠ CR ∧ c ≠ LF := fun c hc => (hplain c hc).2.2
  have hcharset : ∀ c ∈ canonical t.charset, c ≠ CR ∧ c ≠ LF := by
    intro c hc
    have hfree := (charset_plain _ t.canonical_mem).1 c hc
    exact ⟨hfree.1, hfree.2.1⟩
  simp only [TextPart.contentType, List.forall_mem_append]
  exact ⟨⟨⟨by decide, hsubtype⟩, by decide⟩, hcharset⟩

theorem contentTypeName_free : ∀ b ∈ ascii "Content-Type", b ≠ COLON ∧ b ≠ CR ∧ b ≠ LF ∧ b ≠ 0 := by
  decide

def TextPart.typeLine (t : TextPart) (hplain : PlainSubtype t.subtype) : HeaderLine where
  name := ascii "Content-Type"
  value := t.contentType
  nameFree := contentTypeName_free
  valueNonempty := t.contentType_ne_nil
  valueTrimmed := t.contentType_trimmed
  valueFree := t.contentType_free hplain

theorem multipartType_ne_nil (subtype boundary : Bytes) : multipartType subtype boundary ≠ [] := by
  rw [multipartType, ascii]
  exact List.cons_ne_nil _ _

theorem multipartType_trimmed (subtype boundary : Bytes) :
    trim (multipartType subtype boundary) = multipartType subtype boundary := by
  have hshape : multipartType subtype boundary =
      ascii "multipart/" ++ (subtype ++ (ascii "; boundary=\"" ++ boundary)) ++ ascii "\"" := by
    simp only [multipartType, List.append_assoc]
  rw [hshape]
  exact trim_between (by decide) (by decide) (by decide) (by decide)

private theorem multipartType_free {subtype : Bytes} (hplain : PlainSubtype subtype)
    (boundary : Boundary) :
    ∀ c ∈ multipartType subtype boundary.bytes, c ≠ CR ∧ c ≠ LF := by
  have hsubtype : ∀ c ∈ subtype, c ≠ CR ∧ c ≠ LF := fun c hc => (hplain c hc).2.2
  have hboundary : ∀ c ∈ boundary.bytes, c ≠ CR ∧ c ≠ LF :=
    fun c hc => ⟨(boundary.plain c hc).1, (boundary.plain c hc).2.1⟩
  simp only [multipartType, List.forall_mem_append]
  exact ⟨⟨⟨⟨by decide, hsubtype⟩, by decide⟩, hboundary⟩, by decide⟩

/-- The `Content-Type` of a multipart as a line. -/
def multipartLine (subtype : Bytes) (hplain : PlainSubtype subtype) (boundary : Boundary) :
    HeaderLine where
  name := ascii "Content-Type"
  value := multipartType subtype boundary.bytes
  nameFree := contentTypeName_free
  valueNonempty := multipartType_ne_nil subtype boundary.bytes
  valueTrimmed := multipartType_trimmed subtype boundary.bytes
  valueFree := multipartType_free hplain boundary

/-- The `Content-Transfer-Encoding` of a text part. -/
def TextPart.transferEncoding (t : TextPart) : Bytes :=
  if getEncoding (canonical t.charset) = .qp then ascii "quoted-printable" else ascii "7bit"

def TextPart.encodingLine (t : TextPart) : HeaderLine where
  name := ascii "Content-Transfer-Encoding"
  value := t.transferEncoding
  nameFree := by decide
  valueNonempty := by
    rw [TextPart.transferEncoding]
    split <;> decide
  valueTrimmed := by
    rw [TextPart.transferEncoding]
    split <;> decide
  valueFree := by
    rw [TextPart.transferEncoding]
    split <;> decide

theorem TextPart.base_eq (t : TextPart) :
    t.base.headers = [(ascii "Content-Type", t.contentType),
        (ascii "Content-Transfer-Encoding", t.transferEncoding)] ∧
      t.base.encodedData =
        if getEncoding (canonical t.charset) = .qp then QP.encode t.txtdata else t.txtdata := by
  have htype : ascii "text" ++ ascii "/" ++ t.subtype ++ ascii "; charset=" ++ canonical t.charset =
      t.contentType := rfl
  rw [TextPart.base, Base.init]
  simp only [htype]
  rcases t.encoding with h | h
  · simp only [h, Base.encode, if_true, TextPart.transferEncoding]
    exact ⟨rfl, rfl⟩
  · simp only [h, Base.encode, TextPart.transferEncoding]
    exact ⟨rfl, rfl⟩

end Angel.Mime
