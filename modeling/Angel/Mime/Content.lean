import Angel.Mime.Parameters
import Angel.Mime.Tree

/-!
What the parser makes of the headers of a part: the header block is read like
that of an HTTP message, the content type leads to the node that the part is
for, and the transfer encoding to the text that was encoded.
-/

namespace Angel.Mime

open Angel.Lib Util Buffer Http

theorem startsWith_crlf_iff {buf : Bytes} {crlf : Nat} (h : findCrlf buf = some crlf) :
    startsWith buf CRLF = true ↔ crlf = 0 := by
  constructor
  · intro hstart
    cases buf with
    | nil => cases h
    | cons b buf =>
        rw [startsWith] at hstart
        rw [findCrlf, find, if_pos hstart] at h
        exact (Option.some.inj h).symm
  · rintro rfl
    obtain ⟨line, tail, rfl, hlen, _⟩ := findCrlf_some h
    rw [List.length_eq_zero_iff.mp hlen]
    exact startsWith_append CRLF tail

/-- The return codes that HTTP and MIME have for the same thing. -/
def codeOf : StatusCode → ParseCode
  | .ok => .ok
  | .continue => .notEnough
  | _ => .error

/-- The outcomes of the two header parsers. -/
def SameHeader (r : Except Fault (ParseCode × Headers × Bytes)) (r' : Parsed) : Prop :=
  r = match r' with
    | some (m, buf, code) => .ok (codeOf code, m.headers, buf)
    | none => .error .outOfBounds

private theorem headerPass_same (headers : Headers) (buf : Bytes) (m : Message)
    (hm : m.headers = headers) :
    PassRel (fun s s' => s'.1.headers = s.1 ∧ s'.2 = s.2) SameHeader (headerPass (headers, buf))
      (Http.headerPass (m, buf)) := by
  subst hm
  rw [headerPass, Http.headerPass]
  dsimp only
  cases hcrlf : findCrlf buf with
  | none =>
      split
      · exact .done rfl
      · exact .done rfl
  | some crlf =>
      have hne : buf ≠ [] := by
        rintro rfl
        cases hcrlf
      rw [if_neg hne]
      dsimp only
      refine PassRel.ite (startsWith_crlf_iff hcrlf) (fun _ => .done rfl) fun _ => ?_
      cases find [COLON] buf with
      | none => exact .done rfl
      | some pos =>
          dsimp only
          refine PassRel.ite Iff.rfl (fun _ => .done rfl) fun _ => .again ⟨?_, rfl⟩
          rw [ite_not]

theorem parseHeader_loops (m : Message) (buf : Bytes) :
    Option.Rel SameHeader (loop headerPass (buf.length + 1) (m.headers, buf))
      (loop Http.headerPass (buf.length + 1) (m, buf)) := by
  apply loop_simulation (R := fun s s' => s'.1.headers = s.1 ∧ s'.2 = s.2)
  · rintro ⟨headers, buf⟩ ⟨m, buf'⟩ ⟨hheaders, hbuf⟩
    have hsame := headerPass_same headers buf m hheaders
    rwa [← show buf' = buf from hbuf] at hsame ⊢
  · exact ⟨rfl, rfl⟩

theorem parseHeader_same {m m' : Message} {buf left : Bytes} {code : StatusCode}
    (h : m.parseHeader buf = some (m', left, code)) :
    parseHeader m.headers buf = .ok (codeOf code, m'.headers, left) := by
  have hloop := parseHeader_loops m buf
  rw [Message.parseHeader] at h
  rw [parseHeader]
  generalize loop headerPass (buf.length + 1) (m.headers, buf) = r,
    loop Http.headerPass (buf.length + 1) (m, buf) = r' at hloop h
  cases hloop with
  | none => cases h
  | some hsame =>
      rw [Option.join_some] at h
      subst h
      exact hsame

theorem parseHeader_fault {m : Message} {buf : Bytes} (h : m.parseHeader buf = none) :
    ∃ fault, parseHeader m.headers buf = .error fault := by
  have hloop := parseHeader_loops m buf
  rw [Message.parseHeader] at h
  rw [parseHeader]
  generalize loop headerPass (buf.length + 1) (m.headers, buf) = r,
    loop Http.headerPass (buf.length + 1) (m, buf) = r' at hloop h
  cases hloop with
  | none => exact ⟨.spins, rfl⟩
  | some hsame =>
      rw [Option.join_some] at h
      subst h
      exact ⟨.outOfBounds, hsame⟩

/-- The header block of a part, of which `buf` has arrived, is read as far as its
lines are complete. -/
theorem parseHeader_block (fields : List FieldLine) (headers : Headers) {buf rest after : Bytes}
    (hstream : buf ++ rest = renderFields fields ++ CRLF ++ after) :
    (∃ extra, extra ++ rest = after ∧ extra.length < buf.length ∧
      parseHeader headers buf = .ok (.ok, headers.enterAll fields, extra)) ∨
    (∃ done todo left, fields = done ++ todo ∧ left ++ rest = renderFields todo ++ CRLF ++ after ∧
      left.length < (renderFields todo ++ CRLF).length ∧
      parseHeader headers buf = .ok (.notEnough, headers.enterAll done, left)) := by
  let m : Message := { headers := headers, body := [], length := 0, chunked := false, chunkSize := -1 }
  rcases parseHeader_fields fields m hstream with
    ⟨extra, hafter, hbuf, hparse⟩ | ⟨done, todo, left, hfields, hbuf, hleft, _, hparse⟩
  · refine .inl ⟨extra, hafter, ?_, parseHeader_same hparse⟩
    rw [hbuf, List.length_append, List.length_append]
    exact Nat.lt_add_of_pos_left (Nat.add_pos_right _ (by decide))
  · refine .inr ⟨done, todo, left, hfields, hleft, ?_, parseHeader_same hparse⟩
    rcases arrived_cases hleft with ⟨more, hmore, hshort, _⟩ | ⟨extra, hextra, _⟩
    · exact arrived_length_lt hmore hshort
    · -- the block is complete, and then it is read to its end
      have hwhole : buf ++ [] = renderFields fields ++ CRLF ++ extra := by
        rw [List.append_nil, hbuf, hextra, hfields]
        simp [renderFields]
      rcases parseHeader_fields fields m hwhole with ⟨_, _, _, hok⟩ | ⟨_, _, _, _, _, _, hne, _⟩
      · rw [hparse] at hok
        have hcode := congrArg (Option.map fun parsed => parsed.2.2) hok
        cases hcode
      · exact absurd rfl hne

theorem contentValue_parse {value parameter : Bytes} {parameters : Headers} (hvalue : 59 ∉ value)
    (hpass : parameterPass ([], parameter) = .done (true, parameters)) :
    ContentValue.parse (value ++ 59 :: parameter) = .ok (true, ⟨value, parameters⟩) := by
  have hfind : find (ascii ";") (value ++ 59 :: parameter) = some value.length :=
    find_singleton 59 hvalue parameter
  have hdrop : (value ++ 59 :: parameter).drop (value.length + 1) = parameter := by
    rw [← List.drop_drop, List.drop_left]
    rfl
  rw [ContentValue.parse, hfind]
  simp only [hdrop, List.take_left, loop_done hpass, Option.getD_some]

theorem split_type {maintype subtype : Bytes} (hmain : 47 ∉ maintype) (hsub : 47 ∉ subtype) :
    split (maintype ++ 47 :: subtype) 47 = [maintype, subtype] := by
  rw [split_separator hmain, split_free hsub]

/-- The content type that is read for a text part. -/
def TextPart.contentValue (t : TextPart) : ContentValue :=
  ⟨ascii "text" ++ 47 :: t.subtype, [(ascii "charset", canonical t.charset)]⟩

/-- The content type that is read for a multipart. -/
def multipartValue (subtype boundary : Bytes) : ContentValue :=
  ⟨ascii "multipart" ++ 47 :: subtype, [(ascii "boundary", boundary)]⟩

theorem parseContentType_eq {maintype subtype parameter : Bytes} {parameters : Headers}
    (hmain : ∀ c ∈ maintype, c ≠ 47 ∧ c ≠ 59) (hplain : PlainSubtype subtype)
    (hpass : parameterPass ([], parameter) = .done (true, parameters)) :
    parseContentType ((maintype ++ 47 :: subtype) ++ 59 :: parameter) =
      .ok (some ⟨maintype ++ 47 :: subtype, parameters⟩) := by
  have hfree : 59 ∉ maintype ++ 47 :: subtype := by
    intro hmem
    rcases List.mem_append.mp hmem with hmem | hmem
    · exact (hmain 59 hmem).2 rfl
    · rcases List.mem_cons.mp hmem with heq | hmem
      · exact absurd heq (by decide)
      · exact (hplain 59 hmem).2.1 rfl
  have hsplit : split (maintype ++ 47 :: subtype) 47 = [maintype, subtype] :=
    split_type (fun hmem => (hmain 47 hmem).1 rfl) fun hmem => (hplain 47 hmem).1 rfl
  rw [parseContentType, contentValue_parse hfree hpass]
  simp only [bind, Except.bind, hsplit]
  rfl

theorem maintype_eq {maintype subtype : Bytes} (hmain : ∀ c ∈ maintype, c ≠ 47 ∧ c ≠ 59)
    (hplain : PlainSubtype subtype) (parameters : Headers) :
    ContentValue.maintype ⟨maintype ++ 47 :: subtype, parameters⟩ = maintype := by
  have hsplit : split (maintype ++ 47 :: subtype) 47 = [maintype, subtype] :=
    split_type (fun hmem => (hmain 47 hmem).1 rfl) fun hmem => (hplain 47 hmem).1 rfl
  rw [ContentValue.maintype, hsplit]
  rfl

theorem text_free : ∀ c ∈ ascii "text", c ≠ 47 ∧ c ≠ 59 := by decide

theorem multipart_free : ∀ c ∈ ascii "multipart", c ≠ 47 ∧ c ≠ 59 := by decide

theorem multipartValue_maintype {subtype : Bytes} (hplain : PlainSubtype subtype) (boundary : Bytes) :
    equalCase (multipartValue subtype boundary).maintype (ascii "multipart") = true := by
  rw [multipartValue, maintype_eq multipart_free hplain]
  decide

theorem multipartValue_boundary (subtype boundary : Bytes) :
    (multipartValue subtype boundary).parameters.find (ascii "boundary") = some boundary := rfl

theorem TextPart.parseContentType_text (t : TextPart) (hplain : PlainSubtype t.subtype) :
    parseContentType t.contentType = .ok (some t.contentValue) := by
  obtain ⟨hfree, hne, htrim, _⟩ := charset_plain _ t.canonical_mem
  have hstart : StartsPlain (ascii "charset") := by
    intro c hc
    cases hc
    decide
  have hpass := parameterPass_raw hstart (by decide) hne htrim
    (fun c hc => ⟨(hfree c hc).2.2.1, (hfree c hc).2.2.2⟩) .nothing []
  rw [List.append_nil] at hpass
  have hshape : t.contentType = (ascii "text" ++ 47 :: t.subtype) ++
      59 :: (32 :: (ascii "charset" ++ 61 :: canonical t.charset)) := by
    rw [TextPart.contentType]
    simp [ascii]
  rw [hshape]
  exact parseContentType_eq text_free hplain hpass

theorem parseContentType_multipart {subtype : Bytes} (hplain : PlainSubtype subtype)
    (boundary : Boundary) :
    parseContentType (multipartType subtype boundary.bytes) =
      .ok (some (multipartValue subtype boundary.bytes)) := by
  have hstart : StartsPlain (ascii "boundary") := by
    intro c hc
    cases hc
    decide
  have hpass := parameterPass_quoted hstart (by decide)
    (fun c hc => ⟨(boundary.plain c hc).2.2.1, (boundary.plain c hc).2.2.2⟩) .nothing []
  have hshape : multipartType subtype boundary.bytes = (ascii "multipart" ++ 47 :: subtype) ++
      59 :: (32 :: (ascii "boundary" ++ 61 :: 34 :: (boundary.bytes ++ [34]))) := by
    rw [multipartType]
    simp [ascii]
  rw [hshape]
  exact parseContentType_eq multipart_free hplain hpass

namespace Tree

theorem mem_addAll {base : Base} {entry : Bytes × Bytes} (h : entry ∈ base.headers)
    (extra : List HeaderLine) : entry ∈ (addAll extra base).headers := by
  induction extra generalizing base with
  | nil => exact h
  | cons line extra ih =>
      apply ih
      have hkept : entry ∈ base.headers.emplace line.name line.value := by
        rw [Headers.emplace]
        split
        · exact h
        · exact List.mem_append_left _ h
      exact hkept

theorem text_headers (part : TextPart) (extra : List HeaderLine) :
    headers (.text part extra) = (addAll extra part.base).headers := by
  rw [headers, build_text]
  rfl

theorem multipart_headers (subtype : Bytes) (boundary : Boundary) (extra : List HeaderLine)
    (parts : List Tree) :
    headers (.multipart subtype boundary extra parts) =
      (addAll extra (multipartBase subtype boundary.bytes)).headers := by
  rw [headers, build_multipart]
  rfl

theorem multipartBase_headers {subtype : Bytes} (hsubtype : subtype ≠ ascii "form-data")
    (hplain : PlainSubtype subtype) (boundary : Boundary) :
    (multipartBase subtype boundary.bytes).headers = headerMap [multipartLine subtype hplain boundary] := by
  rw [multipartBase, Mime.multipart, if_neg hsubtype]
  rfl

theorem headers_clean {tree : Tree} (h : tree.Plain) : CleanHeaders tree.headers := by
  cases h with
  | @text part extra hplain =>
      rw [text_headers]
      apply CleanHeaders.addAll
      rw [part.base_eq.1]
      have hone := cleanHeaders_nil.emplace (part.typeLine hplain)
      exact hone.emplace part.encodingLine
  | @multipart subtype boundary extra parts hplain _ _ =>
      rw [multipart_headers]
      apply CleanHeaders.addAll
      by_cases hsubtype : subtype = ascii "form-data"
      · rw [multipartBase, Mime.multipart, if_pos hsubtype]
        exact cleanHeaders_nil
      · rw [multipartBase_headers hsubtype hplain]
        exact cleanHeaders_nil.emplace (multipartLine subtype hplain boundary)

section

variable {headers' : Headers} (own : ContentValue)

theorem getPartNode_text {part : TextPart} {extra : List HeaderLine}
    (hplain : PlainSubtype part.subtype)
    (hperm : headers'.Perm (headers (.text part extra))) :
    getPartNode own headers' =
      .ok (some (.part { headers := headers', contentType := part.contentValue, body := [] })) := by
  have hclean := (headers_clean (.text hplain)).perm hperm
  have hmem : (ascii "Content-Type", part.contentType) ∈ headers' := by
    rw [hperm.mem_iff, text_headers]
    apply mem_addAll
    rw [part.base_eq.1]
    exact List.mem_cons_self
  have hmain : equalCase part.contentValue.maintype (ascii "multipart") = false := by
    rw [TextPart.contentValue, maintype_eq text_free hplain]
    decide
  rw [getPartNode, hclean.find_eq hmem]
  simp only [part.parseContentType_text hplain, bind, Except.bind, hmain, Bool.not_false, if_true]

end

theorem decode_text {part : TextPart} {extra : List HeaderLine} {n : NodeData}
    (hplain : PlainSubtype part.subtype)
    (hperm : n.headers.Perm (headers (.text part extra))) (hbody : n.body = []) :
    n.decode part.base.encodedData = (true, { n with body := part.txtdata }) := by
  have hclean := (headers_clean (.text hplain)).perm hperm
  have hmem : (ascii "Content-Transfer-Encoding", part.transferEncoding) ∈ n.headers := by
    rw [hperm.mem_iff, text_headers]
    apply mem_addAll
    rw [part.base_eq.1]
    exact List.mem_cons_of_mem _ List.mem_cons_self
  have hfind := hclean.find_eq hmem
  have hempty : part.base.encodedData = [] → part.txtdata = [] := by
    rw [part.base_eq.2]
    split
    · intro hnil
      by_contra hne
      have hdecode := QP.decode_encode hne
      rw [hnil] at hdecode
      exact hne hdecode.symm
    · exact id
  rw [NodeData.decode]
  by_cases hnil : part.base.encodedData = []
  · rw [if_pos hnil, hempty hnil, ← hbody]
  · have hne : part.txtdata ≠ [] := by
      intro htxt
      apply hnil
      rw [part.base_eq.2, htxt]
      split <;> rfl
    have hbodyEq : (if equalCase part.transferEncoding (ascii "base64") then
        Base64.mimeDecode part.base.encodedData
        else if equalCase part.transferEncoding (ascii "quoted-printable") then
          QP.decode part.base.encodedData
        else part.base.encodedData) = part.txtdata := by
      rw [part.base_eq.2, TextPart.transferEncoding]
      split
      · rw [if_neg (by decide), if_pos (by decide), QP.decode_encode hne]
      · rw [if_neg (by decide), if_neg (by decide)]
    rw [if_neg hnil, hfind]
    simp only [hbodyEq, decide_eq_true hne]

end Tree

end Angel.Mime
