import Mathlib.Algebra.Order.BigOperators.Group.List
import Mathlib.Algebra.Order.Group.Nat
import Angel.Http.Closing
import Angel.Http.Framing

/-!
Which responses of the server delimit themselves. Each path of `process_request`
has a condition on the request and the state it meets; the conditions name the
paths that leave out the length of an empty body, announce a length the file
does not have, or send a body in answer to `HEAD`.
-/

namespace Angel.Http

open Util Lib

variable {W : Type}

/-- The calls of a user handler that leaves the framing to the library: at most
one response, by a content or by chunks and their end, no header field that
frames the body, and no line end in a field or in a media type. -/
structure LeavesFraming (calls : List UserCall) : Prop where
  once : ∃ p, (Phase.preparing true).after (calls.map .user) = some p ∧ p ≠ .chunking
  fields : ∀ field value, .addHeader field value ∈ calls →
    Unframing field ∧ PlainEntry field value
  types : ∀ body type, .setContent body type ∈ calls → ¬ CRLF <:+: type

/-- What the library enters in header fields is on one line: media types, boundaries and
digests. -/
structure System.Plain (sys : System W) : Prop where
  mimeType : ∀ path, ¬ CRLF <:+: sys.getMimeType path
  boundary : ∀ w, ¬ CRLF <:+: (sys.generateBoundary w).2
  hexDigest : ∀ w path, ¬ CRLF <:+: sys.hexDigest w path

/-- A server all of whose handlers do. -/
structure Server.LeavesFraming (server : Server W) : Prop where
  user : ∀ method table path handler, server.router method = some table →
    table path = some handler → ∀ w req, Http.LeavesFraming (handler w req).2
  file : ∀ path handler, server.fileTable path = some handler → ∀ w req headers,
    Headers.Unframed headers → Headers.Unframed (handler w req headers).2

theorem Server.LeavesFraming.create (baseDir : Bytes) :
    (Server.create baseDir : Server W).LeavesFraming where
  user := by
    rintro method table path handler ⟨⟩
  file := by
    rintro path handler ⟨⟩

theorem Server.LeavesFraming.route {server : Server W} (h : server.LeavesFraming)
    (method : Method) (path : Bytes) {handler : ServerHandler W}
    (hhandler : ∀ w req, Http.LeavesFraming (handler w req).2) :
    (server.route method path handler).LeavesFraming where
  user := by
    intro m table p found htable hfound
    unfold Server.route at htable
    dsimp only at htable
    split at htable
    · next hm =>
        cases htable
        have hold : ∀ f, ((server.router method).getD fun _ => none) p = some f →
            ∀ w req, Http.LeavesFraming (f w req).2 := by
          intro f hf
          cases hrouter : server.router method with
          | none =>
              rw [hrouter] at hf
              cases hf
          | some old =>
              rw [hrouter] at hf
              exact h.user method old p f hrouter hf
        dsimp only at hfound
        split at hfound
        · rcases Option.or_eq_some_iff.mp hfound with hf | ⟨-, hf⟩
          · exact hold found hf
          · cases hf
            exact hhandler
        · exact hold found hfound
    · exact h.user m table p found htable hfound
  file := h.file

section Conditions

variable (sys : System W) (server : Server W)

/-- `send_file`: a small file is not empty, and a large one is as long as its
size said. -/
def SendFileDelimits (w : W) (req : Request) : Prop :=
  let (w, fd) := sys.openRead w req.absPath
  if req.filesize < 256 * 1024 then sys.readAll w fd ≠ []
  else req.filesize ≤ (fileContent (sys.openFiles w) fd).length

/-- `update_file`: a file that is created is answered without a length. -/
def UpdateFileDelimits (w : W) (req : Request) : Prop :=
  let (w, fd) := sys.openTruncate w req.absPath
  fd < 0 ∨ (sys.writeFile w fd req.body).2 = false ∨ req.hasFile = true

/-- The bytes of a range that lie behind the end of a file. -/
def ByteRange.missing (size : Nat) (range : ByteRange) : Nat :=
  range.length - (size - range.firstBytePos)

/-- The parts of a response with several ranges: the bytes that go out are fewer than `2 ^ 64`, and
the number of those that the open file does not have is a multiple of it, such as none. -/
def PartsDelimit (files : Nat → Bytes) (mimeType : Bytes) (filesize : Nat) (boundary : Bytes)
    (fd : Int) (ranges : List ByteRange) : Prop :=
  let missing := (ranges.map (ByteRange.missing (fileContent files fd).length)).sum
  (ranges.map (partLength mimeType filesize boundary)).sum + (2 + boundary.length + 2 + 2) <
      2 ^ 64 + missing ∧ 2 ^ 64 ∣ missing

/-- `send_range_response`: a range on its own lies in the open file. -/
def RangesDelimit (files : Nat → Bytes) (mimeType : Bytes) (filesize : Nat) (boundary : Bytes)
    (fd : Int) : List ByteRange → Prop
  | [range] => range.firstBytePos + range.length ≤ (fileContent files fd).length
  | ranges => PartsDelimit files mimeType filesize boundary fd ranges

/-- `handle_range_request`: ranges that cannot be satisfied are answered without
a length. -/
def HandleRangeDelimits (w : W) (req : Request) : Prop :=
  if req.filesize = 0 then True
  else
    match req.headers.find (ascii "Range") with
    | none => True
    | some range =>
        match parseByteRanges req.filesize range with
        | (.ok, _) => SendFileDelimits sys w req
        | (.partialContent, ranges) =>
            let (w, fd) := sys.openRead w req.absPath
            let (w, boundary) := if ranges.length = 1 then (w, []) else sys.generateBoundary w
            RangesDelimit (sys.openFiles w) (sys.getMimeType req.absPath) req.filesize boundary fd
              ranges
        | _ => False

/-- `handle_static_file_request` for a file that exists. The error page of
`If-Match` and `If-Unmodified-Since` is sent in answer to `HEAD` too. -/
def Server.ServeFileDelimits (w : W) (headers : Headers) (req : Request) : Prop :=
  let req := req.ifRange
  match req.reqMethod with
  | .head => req.handleConditional.1 ≠ .failed ∨ req.ifNoneMatch.1 ≠ .noHeader ∨
      req.ifModifiedSince.1 ≠ .noHeader
  | _ =>
      let headers := req.validators.foldl (fun h entry => h.emplace entry.1 entry.2) headers
      let (w, _) := server.handleFileRouter w headers req
      req.handleConditional.1 = .failed ∨
        if req.headers.count (ascii "Range") then HandleRangeDelimits sys w req
        else SendFileDelimits sys w req

/-- A call of the server whose response is delimited if `P` holds, and only then if what
it enters is on one line. -/
structure FramedWhen (plain : Prop) (files : Nat → Bytes) (method : Option Method)
    (r : Response × List Output) (P : Prop) : Prop where
  enough : P → SelfDelimiting files method r.2
  needed : plain → SelfDelimiting files method r.2 → P
  unframed : r.1.Unframed

theorem FramedWhen.close {plain : Prop} {order : Headers → Headers} {now : Tm} {files : Nat → Bytes}
    {method : Option Method} {res : Response} {calls : List Call} {P : Prop}
    (h : FramedWhen plain files method (res.execAll order now calls) P) :
    FramedWhen plain files method (res.execAll order now (calls ++ [.connClose])) P := by
  have hsame : Framed files method (res.execAll order now calls)
      (SelfDelimiting files method (res.execAll order now calls).2) := ⟨Iff.rfl, h.unframed⟩
  have hclosed := hsame.close
  exact ⟨fun hp => hclosed.iff.mpr (h.enough hp), fun hplain hd => h.needed hplain (hclosed.iff.mp hd),
    hclosed.unframed⟩

theorem Framed.when {files : Nat → Bytes} {method : Option Method} {r : Response × List Output}
    {P : Prop} (h : Framed files method r P) (plain : Prop) : FramedWhen plain files method r P :=
  ⟨h.iff.mpr, fun _ => h.iff.mp, h.unframed⟩

/-- What `update_file` writes in its `Location` is on one line. -/
def Server.PlainLocation (req : Request) : Prop :=
  let path := server.baseDir ++ (if req.absPath = ascii "/" then ascii "/index.html"
    else req.absPath)
  req.reqMethod = .put → ∀ host, req.headers.find (ascii "Host") = some host →
    ¬ CRLF <:+: ascii "http://" ++ host ++ path

/-- `handle_static_file_request`: a page is sent for a missing file, in answer
to `HEAD` too. -/
def Server.StaticDelimits (w : W) (headers : Headers) (req : Request) : Prop :=
  let path := server.baseDir ++ (if req.absPath = ascii "/" then ascii "/index.html"
    else req.absPath)
  let req := { req with absPath := path, hasFile := sys.isRegularFile w path }
  match req.reqMethod with
  | .put => UpdateFileDelimits sys w req
  | .delete => True
  | method =>
      if !req.hasFile then method ≠ .head
      else server.ServeFileDelimits sys w headers (server.statFile sys w req)

/-- The handler `handle_user_router` finds. -/
def Server.userHandler (req : Request) : Option (ServerHandler W) :=
  (server.router req.reqMethod).bind fun table => table req.absPath

/-- The requests whose response delimits itself, on a response object in the
state `res`. -/
def Server.Delimits (res : Response) (w : W) (req : Request) : Prop :=
  let headers := res.headers.emplace (ascii "Connection") req.connectionHeader
  match req.reqMethod with
  | .get =>
      match server.userHandler req with
      | some handler => UserDelimits res.statusCode (handler w req).2
      | none => server.StaticDelimits sys w headers req
  | .post =>
      match server.userHandler req with
      | some handler => UserDelimits res.statusCode (handler w req).2
      | none => True
  | .head => server.StaticDelimits sys w headers req
  | .put => server.StaticDelimits sys w headers req
  | .delete => server.StaticDelimits sys w headers req
  | _ => True

end Conditions

section Files

variable {sys : System W} (horder : ∀ headers, (sys.order headers).Perm headers)
  (hsys : sys.Plain) {now : Tm} {method : Option Method} {res : Response} {code : StatusCode}

theorem ByteRange.length_pos (range : ByteRange) : 0 < range.length := Nat.succ_pos _

theorem fileBytes_length_iff (files : Nat → Bytes) (fd : Int) (offset : Nat) {count : Nat}
    (hpos : 0 < count) :
    (fileBytes files fd offset count).length = count ↔
      offset + count ≤ (fileContent files fd).length := by
  rw [fileBytes, List.length_take, List.length_drop]
  omega

include horder hsys

theorem sendFile_framed (h : res.Declares code none) (w : W) (req : Request)
    (hmethod : method ≠ some .head) :
    Framed (sys.openFiles (sendFile sys w req).1) method
      (res.execAll sys.order now (sendFile sys w req).2) (SendFileDelimits sys w req) := by
  unfold sendFile SendFileDelimits
  dsimp only
  have hhead : Response.Declares ((res.setStatusCode .ok).addHeader (ascii "Content-Type")
      (sys.getMimeType req.absPath)) .ok none :=
    (h.setStatusCode .ok).addHeader (by decide) (plainEntry (by decide) (hsys.mimeType _))
  split
  · rw [List.cons_append, execAll_setStatusCode, List.cons_append, execAll_addHeader,
      List.nil_append]
    by_cases hbytes : sys.readAll (sys.openRead w req.absPath).1 (sys.openRead w req.absPath).2 = []
    · rw [hbytes]
      apply (framed_empty horder hhead onConnection_nil rfl).congr
      simp [hmethod, StatusCode.Bodyless, StatusCode.value]
    · apply (framed_content horder hhead hbytes).congr
      simp [hmethod, hbytes]
  · next hlarge =>
      rw [List.cons_append, execAll_setStatusCode, List.cons_append, execAll_addHeader,
        List.nil_append, execAll_addHeader]
      apply (framed_sized horder (hhead.addLength req.filesize) (by simp [Call.OnConnection])
        (List.append_nil _)).congr
      change _ ∧ (_ ∨ _ ∨ (fileBytes _ _ 0 req.filesize).length = req.filesize) ↔ _
      rw [fileBytes_length_iff _ _ 0 (by omega)]
      simp [hmethod, StatusCode.Bodyless, StatusCode.value]

omit horder hsys

theorem multipartLen_eq (mimeType : Bytes) (filesize : Nat) (boundary : Bytes)
    (ranges : List ByteRange) :
    multipartLen mimeType filesize boundary ranges =
      ((ranges.map (partLength mimeType filesize boundary)).sum + (2 + boundary.length + 2 + 2)) %
        2 ^ 64 := by
  have hfold : ∀ len, ranges.foldl
      (fun len range => (len + partLength mimeType filesize boundary range) % 2 ^ 64) (len % 2 ^ 64) =
        (len + (ranges.map (partLength mimeType filesize boundary)).sum) % 2 ^ 64 := by
    induction ranges with
    | nil => simp
    | cons range ranges ih =>
        intro len
        rw [List.foldl_cons, Nat.mod_add_mod, ih, List.map_cons, List.sum_cons, Nat.add_assoc]
  have hzero := hfold 0
  rw [Nat.zero_mod, Nat.zero_add] at hzero
  rw [multipartLen, hzero, Nat.mod_add_mod]

private theorem fileBytes_missing (files : Nat → Bytes) (fd : Int) (range : ByteRange) :
    (fileBytes files fd range.firstBytePos range.length).length +
      range.missing (fileContent files fd).length = range.length := by
  rw [fileBytes, List.length_take, List.length_drop, ByteRange.missing]
  omega

/-- The bytes that are sent and those that are missing add up to the length of all parts. -/
theorem sendParts_length (files : Nat → Bytes) (mimeType : Bytes) (filesize : Nat)
    (boundary : Bytes) (fd : Int) (buf : Bytes) (ranges : List ByteRange) :
    ((sendParts mimeType filesize boundary fd buf ranges).flatMap (Call.wire files)).length +
        (ranges.map (ByteRange.missing (fileContent files fd).length)).sum =
      buf.length + ((ranges.map (partLength mimeType filesize boundary)).sum +
        (2 + boundary.length + 2 + 2)) := by
  have hdashes : (ascii "--").length = 2 := rfl
  have hcrlf : CRLF.length = 2 := rfl
  induction ranges generalizing buf with
  | nil =>
      simp only [sendParts, Call.wire, List.flatMap_cons, List.flatMap_nil, List.length_append,
        List.map_nil, List.sum_nil, List.length_nil, hdashes, hcrlf]
      omega
  | cons range ranges ih =>
      have hrest := ih CRLF
      have hrange := fileBytes_missing files fd range
      have hsep : SEP.length = 2 := rfl
      simp only [sendParts, Call.wire, List.flatMap_cons, List.length_append, List.map_cons,
        List.sum_cons, partLength, formatHeader, hdashes, hcrlf, hsep] at hrest ⊢
      omega

theorem sendParts_onConnection (mimeType : Bytes) (filesize : Nat) (boundary : Bytes) (fd : Int)
    (buf : Bytes) (ranges : List ByteRange) :
    ∀ call ∈ sendParts mimeType filesize boundary fd buf ranges, call.OnConnection := by
  induction ranges generalizing buf with
  | nil => simp [sendParts, Call.OnConnection]
  | cons range ranges ih =>
      rw [sendParts, List.forall_mem_cons, List.forall_mem_cons]
      exact ⟨trivial, trivial, ih CRLF⟩

theorem multipartLen_eq_iff (files : Nat → Bytes) (mimeType : Bytes) (filesize : Nat)
    (boundary : Bytes) (fd : Int) (ranges : List ByteRange) :
    ((sendParts mimeType filesize boundary fd [] ranges).flatMap (Call.wire files)).length =
        multipartLen mimeType filesize boundary ranges ↔
      PartsDelimit files mimeType filesize boundary fd ranges := by
  have hlength := sendParts_length files mimeType filesize boundary fd [] ranges
  rw [List.length_nil, Nat.zero_add] at hlength
  rw [multipartLen_eq, PartsDelimit, ← hlength]
  generalize ((sendParts mimeType filesize boundary fd [] ranges).flatMap (Call.wire files)).length =
    sent
  generalize (ranges.map (ByteRange.missing (fileContent files fd).length)).sum = missing
  constructor
  · intro heq
    omega
  · rintro ⟨hlt, hdvd⟩
    omega

theorem contentRange_lineByte (range : ByteRange) (filesize : Nat) :
    ∀ b ∈ contentRange range.toStr filesize, LineByte b := by
  have hbytes : ∀ b ∈ ascii "bytes", LineByte b := by decide
  have hblank : ∀ b ∈ [SP], LineByte b := by decide
  have hminus : ∀ b ∈ [MINUS], LineByte b := by decide
  have hslash : ∀ b ∈ ascii "/", LineByte b := by decide
  simp only [contentRange, ByteRange.toStr, List.forall_mem_append]
  exact ⟨⟨⟨⟨hbytes, hblank⟩, ⟨decimal_lineByte _, hminus⟩, decimal_lineByte _⟩, hslash⟩,
    decimal_lineByte _⟩

theorem anyRange_lineByte (filesize : Nat) :
    ∀ b ∈ contentRange (ascii "*") filesize, LineByte b := by
  have hbytes : ∀ b ∈ ascii "bytes", LineByte b := by decide
  have hblank : ∀ b ∈ [SP], LineByte b := by decide
  have hany : ∀ b ∈ ascii "*", LineByte b := by decide
  have hslash : ∀ b ∈ ascii "/", LineByte b := by decide
  simp only [contentRange, List.forall_mem_append]
  exact ⟨⟨⟨⟨hbytes, hblank⟩, hany⟩, hslash⟩, decimal_lineByte _⟩

private theorem multipartType_plain {boundary : Bytes} (h : ¬ CRLF <:+: boundary) :
    ¬ CRLF <:+: ascii "multipart/byteranges" ++ ascii "; " ++ ascii "boundary=\"" ++ boundary ++
      ascii "\"" := by
  intro hin
  have hshape : ascii "multipart/byteranges" ++ ascii "; " ++ ascii "boundary=\"" ++ boundary ++
      ascii "\"" = ascii "multipart/byteranges; boundary=" ++ QUOTE :: (boundary ++ QUOTE :: []) := by
    simp [ascii, QUOTE]
  rw [hshape] at hin
  rcases crlf_infix_append_cons (by decide) (by decide) hin with hfront | hback
  · exact not_crlf_of_lineByte (by decide) hfront
  · rcases crlf_infix_append_cons (by decide) (by decide) hback with hboundary | hnil
    · exact h hboundary
    · exact not_crlf_nil hnil

include horder

private theorem sendRangeResponse_framed (h : res.Declares code none) (files : Nat → Bytes)
    {mimeType : Bytes} (hmime : ¬ CRLF <:+: mimeType) (filesize : Nat) {boundary : Bytes}
    (hboundary : ¬ CRLF <:+: boundary) (fd : Int) (ranges : List ByteRange)
    (hmethod : method ≠ some .head) :
    Framed files method
      (res.execAll sys.order now (sendRangeResponse mimeType filesize boundary fd ranges))
      (RangesDelimit files mimeType filesize boundary fd ranges) := by
  have hstatus := h.setStatusCode .partialContent
  unfold sendRangeResponse
  split
  · next range =>
      rw [execAll_setStatusCode, execAll_addHeader, execAll_addHeader, execAll_addHeader]
      have hhead : Response.Declares (((res.setStatusCode .partialContent).addHeader
          (ascii "Content-Type") mimeType).addHeader (ascii "Content-Range")
          (contentRange range.toStr filesize)) .partialContent none :=
        (hstatus.addHeader (by decide) (plainEntry (by decide) hmime)).addHeader (by decide)
          (plainEntry_of_lineByte (by decide) (contentRange_lineByte range filesize))
      apply (framed_sized horder (hhead.addLength range.length) (by simp [Call.OnConnection])
        (List.append_nil _)).congr
      change _ ∧ (_ ∨ _ ∨ (fileBytes _ _ _ range.length).length = range.length) ↔ _
      rw [fileBytes_length_iff _ _ _ range.length_pos]
      simp [hmethod, StatusCode.Bodyless, StatusCode.value, RangesDelimit]
  · rw [List.cons_append, execAll_setStatusCode]
    have hhead : Response.Declares ((res.setStatusCode .partialContent).addHeader
        (ascii "Content-Type") (ascii "multipart/byteranges" ++ ascii "; " ++
          ascii "boundary=\"" ++ boundary ++ ascii "\"")) .partialContent none :=
      hstatus.addHeader (by decide) (plainEntry (by decide) (multipartType_plain hboundary))
    apply (framed_sized horder (hhead.addLength _) (sendParts_onConnection _ _ _ _ _ _) rfl).congr
    rw [multipartLen_eq_iff]
    simp [hmethod, StatusCode.Bodyless, StatusCode.value, RangesDelimit]

include hsys

theorem handleRangeRequest_framed (h : res.Declares code none) {w w' : W} {req : Request}
    {calls : List Call} (hcalls : handleRangeRequest sys w req = some (w', calls))
    (hmethod : method ≠ some .head) :
    Framed (sys.openFiles w') method (res.execAll sys.order now calls)
      (HandleRangeDelimits sys w req) := by
  unfold handleRangeRequest at hcalls
  unfold HandleRangeDelimits
  dsimp only at hcalls
  by_cases hsize : req.filesize = 0
  · rw [if_pos hsize] at hcalls ⊢
    cases hcalls
    rw [execAll_setStatusCode, execAll_addHeader, execAll_addHeader]
    have hhead : Response.Declares ((res.setStatusCode .ok).addHeader (ascii "Content-Type")
        (sys.getMimeType req.absPath)) .ok none :=
      (h.setStatusCode .ok).addHeader (by decide) (plainEntry (by decide) (hsys.mimeType _))
    apply (framed_sized horder (hhead.addLength 0) onConnection_nil rfl).congr
    simp
  rw [if_neg hsize] at hcalls ⊢
  cases hfind : req.headers.find (ascii "Range") with
  | none =>
      rw [hfind] at hcalls
      cases hcalls
  | some range =>
      rw [hfind] at hcalls
      dsimp only at hcalls ⊢
      rcases parseByteRanges_cases req.filesize range with hparse | hparse | ⟨ranges, hparse⟩
      · rw [hparse] at hcalls ⊢
        dsimp only at hcalls ⊢
        have hpair := Option.some.inj hcalls
        have hfile : Framed (sys.openFiles (sendFile sys w req).1) method
            (res.execAll sys.order now (sendFile sys w req).2) (SendFileDelimits sys w req) :=
          sendFile_framed horder hsys h w req hmethod
        rw [hpair] at hfile
        exact hfile
      · rw [hparse] at hcalls ⊢
        cases hcalls
        rw [execAll_setStatusCode, execAll_addHeader]
        have hhead : Response.Declares ((res.setStatusCode .requestedRangeNotSatisfiable).addHeader
            (ascii "Content-Range") (contentRange (ascii "*") req.filesize))
            .requestedRangeNotSatisfiable none :=
          (h.setStatusCode .requestedRangeNotSatisfiable).addHeader (by decide)
            (plainEntry_of_lineByte (by decide) (anyRange_lineByte req.filesize))
        apply (framed_empty horder hhead (by simp [Call.OnConnection]) rfl).congr
        simp [hmethod, StatusCode.Bodyless, StatusCode.value]
      · rw [hparse] at hcalls ⊢
        dsimp only at hcalls ⊢
        have hboundary : ¬ CRLF <:+: (if ranges.length = 1 then ((sys.openRead w req.absPath).1, [])
            else sys.generateBoundary (sys.openRead w req.absPath).1).2 := by
          split
          · exact not_crlf_nil
          · exact hsys.boundary _
        cases hcalls
        exact sendRangeResponse_framed horder h _ (hsys.mimeType _) _ hboundary _ _ hmethod

omit hsys

/-- The answer to a stored file. One that was there already is answered with a status that has
no body, whatever is in its `Location`. -/
theorem location_framed (h : res.Declares code none) (files : Nat → Bytes) (hasFile : Bool)
    (location : Bytes) (hmethod : method ≠ some .head) :
    FramedWhen (¬ CRLF <:+: location) files method
      (res.execAll sys.order now [.setStatusCode (if hasFile then .noContent else .created),
        .addHeader (ascii "Location") location, .send []]) (hasFile = true) := by
  generalize hnext : (if hasFile then StatusCode.noContent else StatusCode.created) = next
  have hstatus := h.setStatusCode next
  rw [execAll_setStatusCode, execAll_addHeader, execAll_cons]
  obtain ⟨hsent, hhead, -⟩ := send_response sys.order now files
    ((res.setStatusCode next).addHeader (ascii "Location") location) []
  constructor
  · intro hfile
    rw [hfile, if_pos rfl] at hnext
    intro c headers hmem
    have hsend : Output.head c headers ∈ (Response.send sys.order now
        ((res.setStatusCode next).addHeader (ascii "Location") location) []).2 := by
      rcases List.mem_append.mp hmem with hfirst | hnone
      · exact hfirst
      · exact absurd hnone List.not_mem_nil
    have hcode : c = next := ((hhead c headers).mp hsend).1
    rw [hcode, ← hnext]
    exact ⟨fun heq => absurd heq hmethod, Or.inr (Or.inl (Or.inr (Or.inl rfl)))⟩
  · intro hplain hdelimited
    have hentered : Response.Declares ((res.setStatusCode next).addHeader (ascii "Location") location)
        next none := hstatus.addHeader (by decide) (plainEntry (by decide) hplain)
    have hbodyless := (framed_empty horder hentered onConnection_nil rfl).iff.mp hdelimited
    rw [or_iff_right hmethod, ← hnext] at hbodyless
    cases hasFile with
    | true => rfl
    | false => simp [StatusCode.Bodyless, StatusCode.value] at hbodyless
  · exact hsent ▸ ⟨rfl, List.Pairwise.nil, fun _ hmem => absurd hmem List.not_mem_nil, rfl, rfl,
      h.chunked, h.chunkedBuf⟩

theorem updateFile_framed (h : res.Declares code none) {w w' : W} {req : Request}
    {calls : List Call} (hcalls : updateFile sys w req = some (w', calls))
    (hmethod : method ≠ some .head) :
    FramedWhen (∀ host, req.headers.find (ascii "Host") = some host →
        ¬ CRLF <:+: ascii "http://" ++ host ++ req.absPath) (sys.openFiles w') method
      (res.execAll sys.order now calls) (UpdateFileDelimits sys w req) := by
  unfold updateFile at hcalls
  unfold UpdateFileDelimits
  dsimp only at hcalls ⊢
  have herror : Framed (sys.openFiles w') method
      (res.execAll sys.order now [.setStatusCode .internalServerError, .sendErr])
      (method ≠ some .head) := by
    rw [execAll_setStatusCode]
    exact framed_sendErr horder (h.setStatusCode .internalServerError)
  split at hcalls
  · next hfd =>
      cases hcalls
      refine (herror.congr ?_).when _
      simp [hmethod, hfd]
  · next hfd =>
      split at hcalls
      · next hwrite =>
          cases hcalls
          simp only [Bool.not_eq_true'] at hwrite
          refine (herror.congr ?_).when _
          simp [hmethod, hwrite]
      · next hwrite =>
          rw [Bool.not_eq_true, Bool.not_eq_false'] at hwrite
          cases hfind : req.headers.find (ascii "Host") with
          | none =>
              rw [hfind] at hcalls
              cases hcalls
          | some host =>
              rw [hfind] at hcalls
              cases hcalls
              have hframed : FramedWhen _ _ method (res.execAll sys.order now _) _ :=
                location_framed horder h
                  (sys.openFiles (sys.close (sys.writeFile (sys.openTruncate w req.absPath).1
                    (sys.openTruncate w req.absPath).2 req.body).1
                    (sys.openTruncate w req.absPath).2))
                  req.hasFile (ascii "http://" ++ host ++ req.absPath) hmethod
              obtain ⟨henough, hneeded, hunframed⟩ := hframed
              refine ⟨?_, ?_, hunframed⟩
              · intro hcondition
                apply henough
                simpa [hfd, hwrite] using hcondition
              · intro hplain hdelimited
                exact Or.inr (Or.inr (hneeded (hplain host rfl) hdelimited))

theorem deleteFile_framed (h : res.Declares code none) (files : Nat → Bytes) (w : W)
    (req : Request) :
    Framed files method (res.execAll sys.order now (deleteFile sys w req).2) True := by
  unfold deleteFile
  dsimp only
  rw [execAll_setStatusCode]
  apply (framed_empty horder (h.setStatusCode .noContent) onConnection_nil rfl).congr
  simp [StatusCode.Bodyless]

theorem handleConditional_framed (h : res.Declares code none) (files : Nat → Bytes) {req : Request}
    (hcached : req.reqMethod = .get ∨ req.reqMethod = .head)
    (hfailed : req.handleConditional.1 = .failed) :
    Framed files method (res.execAll sys.order now req.handleConditional.2)
      (method ≠ some .head ∨ req.ifNoneMatch.1 ≠ .noHeader ∨
        req.ifModifiedSince.1 ≠ .noHeader) := by
  rcases handleConditional_failed hfailed with ⟨hcalls, hpage⟩ | ⟨hcalls, hpage⟩
  · rw [hcalls, execAll_setStatusCode]
    apply (framed_empty horder (h.setStatusCode .notModified) onConnection_nil rfl).congr
    exact iff_of_true (Or.inr (Or.inr (Or.inr rfl))) (Or.inr hpage)
  · rw [hcalls, execAll_setStatusCode]
    apply (framed_sendErr horder (h.setStatusCode .preconditionFailed)).congr
    rw [or_iff_left (hpage hcached)]

end Files

section Paths

variable {sys : System W} (horder : ∀ headers, (sys.order headers).Perm headers)
  (hsys : sys.Plain) {now : Tm} {res : Response} {code : StatusCode} {server : Server W}

/-- What the file system says about a file is on one line. -/
structure Request.PlainTags (req : Request) : Prop where
  lastModified : ¬ CRLF <:+: req.lastModified
  etag : ¬ CRLF <:+: req.etag

theorem Headers.Unframed.validators {headers : Headers} (h : headers.Unframed) {req : Request}
    (htags : req.PlainTags) :
    Headers.Unframed (req.validators.foldl (fun h entry => h.emplace entry.1 entry.2) headers) := by
  change Headers.Unframed (((headers.emplace (ascii "Last-Modified") req.lastModified).emplace
    (ascii "Accept-Ranges") (ascii "bytes")).emplace (ascii "ETag") req.etag)
  apply Headers.Unframed.emplace _ (by decide) (plainEntry (by decide) htags.etag)
  apply Headers.Unframed.emplace _ (by decide) (plainEntry_of_lineByte (by decide) (by decide))
  exact h.emplace (by decide) (plainEntry (by decide) htags.lastModified)

theorem indexPage_ne_nil : indexPage ≠ [] := by
  simp [indexPage, ascii]

theorem handleFileRouter_declares (hserver : server.LeavesFraming) (h : res.Declares code none)
    (w : W) {headers : Headers} (hheaders : headers.Unframed) (req : Request) :
    ∃ res' : Response, res'.Declares code none ∧ ∀ order now calls,
      res.execAll order now ((server.handleFileRouter w headers req).2 ++ calls) =
        res'.execAll order now calls := by
  unfold Server.handleFileRouter
  cases hhandler : server.fileTable req.absPath with
  | none => exact ⟨res, h, fun _ _ _ => rfl⟩
  | some handler =>
      exact ⟨{ res with headers := (handler w req headers).2 },
        h.setHeaders (hserver.file _ handler hhandler w req headers hheaders), fun _ _ _ => rfl⟩

theorem addValidators_declares (h : res.Declares code none) {req : Request}
    (htags : req.PlainTags) :
    ∃ res' : Response, res'.Declares code none ∧ ∀ order now calls,
      res.execAll order now (req.addValidators ++ calls) = res'.execAll order now calls := by
  refine ⟨((res.addHeader (ascii "Last-Modified") req.lastModified).addHeader
    (ascii "Accept-Ranges") (ascii "bytes")).addHeader (ascii "ETag") req.etag, ?_, ?_⟩
  · apply Response.Declares.addHeader _ (by decide) (plainEntry (by decide) htags.etag)
    apply Response.Declares.addHeader _ (by decide) (plainEntry_of_lineByte (by decide) (by decide))
    exact h.addHeader (by decide) (plainEntry (by decide) htags.lastModified)
  · intro order now calls
    have hcalls : req.addValidators ++ calls =
        .addHeader (ascii "Last-Modified") req.lastModified ::
          .addHeader (ascii "Accept-Ranges") (ascii "bytes") ::
          .addHeader (ascii "ETag") req.etag :: calls := rfl
    rw [hcalls, execAll_addHeader, execAll_addHeader, execAll_addHeader]

theorem Request.PlainTags.ifRange {req : Request} (h : req.PlainTags) : req.ifRange.PlainTags := by
  unfold Request.ifRange
  split
  · exact h
  · split
    · exact h
    · split
      · exact h
      · split
        · exact h
        · exact ⟨h.lastModified, h.etag⟩

private theorem hexadecimal_lineByte (n : Int) : ∀ b ∈ hexadecimal n, LineByte b := by
  intro b hb
  have hdigits : hexadecimal n = hexSize (n % (2 ^ 64 : Int)).toNat := rfl
  rw [hdigits] at hb
  have hhex := List.all_eq_true.mp (hexSize_digits _) b hb
  constructor
  · rintro rfl
    exact absurd hhex (by decide)
  · rintro rfl
    exact absurd hhex (by decide)

include hsys in
theorem statFile_plainTags (server : Server W) (w : W) (req : Request) :
    (server.statFile sys w req).PlainTags where
  lastModified := not_crlf_of_lineByte (formatDate_lineByte _)
  etag := by
    have hquote : LineByte QUOTE := by decide
    have hminus : LineByte MINUS := by decide
    have hsize := decimal_lineByte (sys.getFileSize w req.absPath)
    unfold Server.statFile
    dsimp only
    split
    · intro hin
      have hshape : Http.generateFileEtagBySha1 (sys.hexDigest w req.absPath)
          (sys.getFileSize w req.absPath) = [] ++ QUOTE :: (sys.hexDigest w req.absPath ++
            MINUS :: (decimal (sys.getFileSize w req.absPath) ++ [QUOTE])) := by
        simp [Http.generateFileEtagBySha1]
      rw [hshape] at hin
      rcases crlf_infix_append_cons (by decide) (by decide) hin with hnil | hback
      · exact not_crlf_nil hnil
      · rcases crlf_infix_append_cons (by decide) (by decide) hback with hdigest | hback
        · exact hsys.hexDigest w req.absPath hdigest
        · refine not_crlf_of_lineByte ?_ hback
          simp only [List.forall_mem_append, List.forall_mem_singleton]
          exact ⟨hsize, hquote⟩
    · apply not_crlf_of_lineByte
      simp only [generateFileEtag, List.forall_mem_append, List.forall_mem_singleton]
      exact ⟨⟨⟨⟨hquote, hexadecimal_lineByte _⟩, hminus⟩, hsize⟩, hquote⟩

include horder hsys

private theorem serveFile_framed (hserver : server.LeavesFraming) (h : res.Declares code none)
    {w w' : W}
    {headers : Headers} (hheaders : headers.Unframed) {req req' : Request} {calls : List Call}
    (htags : req.PlainTags) (hmethod : req.reqMethod = .get ∨ req.reqMethod = .head)
    (hcalls : server.serveFile sys w headers req = some (w', req', calls)) :
    Framed (sys.openFiles w') (some req.reqMethod) (res.execAll sys.order now calls)
      (server.ServeFileDelimits sys w headers req) := by
  unfold Server.serveFile at hcalls
  unfold Server.ServeFileDelimits
  dsimp only at hcalls ⊢
  have hkept := ifRange_reqMethod req
  have hplain := htags.ifRange
  generalize req.ifRange = ranged at hcalls hkept hplain ⊢
  rw [← hkept] at hmethod ⊢
  obtain ⟨start, hstart, hvalidated⟩ := addValidators_declares h hplain
  have hentered := hheaders.validators hplain
  generalize ranged.validators.foldl (fun h entry => h.emplace entry.1 entry.2) headers =
    entered at hcalls hentered ⊢
  split at hcalls
  · next hfailed =>
      cases hcalls
      rw [hvalidated]
      apply (handleConditional_framed horder hstart _ hmethod hfailed).congr
      rcases hmethod with hget | hhead
      · rw [hget]
        simp [hfailed]
      · rw [hhead]
        simp [hfailed]
  next hpassed =>
  rcases hmethod with hget | hhead
  · rw [hget] at hcalls ⊢
    dsimp only at hcalls ⊢
    obtain ⟨edited, hedited, hedit⟩ := handleFileRouter_declares hserver hstart w hentered
      ranged
    rw [or_iff_right hpassed]
    split at hcalls
    · next hrange =>
        rw [if_pos hrange]
        cases hanswer : handleRangeRequest sys (server.handleFileRouter w entered ranged).1
            ranged with
        | none =>
            rw [hanswer] at hcalls
            cases hcalls
        | some answer =>
            rw [hanswer] at hcalls
            cases hcalls
            rw [List.append_assoc, hvalidated, hedit]
            exact handleRangeRequest_framed horder hsys hedited hanswer (by simp)
    · next hrange =>
        rw [if_neg hrange]
        cases hcalls
        rw [List.append_assoc, hvalidated, hedit]
        exact sendFile_framed horder hsys hedited _ _ (by simp)
  · rw [hhead] at hcalls ⊢
    cases hcalls
    rw [hvalidated, execAll_setStatusCode, execAll_addHeader]
    apply (framed_sized horder ((hstart.setStatusCode .ok).addLength _) onConnection_nil rfl).congr
    exact iff_of_true ⟨fun _ => rfl, Or.inl rfl⟩ (Or.inl hpassed)

omit hsys

private theorem missingFile_framed (h : res.Declares code none) (files : Nat → Bytes)
    {method : Option Method} (rootIndex : Prop) [Decidable rootIndex] :
    Framed files method
      (res.execAll sys.order now (if rootIndex then [.setStatusCode .ok, .send indexPage]
        else [.setStatusCode .notFound, .sendErr]))
      (method ≠ some .head) := by
  split
  · rw [execAll_setStatusCode]
    exact framed_content horder (h.setStatusCode .ok) indexPage_ne_nil
  · rw [execAll_setStatusCode]
    exact framed_sendErr horder (h.setStatusCode .notFound)

include hsys

theorem handleStaticFileRequest_framed (hserver : server.LeavesFraming)
    (h : res.Declares code none) {w w' : W} {headers : Headers} (hheaders : headers.Unframed)
    {req req' : Request} {calls : List Call}
    (hmethod : req.reqMethod = .get ∨ req.reqMethod = .head ∨ req.reqMethod = .put ∨
      req.reqMethod = .delete)
    (hcalls : server.handleStaticFileRequest sys w headers req = some (w', req', calls)) :
    FramedWhen (server.PlainLocation req) (sys.openFiles w') (some req.reqMethod)
      (res.execAll sys.order now calls) (server.StaticDelimits sys w headers req) := by
  have hserve : ∀ file : Request, (file.reqMethod = .get ∨ file.reqMethod = .head) →
      server.serveFile sys w headers (server.statFile sys w file) = some (w', req', calls) →
      Framed (sys.openFiles w') (some file.reqMethod) (res.execAll sys.order now calls)
        (server.ServeFileDelimits sys w headers (server.statFile sys w file)) :=
    fun file hread hserved => serveFile_framed horder hsys hserver h hheaders
      (statFile_plainTags hsys server w file) hread hserved
  have hmissing : (!false) = true := rfl
  unfold Server.handleStaticFileRequest at hcalls
  unfold Server.StaticDelimits Server.PlainLocation
  dsimp only at hcalls ⊢
  generalize server.baseDir ++ (if req.absPath = ascii "/" then ascii "/index.html"
    else req.absPath) = path at hcalls ⊢
  rcases hmethod with hget | hhead | hput | hdelete
  · rw [hget] at hcalls ⊢
    dsimp only at hcalls ⊢
    cases hfile : sys.isRegularFile w path with
    | false =>
        rw [hfile, if_pos hmissing] at hcalls
        rw [if_pos hmissing]
        cases hcalls
        refine ((missingFile_framed horder h (sys.openFiles w) (req.absPath = ascii "/")).congr ?_).when _
        simp
    | true =>
        rw [hfile, if_neg (by simp)] at hcalls
        rw [if_neg (by simp)]
        exact (hserve _ (Or.inl rfl) hcalls).when _
  · rw [hhead] at hcalls ⊢
    dsimp only at hcalls ⊢
    cases hfile : sys.isRegularFile w path with
    | false =>
        rw [hfile, if_pos hmissing] at hcalls
        rw [if_pos hmissing]
        cases hcalls
        refine ((missingFile_framed horder h (sys.openFiles w) (req.absPath = ascii "/")).congr ?_).when _
        simp
    | true =>
        rw [hfile, if_neg (by simp)] at hcalls
        rw [if_neg (by simp)]
        exact (hserve _ (Or.inr rfl) hcalls).when _
  · rw [hput] at hcalls ⊢
    dsimp only at hcalls ⊢
    obtain ⟨answer, hanswer, heq⟩ := Option.map_eq_some_iff.mp hcalls
    cases heq
    have hframed : FramedWhen _ _ (some .put) (res.execAll sys.order now _) _ :=
      updateFile_framed horder h hanswer (by simp)
    obtain ⟨henough, hneeded, hunframed⟩ := hframed
    exact ⟨henough, fun hplain => hneeded (hplain rfl), hunframed⟩
  · rw [hdelete] at hcalls ⊢
    cases hcalls
    exact (deleteFile_framed horder h _ _ _).when _

omit horder hsys

theorem handleUserRouter_cases {w w' : W} {req : Request} {routed : Option (List Call)}
    (h : server.handleUserRouter w req = some (w', routed)) :
    (w' = w ∧ routed = none ∧ server.userHandler req = none) ∨
      ∃ handler, server.userHandler req = some handler ∧ w' = (handler w req).1 ∧
        routed = some ((handler w req).2.map .user) := by
  unfold Server.handleUserRouter at h
  unfold Server.userHandler
  cases htable : server.router req.reqMethod with
  | none =>
      rw [htable] at h
      cases h
  | some table =>
      rw [htable] at h
      dsimp only at h
      rw [Option.bind_some]
      cases hhandler : table req.absPath with
      | none =>
          rw [hhandler] at h
          cases h
          exact Or.inl ⟨rfl, rfl, rfl⟩
      | some handler =>
          rw [hhandler] at h
          cases h
          exact Or.inr ⟨handler, rfl, rfl, rfl⟩

include horder

private theorem userHandler_framed (hserver : server.LeavesFraming) (h : res.Declares code none)
    (files : Nat → Bytes) (w : W) {req : Request} {handler : ServerHandler W}
    (hhandler : server.userHandler req = some handler) {method : Option Method}
    (hmethod : method ≠ some .head) :
    Framed files method (res.execAll sys.order now ((handler w req).2.map .user))
      (UserDelimits code (handler w req).2) := by
  obtain ⟨table, htable, hfound⟩ := Option.bind_eq_some_iff.mp hhandler
  obtain ⟨⟨p, hafter, hend⟩, hfree, htypes⟩ := hserver.user _ table _ handler htable hfound w req
  exact framed_user horder hafter hend hfree htypes h hmethod

private theorem notImplemented_framed (h : res.Declares code none) (files : Nat → Bytes)
    {method : Option Method} (hmethod : method ≠ some .head) :
    Framed files method
      (res.execAll sys.order now [.setStatusCode .notImplemented, .sendErr]) True := by
  rw [execAll_setStatusCode]
  apply (framed_sendErr horder (h.setStatusCode .notImplemented)).congr
  exact iff_of_true hmethod trivial

include hsys in
/-- The switch over the method, on the response object with its `Connection`
header. -/
theorem dispatch_framed (hserver : server.LeavesFraming) (hres : res.Unframed) {w w' : W}
    {req req' : Request} {calls : List Call}
    (hcalls : server.dispatch sys w (res.headers.emplace (ascii "Connection") req.connectionHeader)
      req = some (w', req', calls)) :
    FramedWhen (server.PlainLocation req) (sys.openFiles w') (some req.reqMethod)
      ((res.addHeader (ascii "Connection") req.connectionHeader).execAll sys.order now calls)
      (server.Delimits sys res w req) := by
  have hconnection : PlainEntry (ascii "Connection") req.connectionHeader := by
    apply plainEntry_of_lineByte (by decide)
    unfold Request.connectionHeader
    split
    · decide
    · decide
  have hstart : (res.addHeader (ascii "Connection") req.connectionHeader).Declares
      res.statusCode none := Response.Declares.addHeader hres (by decide) hconnection
  have hheaders : Headers.Unframed (res.headers.emplace (ascii "Connection")
      req.connectionHeader) := hstart.unframed.headers
  have hstatic : (req.reqMethod = .get ∨ req.reqMethod = .head ∨ req.reqMethod = .put ∨
        req.reqMethod = .delete) →
      server.handleStaticFileRequest sys w
        (res.headers.emplace (ascii "Connection") req.connectionHeader) req =
          some (w', req', calls) →
      FramedWhen (server.PlainLocation req) (sys.openFiles w') (some req.reqMethod)
        ((res.addHeader (ascii "Connection") req.connectionHeader).execAll sys.order now calls)
        (server.StaticDelimits sys w
          (res.headers.emplace (ascii "Connection") req.connectionHeader) req) :=
    handleStaticFileRequest_framed horder hsys hserver hstart hheaders
  unfold Server.dispatch at hcalls
  unfold Server.Delimits
  dsimp only
  cases hmethod : req.reqMethod with
  | get =>
      rw [hmethod] at hcalls hstatic
      dsimp only at hcalls ⊢
      cases hrouter : server.handleUserRouter w req with
      | none =>
          rw [hrouter] at hcalls
          cases hcalls
      | some routed =>
          obtain ⟨world, answer⟩ := routed
          rw [hrouter] at hcalls
          rcases handleUserRouter_cases hrouter with
            ⟨rfl, rfl, hnone⟩ | ⟨handler, hhandler, rfl, rfl⟩
          · rw [hnone]
            exact hstatic (Or.inl rfl) hcalls
          · rw [hhandler]
            cases hcalls
            exact (userHandler_framed horder hserver hstart _ w hhandler (by simp)).when _
  | post =>
      rw [hmethod] at hcalls
      dsimp only at hcalls ⊢
      obtain ⟨⟨world, answer⟩, hrouter, heq⟩ := Option.map_eq_some_iff.mp hcalls
      cases heq
      rcases handleUserRouter_cases hrouter with
        ⟨rfl, rfl, hnone⟩ | ⟨handler, hhandler, rfl, rfl⟩
      · -- no response at all
        rw [hnone, Option.getD_none]
        exact (framed_silent hstart.unframed).when _
      · rw [hhandler, Option.getD_some]
        exact (userHandler_framed horder hserver hstart _ w hhandler (by simp)).when _
  | head =>
      rw [hmethod] at hcalls hstatic
      exact hstatic (Or.inr (Or.inl rfl)) hcalls
  | put =>
      rw [hmethod] at hcalls hstatic
      exact hstatic (Or.inr (Or.inr (Or.inl rfl))) hcalls
  | delete =>
      rw [hmethod] at hcalls hstatic
      exact hstatic (Or.inr (Or.inr (Or.inr rfl))) hcalls
  | options =>
      rw [hmethod] at hcalls
      cases hcalls
      exact (notImplemented_framed horder hstart _ (by simp)).when _
  | trace =>
      rw [hmethod] at hcalls
      cases hcalls
      exact (notImplemented_framed horder hstart _ (by simp)).when _
  | connect =>
      rw [hmethod] at hcalls
      cases hcalls
      exact (notImplemented_framed horder hstart _ (by simp)).when _

include hsys in
theorem answer_framed (hserver : server.LeavesFraming) (hres : res.Unframed) {w w' : W}
    {req req' : Request} {res' : Response} {out : List Output}
    (hanswer : server.answer sys res w req = some (res', w', req', out)) :
    FramedWhen (server.PlainLocation req) (sys.openFiles w') (some req.reqMethod) (res', out)
      (server.Delimits sys res w req) := by
  unfold Server.answer Server.processRequest at hanswer
  dsimp only at hanswer
  cases hdispatch : server.dispatch sys w
      (res.headers.emplace (ascii "Connection") req.connectionHeader) req with
  | none =>
      rw [hdispatch] at hanswer
      cases hanswer
  | some p =>
      obtain ⟨world, after, calls⟩ := p
      rw [hdispatch] at hanswer
      cases hanswer
      have hframed : FramedWhen (server.PlainLocation req) (sys.openFiles w') (some req.reqMethod)
          ((res.addHeader (ascii "Connection") req.connectionHeader).execAll sys.order
            (sys.now w) calls) (server.Delimits sys res w req) :=
        dispatch_framed horder hsys hserver hres hdispatch
      rw [List.cons_append, execAll_addHeader]
      cases req.keepalive with
      | true =>
          rw [if_pos rfl, List.append_nil]
          exact hframed
      | false =>
          rw [if_neg (by simp)]
          exact hframed.close

end Paths

end Angel.Http
