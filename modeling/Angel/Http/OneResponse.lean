import Angel.Http.Server

/-!
One response per request. The calls of a request pass through the phases of a
response: it is prepared, sent at once or in chunks, and then left alone. A
request whose calls pass through all of them sends one header block and leaves
the shared response object blank, so the next request finds nothing of it.
-/

namespace Angel.Http

open Util Lib

/-- Where the calls of a request stand; `status` tells that the status has been
set since the last response. -/
inductive Phase where
  | preparing (status : Bool)
  | chunking
  | sent
  deriving DecidableEq, Repr

/-- The calls a user handler may make in a phase. A header that is added behind
the header block would stay in the map. -/
def Phase.nextUser : Phase → UserCall → Option Phase
  | .preparing _, .setStatusCode _ => some (.preparing true)
  | .preparing status, .addHeader _ _ => some (.preparing status)
  | .preparing true, .setContent _ _ => some .sent
  | .preparing true, .sendChunk _ => some .chunking
  | .chunking, .setStatusCode _ => some .chunking
  | .chunking, .sendChunk _ => some .chunking
  | .chunking, .sendDone => some .sent
  | .sent, .setStatusCode _ => some .sent
  | _, _ => none

def Phase.next : Phase → Call → Option Phase
  | p, .user call => p.nextUser call
  | .preparing true, .send _ => some .sent
  | .preparing true, .sendErr => some .sent
  | .preparing status, .setHeaders _ => some (.preparing status)
  | .sent, .connSend _ => some .sent
  | .sent, .connSendFile _ _ _ => some .sent
  | .sent, .connSetSendCompleteHandler _ => some .sent
  | .sent, .connClose => some .sent
  | _, _ => none

/-- The phase after some calls. -/
def Phase.after (p : Phase) (calls : List Call) : Option Phase := calls.foldlM Phase.next p

@[simp] theorem Phase.after_nil (p : Phase) : p.after [] = some p := rfl

theorem Phase.after_cons (p : Phase) (call : Call) (calls : List Call) :
    p.after (call :: calls) = (p.next call).bind fun q => q.after calls := rfl

theorem Phase.after_append (p : Phase) (first second : List Call) :
    p.after (first ++ second) = (p.after first).bind fun q => q.after second :=
  List.foldlM_append

/-- A handler sets a status, adds its headers and sends one response: one
content, or chunks and their end. -/
def SendsOnce (calls : List UserCall) : Prop :=
  (Phase.preparing false).after (calls.map .user) = some .sent

instance (calls : List UserCall) : Decidable (SendsOnce calls) :=
  inferInstanceAs (Decidable (_ = _))

/-- The header blocks written up to a phase. -/
def Phase.heads : Phase → Nat
  | .preparing _ => 0
  | .chunking => 1
  | .sent => 1

/-- Nothing of an earlier response is in the object but its status. -/
structure Response.Blank (res : Response) : Prop where
  headers : res.headers = []
  chunked : res.chunked = false
  chunkedBuf : res.chunkedBuf = []

/-- Two response objects at the same point of one response. Until the status is
set they may differ in it. -/
def Phase.Alike : Phase → Response → Response → Prop
  | .preparing false, res, res' => res'.headers = res.headers ∧
      res.chunked = false ∧ res'.chunked = false ∧ res.chunkedBuf = [] ∧ res'.chunkedBuf = []
  | .preparing true, res, res' => res' = res ∧ res.chunked = false ∧ res.chunkedBuf = []
  | .chunking, res, res' => res' = res ∧ res.headers = [] ∧ res.chunked = true
  | .sent, res, res' => res' = res ∧ res.Blank

section Exec

variable (order : Headers → Headers) (now : Tm)

theorem send_blank {res : Response} (hchunked : res.chunked = false)
    (hbuf : res.chunkedBuf = []) (body : Bytes) : (res.send order now body).1.Blank := by
  have hsent : ∀ r : Response, r.chunked = false → r.chunkedBuf = [] → r.headerSent.Blank :=
    fun _ h h' => ⟨rfl, h, h'⟩
  unfold Response.send
  dsimp only
  split <;> split <;> exact hsent _ hchunked hbuf

theorem send_heads (res : Response) (body : Bytes) :
    (sentHeads (res.send order now body).2).length = 1 := by
  unfold Response.send
  dsimp only
  split <;> split <;> rfl

theorem sentHeads_append (first second : List Output) :
    sentHeads (first ++ second) = sentHeads first ++ sentHeads second :=
  List.filterMap_append

theorem sendChunk_frame (res : Response) (chunk : Bytes) :
    (res.sendChunk order now chunk).1.headers = (res.openChunked order now chunk).1.headers ∧
      (res.sendChunk order now chunk).1.chunked = (res.openChunked order now chunk).1.chunked ∧
      sentHeads (res.sendChunk order now chunk).2 =
        sentHeads (res.openChunked order now chunk).2 := by
  unfold Response.sendChunk
  obtain ⟨r, out⟩ := res.openChunked order now chunk
  dsimp only
  split
  · refine ⟨rfl, rfl, ?_⟩
    rw [sentHeads_append]
    exact List.append_nil _
  · split
    · refine ⟨rfl, rfl, ?_⟩
      rw [sentHeads_append]
      exact List.append_nil _
    · exact ⟨rfl, rfl, rfl⟩

theorem sendChunk_first {res : Response} (hchunked : res.chunked = false) (chunk : Bytes) :
    (res.sendChunk order now chunk).1.headers = [] ∧
      (res.sendChunk order now chunk).1.chunked = true ∧
      (sentHeads (res.sendChunk order now chunk).2).length = 1 := by
  obtain ⟨hheaders, hflag, hheads⟩ := sendChunk_frame order now res chunk
  rw [hheaders, hflag, hheads, Response.openChunked, hchunked, if_neg (by simp)]
  dsimp only
  split
  · exact ⟨rfl, rfl, rfl⟩
  · exact ⟨rfl, rfl, rfl⟩

theorem sendChunk_next {res : Response} (hempty : res.headers = [])
    (hchunked : res.chunked = true) (chunk : Bytes) :
    (res.sendChunk order now chunk).1.headers = [] ∧
      (res.sendChunk order now chunk).1.chunked = true ∧
      (sentHeads (res.sendChunk order now chunk).2).length = 0 := by
  obtain ⟨hheaders, hflag, hheads⟩ := sendChunk_frame order now res chunk
  rw [hheaders, hflag, hheads, Response.openChunked, if_pos hchunked]
  exact ⟨hempty, hchunked, rfl⟩

/-- The outcome of one call on two objects. -/
structure ExecAlike (p p' : Phase) (r r' : Response × List Output) : Prop where
  alike : p'.Alike r.1 r'.1
  out : r'.2 = r.2
  heads : p.heads + (sentHeads r.2).length = p'.heads

private theorem execUser_alike {p p' : Phase} {call : UserCall} (hnext : p.nextUser call = some p')
    {res res' : Response} (h : p.Alike res res') :
    ExecAlike p p' (res.execUser order now call) (res'.execUser order now call) := by
  cases p with
  | preparing status =>
      cases status with
      | false =>
          obtain ⟨hheaders, hchunked, hchunked', hbuf, hbuf'⟩ := h
          cases call with
          | setStatusCode code =>
              cases hnext
              refine ⟨⟨?_, hchunked, hbuf⟩, rfl, rfl⟩
              obtain ⟨status, headers, chunked, chunkedBuf⟩ := res
              obtain ⟨status', headers', chunked', chunkedBuf'⟩ := res'
              dsimp only at hheaders hchunked hchunked' hbuf hbuf'
              subst hheaders hchunked hchunked' hbuf hbuf'
              rfl
          | addHeader field value =>
              cases hnext
              refine ⟨⟨?_, hchunked, hchunked', hbuf, hbuf'⟩, rfl, rfl⟩
              change res'.headers.emplace field value = res.headers.emplace field value
              rw [hheaders]
          | setContent body type => cases hnext
          | sendChunk chunk => cases hnext
          | sendDone => cases hnext
      | true =>
          obtain ⟨rfl, hchunked, hbuf⟩ := h
          cases call with
          | setStatusCode code =>
              cases hnext
              exact ⟨⟨rfl, hchunked, hbuf⟩, rfl, rfl⟩
          | addHeader field value =>
              cases hnext
              exact ⟨⟨rfl, hchunked, hbuf⟩, rfl, rfl⟩
          | setContent body type =>
              cases hnext
              refine ⟨⟨rfl, ?_⟩, rfl, ?_⟩
              · apply send_blank
                · exact hchunked
                · exact hbuf
              · exact (Nat.zero_add _).trans (send_heads order now _ body)
          | sendChunk chunk =>
              cases hnext
              obtain ⟨hheaders, hflag, hheads⟩ := sendChunk_first order now hchunked chunk
              exact ⟨⟨rfl, hheaders, hflag⟩, rfl, (Nat.zero_add _).trans hheads⟩
          | sendDone => cases hnext
  | chunking =>
      obtain ⟨rfl, hheaders, hchunked⟩ := h
      cases call with
      | setStatusCode code =>
          cases hnext
          exact ⟨⟨rfl, hheaders, hchunked⟩, rfl, rfl⟩
      | sendChunk chunk =>
          cases hnext
          obtain ⟨hheaders', hflag, hheads⟩ := sendChunk_next order now hheaders hchunked chunk
          refine ⟨⟨rfl, hheaders', hflag⟩, rfl, ?_⟩
          exact congrArg (1 + ·) hheads
      | sendDone =>
          cases hnext
          exact ⟨⟨rfl, hheaders, rfl, rfl⟩, rfl, rfl⟩
      | addHeader field value => cases hnext
      | setContent body type => cases hnext
  | sent =>
      obtain ⟨rfl, hblank⟩ := h
      cases call with
      | setStatusCode code =>
          cases hnext
          exact ⟨⟨rfl, hblank.headers, hblank.chunked, hblank.chunkedBuf⟩, rfl, rfl⟩
      | addHeader field value => cases hnext
      | setContent body type => cases hnext
      | sendChunk chunk => cases hnext
      | sendDone => cases hnext

private theorem exec_alike {p p' : Phase} {call : Call} (hnext : p.next call = some p')
    {res res' : Response} (h : p.Alike res res') :
    ExecAlike p p' (res.exec order now call) (res'.exec order now call) := by
  cases call with
  | user call => exact execUser_alike order now hnext h
  | send body =>
      cases p with
      | preparing status =>
          cases status with
          | false => cases hnext
          | true =>
              cases hnext
              obtain ⟨rfl, hchunked, hbuf⟩ := h
              exact ⟨⟨rfl, send_blank order now hchunked hbuf body⟩, rfl,
                (Nat.zero_add _).trans (send_heads order now _ body)⟩
      | chunking => cases hnext
      | sent => cases hnext
  | sendErr =>
      cases p with
      | preparing status =>
          cases status with
          | false => cases hnext
          | true =>
              cases hnext
              obtain ⟨rfl, hchunked, hbuf⟩ := h
              refine ⟨⟨rfl, ?_⟩, rfl, (Nat.zero_add _).trans (send_heads order now _ _)⟩
              apply send_blank
              · exact hchunked
              · exact hbuf
      | chunking => cases hnext
      | sent => cases hnext
  | setHeaders headers =>
      cases p with
      | preparing status =>
          cases hnext
          cases status with
          | false =>
              obtain ⟨_, hchunked, hchunked', hbuf, hbuf'⟩ := h
              exact ⟨⟨rfl, hchunked, hchunked', hbuf, hbuf'⟩, rfl, rfl⟩
          | true =>
              obtain ⟨rfl, hchunked, hbuf⟩ := h
              exact ⟨⟨rfl, hchunked, hbuf⟩, rfl, rfl⟩
      | chunking => cases hnext
      | sent => cases hnext
  | connSend bytes =>
      cases p with
      | sent => cases hnext; exact ⟨h, rfl, rfl⟩
      | preparing status => cases hnext
      | chunking => cases hnext
  | connSendFile fd offset count =>
      cases p with
      | sent => cases hnext; exact ⟨h, rfl, rfl⟩
      | preparing status => cases hnext
      | chunking => cases hnext
  | connSetSendCompleteHandler fd =>
      cases p with
      | sent => cases hnext; exact ⟨h, rfl, rfl⟩
      | preparing status => cases hnext
      | chunking => cases hnext
  | connClose =>
      cases p with
      | sent => cases hnext; exact ⟨h, rfl, rfl⟩
      | preparing status => cases hnext
      | chunking => cases hnext

theorem execAll_alike {p p' : Phase} {calls : List Call} (hafter : p.after calls = some p')
    {res res' : Response} (h : p.Alike res res') :
    ExecAlike p p' (res.execAll order now calls) (res'.execAll order now calls) := by
  induction calls generalizing p res res' with
  | nil =>
      cases hafter
      exact ⟨h, rfl, rfl⟩
  | cons call calls ih =>
      rw [Phase.after_cons] at hafter
      obtain ⟨q, hnext, hrest⟩ := Option.bind_eq_some_iff.mp hafter
      have hfirst := exec_alike order now hnext h
      have hmore := ih hrest hfirst.alike
      rw [execAll_cons, execAll_cons]
      refine ⟨hmore.alike, ?_, ?_⟩
      · dsimp only
        rw [hfirst.out, hmore.out]
      · dsimp only
        rw [sentHeads_append, List.length_append, ← Nat.add_assoc, hfirst.heads]
        exact hmore.heads

end Exec

section Paths

variable {W : Type} (sys : System W) (server : Server W)

theorem addValidators_after (req : Request) (status : Bool) :
    (Phase.preparing status).after req.addValidators = some (.preparing status) := rfl

theorem ifNoneMatch_failed {req : Request} (h : req.ifNoneMatch.1 = .failed) :
    req.ifNoneMatch.2 =
      if req.reqMethod = .get ∨ req.reqMethod = .head then [.setStatusCode .notModified, .send []]
      else [.setStatusCode .preconditionFailed, .sendErr] := by
  unfold Request.ifNoneMatch at h ⊢
  cases hfind : req.headers.find (ascii "If-None-Match") with
  | none => simp [hfind] at h
  | some value =>
      rw [hfind] at h
      dsimp only at h ⊢
      generalize (if req.reqMethod = .get ∨ req.reqMethod = .head then weakEtagEqual
        else strongEtagEqual) = etagEqual at h ⊢
      split at h
      · next hmatch => rw [if_pos hmatch]
      · cases h

theorem ifModifiedSince_failed {req : Request} (h : req.ifModifiedSince.1 = .failed) :
    req.ifModifiedSince.2 = [.setStatusCode .notModified, .send []] := by
  unfold Request.ifModifiedSince at h ⊢
  cases hfind : req.headers.find (ascii "If-Modified-Since") with
  | none => simp [hfind] at h
  | some value =>
      rw [hfind] at h
      dsimp only at h ⊢
      split at h
      · cases h
      · next hmatch => rw [if_neg hmatch]

private theorem ifMatch_failed {req : Request} (h : req.ifMatch.1 = .failed) :
    req.ifMatch.2 = [.setStatusCode .preconditionFailed, .sendErr] := by
  unfold Request.ifMatch at h ⊢
  cases hfind : req.headers.find (ascii "If-Match") with
  | none => simp [hfind] at h
  | some value =>
      rw [hfind] at h
      dsimp only at h ⊢
      split at h
      · cases h
      · next hany =>
          split at h
          · cases h
          · next hmatch => rw [if_neg hany, if_neg hmatch]

private theorem ifUnmodifiedSince_failed {req : Request} (h : req.ifUnmodifiedSince.1 = .failed) :
    req.ifUnmodifiedSince.2 = [.setStatusCode .preconditionFailed, .sendErr] := by
  unfold Request.ifUnmodifiedSince at h ⊢
  cases hfind : req.headers.find (ascii "If-Unmodified-Since") with
  | none => simp [hfind] at h
  | some value =>
      rw [hfind] at h
      dsimp only at h ⊢
      split at h
      · cases h
      · next hmatch => rw [if_neg hmatch]

/-- `GET` and `HEAD` are answered with 304 where one of the first two headers
fails, with 412 where one of the others does. -/
theorem handleConditional_failed {req : Request} (h : req.handleConditional.1 = .failed) :
    (req.handleConditional.2 = [.setStatusCode .notModified, .send []] ∧
      (req.ifNoneMatch.1 ≠ .noHeader ∨ req.ifModifiedSince.1 ≠ .noHeader)) ∨
    (req.handleConditional.2 = [.setStatusCode .preconditionFailed, .sendErr] ∧
      (req.reqMethod = .get ∨ req.reqMethod = .head →
        ¬ (req.ifNoneMatch.1 ≠ .noHeader ∨ req.ifModifiedSince.1 ≠ .noHeader))) := by
  unfold Request.handleConditional at h ⊢
  by_cases hnone : req.ifNoneMatch.1 ≠ .noHeader
  · rw [if_pos hnone] at h ⊢
    have hcalls := ifNoneMatch_failed h
    split at hcalls
    · exact Or.inl ⟨hcalls, Or.inl hnone⟩
    · next hcached => exact Or.inr ⟨hcalls, fun hmethod => absurd hmethod hcached⟩
  rw [if_neg hnone] at h ⊢
  by_cases hmodified : req.ifModifiedSince.1 ≠ .noHeader
  · rw [if_pos hmodified] at h ⊢
    exact Or.inl ⟨ifModifiedSince_failed h, Or.inr hmodified⟩
  rw [if_neg hmodified] at h ⊢
  have hneither : ¬ (req.ifNoneMatch.1 ≠ .noHeader ∨ req.ifModifiedSince.1 ≠ .noHeader) :=
    not_or.mpr ⟨hnone, hmodified⟩
  by_cases hmatch : req.ifMatch.1 ≠ .noHeader
  · rw [if_pos hmatch] at h ⊢
    exact Or.inr ⟨ifMatch_failed h, fun _ => hneither⟩
  · rw [if_neg hmatch] at h ⊢
    exact Or.inr ⟨ifUnmodifiedSince_failed h, fun _ => hneither⟩

theorem handleConditional_after {req : Request} (h : req.handleConditional.1 = .failed)
    (status : Bool) : (Phase.preparing status).after req.handleConditional.2 = some .sent := by
  rcases handleConditional_failed h with ⟨hcalls, -⟩ | ⟨hcalls, -⟩
  · rw [hcalls]
    rfl
  · rw [hcalls]
    rfl

theorem sendFile_after (w : W) (req : Request) (status : Bool) :
    (Phase.preparing status).after (sendFile sys w req).2 = some .sent := by
  unfold sendFile
  dsimp only
  split
  · rfl
  · rfl

private theorem sendParts_after (mimeType : Bytes) (filesize : Nat) (boundary : Bytes) (fd : Int)
    (buf : Bytes) (ranges : List ByteRange) :
    Phase.sent.after (sendParts mimeType filesize boundary fd buf ranges) = some .sent := by
  induction ranges generalizing buf with
  | nil => rfl
  | cons range ranges ih => exact ih CRLF

theorem sendRangeResponse_after (mimeType : Bytes) (filesize : Nat) (boundary : Bytes) (fd : Int)
    (ranges : List ByteRange) (status : Bool) :
    (Phase.preparing status).after (sendRangeResponse mimeType filesize boundary fd ranges) =
      some .sent := by
  unfold sendRangeResponse
  split
  · rfl
  · exact sendParts_after mimeType filesize boundary fd [] ranges

/-- A path of the server that returns, with calls that pass through all phases
of a response. -/
def Answers (r : Option (W × Request × List Call)) : Prop :=
  ∃ w req calls, r = some (w, req, calls) ∧ (Phase.preparing false).after calls = some .sent

theorem exists_of_count {headers : Headers} {field : Bytes} (h : headers.count field = true) :
    ∃ value, headers.find field = some value :=
  Option.isSome_iff_exists.mp h

theorem handleRangeRequest_after (w : W) {req : Request}
    (hrange : req.headers.count (ascii "Range") = true) (status : Bool) :
    ∃ w' calls, handleRangeRequest sys w req = some (w', calls) ∧
      (Phase.preparing status).after calls = some .sent := by
  obtain ⟨range, hfind⟩ := exists_of_count hrange
  unfold handleRangeRequest
  dsimp only
  split
  · exact ⟨_, _, rfl, rfl⟩
  · rw [hfind]
    dsimp only
    rcases parseByteRanges_cases req.filesize range with hparse | hparse | ⟨ranges, hparse⟩
    · rw [hparse]
      exact ⟨_, _, rfl, sendFile_after sys w req status⟩
    · rw [hparse]
      exact ⟨_, _, rfl, rfl⟩
    · rw [hparse]
      exact ⟨_, _, rfl, sendRangeResponse_after _ _ _ _ _ status⟩

theorem updateFile_after (w : W) {req : Request}
    (hhost : req.headers.count (ascii "Host") = true) (status : Bool) :
    ∃ w' calls, updateFile sys w req = some (w', calls) ∧
      (Phase.preparing status).after calls = some .sent := by
  obtain ⟨host, hfind⟩ := exists_of_count hhost
  unfold updateFile
  dsimp only
  split
  · exact ⟨_, _, rfl, rfl⟩
  · split
    · exact ⟨_, _, rfl, rfl⟩
    · rw [hfind]
      exact ⟨_, _, rfl, rfl⟩

private theorem handleFileRouter_after (w : W) (headers : Headers) (req : Request) (status : Bool) :
    (Phase.preparing status).after (server.handleFileRouter w headers req).2 =
      some (.preparing status) := by
  unfold Server.handleFileRouter
  split
  · rfl
  · rfl

theorem ifRange_reqMethod (req : Request) : req.ifRange.reqMethod = req.reqMethod := by
  unfold Request.ifRange
  split
  · rfl
  · split
    · rfl
    · split
      · rfl
      · split <;> rfl

private theorem serveFile_answers (w : W) (headers : Headers) {req : Request}
    (hmethod : req.reqMethod = .get ∨ req.reqMethod = .head) :
    Answers (server.serveFile sys w headers req) := by
  have hvalidated : ∀ (r : Request) (calls : List Call),
      (Phase.preparing false).after calls = some .sent →
      (Phase.preparing false).after (r.addValidators ++ calls) = some .sent := by
    intro r calls hcalls
    rw [Phase.after_append, addValidators_after]
    exact hcalls
  unfold Server.serveFile
  dsimp only
  split
  · next hfailed => exact ⟨_, _, _, rfl, hvalidated _ _ (handleConditional_after hfailed false)⟩
  rcases hmethod with hget | hhead
  · rw [ifRange_reqMethod, hget]
    dsimp only
    generalize hheaders : req.ifRange.validators.foldl
      (fun h entry => Headers.emplace h entry.1 entry.2) headers = entered
    have hedited : ∀ calls, (Phase.preparing false).after calls = some .sent →
        (Phase.preparing false).after (req.ifRange.addValidators ++
          (server.handleFileRouter w entered req.ifRange).2 ++ calls) = some .sent := by
      intro calls hcalls
      rw [List.append_assoc]
      apply hvalidated
      rw [Phase.after_append, handleFileRouter_after]
      exact hcalls
    split
    · next hrange =>
        obtain ⟨w', calls, hcalls, hafter⟩ := handleRangeRequest_after sys
          (server.handleFileRouter w entered req.ifRange).1 hrange false
        rw [hcalls]
        exact ⟨_, _, _, rfl, hedited calls hafter⟩
    · exact ⟨_, _, _, rfl, hedited _ (sendFile_after sys _ _ false)⟩
  · rw [ifRange_reqMethod, hhead]
    exact ⟨_, _, _, rfl, rfl⟩

private theorem handleStaticFileRequest_answers (w : W) (headers : Headers) {req : Request}
    (hhost : req.headers.count (ascii "Host") = true)
    (hmethod : req.reqMethod = .get ∨ req.reqMethod = .head ∨ req.reqMethod = .put ∨
      req.reqMethod = .delete) :
    Answers (server.handleStaticFileRequest sys w headers req) := by
  unfold Server.handleStaticFileRequest
  dsimp only
  generalize server.baseDir ++ (if req.absPath = ascii "/" then ascii "/index.html"
    else req.absPath) = path
  have hhost' : Request.headers { req with
      absPath := path
      hasFile := sys.isRegularFile w path } |>.count (ascii "Host") := hhost
  split
  · obtain ⟨w', calls, hcalls, hafter⟩ := updateFile_after sys w hhost' false
    rw [hcalls]
    exact ⟨_, _, _, rfl, hafter⟩
  · exact ⟨_, _, _, rfl, rfl⟩
  · next hput hdelete =>
      split
      · refine ⟨_, _, _, rfl, ?_⟩
        split <;> rfl
      · apply serveFile_answers
        rcases hmethod with hmethod | hmethod | hmethod | hmethod
        · exact Or.inl hmethod
        · exact Or.inr hmethod
        · exact absurd hmethod hput
        · exact absurd hmethod hdelete

/-- What the server has to know about a request to answer it: a table for the
method, for a `POST` a handler for the path, and a handler that sends one
response. -/
structure Server.Handles (w : W) (req : Request) : Prop where
  /-- the message handler passes on no request without it -/
  host : req.headers.count (ascii "Host") = true
  get : req.reqMethod = .get → ∃ table, server.router .get = some table ∧
    ∀ handler, table req.absPath = some handler → SendsOnce (handler w req).2
  post : req.reqMethod = .post → ∃ table handler, server.router .post = some table ∧
    table req.absPath = some handler ∧ SendsOnce (handler w req).2

variable {server}

private theorem dispatch_answers {w : W} {req : Request} (h : server.Handles w req)
    (headers : Headers) :
    Answers (server.dispatch sys w headers req) := by
  unfold Server.dispatch
  cases hmethod : req.reqMethod with
  | get =>
      obtain ⟨table, htable, hsends⟩ := h.get hmethod
      dsimp only
      rw [Server.handleUserRouter, hmethod, htable]
      dsimp only
      cases hhandler : table req.absPath with
      | none =>
          exact handleStaticFileRequest_answers sys server w headers h.host (Or.inl hmethod)
      | some handler => exact ⟨_, _, _, rfl, hsends handler hhandler⟩
  | head =>
      exact handleStaticFileRequest_answers sys server w headers h.host
        (Or.inr (Or.inl hmethod))
  | post =>
      obtain ⟨table, handler, htable, hhandler, hsends⟩ := h.post hmethod
      dsimp only
      rw [Server.handleUserRouter, hmethod, htable]
      dsimp only
      rw [hhandler]
      exact ⟨_, _, _, rfl, hsends⟩
  | put =>
      exact handleStaticFileRequest_answers sys server w headers h.host
        (Or.inr (Or.inr (Or.inl hmethod)))
  | delete =>
      exact handleStaticFileRequest_answers sys server w headers h.host
        (Or.inr (Or.inr (Or.inr hmethod)))
  | options => exact ⟨_, _, _, rfl, rfl⟩
  | trace => exact ⟨_, _, _, rfl, rfl⟩
  | connect => exact ⟨_, _, _, rfl, rfl⟩

private theorem processRequest_answers {w : W} {req : Request} (h : server.Handles w req)
    (headers : Headers) : Answers (server.processRequest sys w headers req) := by
  obtain ⟨w', after, calls, hdispatch, hafter⟩ := dispatch_answers sys h
    (headers.emplace (ascii "Connection") req.connectionHeader)
  unfold Server.processRequest
  dsimp only
  rw [hdispatch]
  refine ⟨_, _, _, rfl, ?_⟩
  have hend : ∀ keepalive : Bool, Phase.sent.after (if keepalive then [] else [.connClose]) =
      some .sent := by
    intro keepalive
    cases keepalive <;> rfl
  rw [List.cons_append, Phase.after_cons]
  change (Phase.preparing false).after (calls ++ _) = _
  rw [Phase.after_append, hafter]
  exact hend req.keepalive

theorem answer_isolated {w : W} {req : Request} (h : server.Handles w req)
    {res fresh : Response} (hres : res.Blank) (hfresh : fresh.Blank) :
    ∃ res' fresh' w' req' out, server.answer sys res w req = some (res', w', req', out) ∧
      server.answer sys fresh w req = some (fresh', w', req', out) ∧ res'.Blank ∧
      (sentHeads out).length = 1 := by
  obtain ⟨w', req', calls, hprocess, hafter⟩ := processRequest_answers sys h []
  have hstart : (Phase.preparing false).Alike res fresh :=
    ⟨by rw [hres.headers, hfresh.headers], hres.chunked, hfresh.chunked, hres.chunkedBuf,
      hfresh.chunkedBuf⟩
  have hexec := execAll_alike sys.order (sys.now w) hafter hstart
  refine ⟨(res.execAll sys.order (sys.now w) calls).1,
    (fresh.execAll sys.order (sys.now w) calls).1, w', req',
    (res.execAll sys.order (sys.now w) calls).2, ?_, ?_, hexec.alike.2, ?_⟩
  · rw [Server.answer, hres.headers, hprocess]
  · rw [Server.answer, hfresh.headers, hprocess, ← hexec.out]
  · exact (Nat.zero_add _).symm.trans hexec.heads

end Paths

section Runs

variable {W : Type} (sys : System W) (server : Server W)

/-- The requests of a connection one after the other, on its one response
object: the outputs of each. -/
def Server.serve (res : Response) (w : W) : List Request → Option (List (List Output))
  | [] => some []
  | req :: reqs =>
      match server.answer sys res w req with
      | none => none
      | some (res, w, _, out) => (Server.serve res w reqs).map (out :: ·)

/-- The same requests, each on a response object of its own. -/
def Server.serveApart (fresh : Response) (w : W) : List Request → Option (List (List Output))
  | [] => some []
  | req :: reqs =>
      match server.answer sys fresh w req with
      | none => none
      | some (_, w, _, out) => (Server.serveApart fresh w reqs).map (out :: ·)

/-- The world a request leaves behind. -/
def Server.worldAfter (w : W) (req : Request) : W :=
  match server.processRequest sys w [] req with
  | none => w
  | some (w, _, _) => w

variable {sys server}

private theorem answer_worldAfter {res res' : Response} (hres : res.Blank) {w w' : W}
    {req req' : Request} {out : List Output}
    (h : server.answer sys res w req = some (res', w', req', out)) :
    w' = server.worldAfter sys w req := by
  rw [Server.answer, hres.headers] at h
  rw [Server.worldAfter]
  cases hprocess : server.processRequest sys w [] req with
  | none => rw [hprocess] at h; cases h
  | some p =>
      rw [hprocess] at h
      have hpair := congrArg (fun r => r.2.1) (Option.some.inj h)
      exact hpair.symm

/-- Every request of a run that the server handles is answered by one response,
in the order of the requests, and each response is the one that a response
object of its own would have sent. -/
theorem one_isolated_response (res fresh : Response) (hres : res.Blank) (hfresh : fresh.Blank)
    (w : W) (reqs : List Request)
    (hrun : Admissible (server.worldAfter sys) server.Handles w reqs) :
    ∃ outs, server.serve sys res w reqs = some outs ∧
      server.serveApart sys fresh w reqs = some outs ∧ outs.length = reqs.length ∧
      ∀ out ∈ outs, (sentHeads out).length = 1 := by
  induction reqs generalizing res w with
  | nil => exact ⟨[], rfl, rfl, rfl, by simp⟩
  | cons req reqs ih =>
      obtain ⟨hhandles, hrest⟩ := hrun
      obtain ⟨res', fresh', w', req', out, hanswer, happart, hblank, hheads⟩ :=
        answer_isolated sys hhandles hres hfresh
      rw [← answer_worldAfter hres hanswer] at hrest
      obtain ⟨outs, hserve, hserveApart, hlength, hall⟩ := ih res' hblank w' hrest
      refine ⟨out :: outs, ?_, ?_, ?_, ?_⟩
      · rw [Server.serve, hanswer]
        dsimp only
        rw [hserve]
        rfl
      · rw [Server.serveApart, happart]
        dsimp only
        rw [hserveApart]
        rfl
      · rw [List.length_cons, List.length_cons, hlength]
      · intro o ho
        rcases List.mem_cons.mp ho with rfl | ho
        · exact hheads
        · exact hall o ho

/-- A system without files, at a fixed time. -/
def System.empty : System Unit where
  order := id
  now := fun _ => ⟨⟨0, by decide⟩, 6, ⟨10, by decide⟩, 1994, 8, 49, 37⟩
  isRegularFile := fun _ _ => false
  getLastModified := fun _ _ => 0
  getFileSize := fun _ _ => 0
  gmtime := fun _ => ⟨⟨4, by decide⟩, 1, ⟨0, by decide⟩, 1970, 0, 0, 0⟩
  hexDigest := fun _ _ => []
  getMimeType := fun _ => ascii "application/octet-stream"
  generateBoundary := fun w => (w, ascii "----=_Part_1")
  openRead := fun w _ => (w, -1)
  openTruncate := fun w _ => (w, -1)
  readAll := fun _ _ => []
  writeFile := fun w _ _ => (w, false)
  close := fun w _ => w
  unlink := fun w _ => w
  openFiles := fun _ _ => []

/-- The handlers of the sample server. -/
def Server.sample : Server Unit :=
  ((Server.create (ascii ".")).get (ascii "/hello") fun w _ =>
    (w, [.setStatusCode .ok, .setContent (ascii "hello, client") (ascii "text/plain")])).post
    (ascii "/login") fun w _ =>
      (w, [.setStatusCode .ok, .setContent (ascii "OK") (ascii "text/plain")])

/-- A complete request without a body. -/
def Request.simple (method : Method) (path : Bytes) (headers : Headers) : Request where
  message := ⟨(ascii "Host", ascii "a") :: headers, [], 0, false, -1⟩
  state := .parseHeader
  reqMethod := method
  absPath := path
  httpVersion := .http11
  queryParams := []
  hasFile := false
  filesize := 0
  lastModified := []
  etag := []

/-- A page, a missing file and a method that is not supported. -/
theorem one_isolated_response_sample :
    ∃ outs, Server.sample.serve .empty ⟨.ok, [], false, []⟩ ()
        [.simple .get (ascii "/hello") [], .simple .get (ascii "/none") [],
          .simple .trace (ascii "/hello") []] = some outs ∧
      Server.sample.serveApart .empty ⟨.notFound, [], false, []⟩ ()
        [.simple .get (ascii "/hello") [], .simple .get (ascii "/none") [],
          .simple .trace (ascii "/hello") []] = some outs ∧ outs.length = 3 ∧
      ∀ out ∈ outs, (sentHeads out).length = 1 := by
  apply one_isolated_response
  · exact ⟨rfl, rfl, rfl⟩
  · exact ⟨rfl, rfl, rfl⟩
  · have hget : ∀ path, Server.sample.Handles () (.simple .get path []) := by
      intro path
      refine ⟨rfl, fun _ => ⟨fun p => if p = ascii "/hello" then some fun w _ =>
          (w, [.setStatusCode .ok, .setContent (ascii "hello, client") (ascii "text/plain")])
        else none, rfl, ?_⟩, fun hpost => absurd hpost (by simp [Request.simple])⟩
      intro handler hhandler
      dsimp only at hhandler
      split at hhandler
      · cases hhandler
        rfl
      · cases hhandler
    have htrace : Server.sample.Handles () (.simple .trace (ascii "/hello") []) :=
      ⟨rfl, fun hmethod => absurd hmethod (by decide), fun hmethod => absurd hmethod (by decide)⟩
    exact ⟨hget _, hget _, htrace, trivial⟩

/-- A `POST` to a path without a handler is not answered, and its `Connection`
header stands in the response to the next request. -/
theorem unanswered_post :
    (Server.sample.serve .empty ⟨.ok, [], false, []⟩ ()
        [.simple .post (ascii "/other") [],
          .simple .get (ascii "/hello") [(ascii "Connection", ascii "close")]]).map
        (·.map fun out => (sentHeads out).map (·.find (ascii "Connection"))) =
      some [[], [some (ascii "keep-alive")]] ∧
    (Server.sample.serveApart .empty ⟨.ok, [], false, []⟩ ()
        [.simple .post (ascii "/other") [],
          .simple .get (ascii "/hello") [(ascii "Connection", ascii "close")]]).map
        (·.map fun out => (sentHeads out).map (·.find (ascii "Connection"))) =
      some [[], [some (ascii "close")]] := by
  decide

end Runs

end Angel.Http
