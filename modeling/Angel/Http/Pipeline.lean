import Angel.Http.Handler

/-!
Pipelined requests: whatever the segmentation, `message_handler` hands the
well-formed requests of the stream to `process_request` one by one, complete
and in order. Here `process_request` records the request and clears it.
-/

namespace Angel.Http

open Util Lib

/-- What a handler can see of a request. -/
structure Record where
  method : Method
  path : Bytes
  params : Params
  headers : Headers
  body : Bytes
  deriving DecidableEq, Repr

def Request.record (req : Request) : Record :=
  ⟨req.reqMethod, req.absPath, req.queryParams, req.headers, req.body⟩

/-- What a handler should see of a request on the wire. -/
def WireRequest.record (r : WireRequest) : Record :=
  ⟨r.method, r.target.path, Params.emplaceAll [] r.target.params, headerMap r.lines, r.body⟩

/-- The decision of `http_server::expect`. -/
def expectCode (headers : Headers) : ConditionCode :=
  match headers.find (ascii "Expect") with
  | none => .noHeader
  | some value => if equalCase value (ascii "100-continue") then .successful else .failed

structure Recorder where
  requests : List Record
  connected : Bool
  deriving DecidableEq, Repr

def recorder : Service Recorder where
  isConnected r := r.connected
  expect r req := (r, expectCode req.headers)
  processRequest r req := some ({ r with requests := r.requests ++ [req.record] }, req.clear)
  error r _ := { r with connected := false }

/-- A request as the constructor leaves it. The members without an initializer
are written before they are read. -/
def Request.init : Request where
  message := ⟨[], [], 0, false, -1⟩
  state := .parseLine
  reqMethod := .get
  absPath := []
  httpVersion := .http11
  queryParams := []
  hasFile := false
  filesize := 0
  lastModified := []
  etag := []

/-- Nothing of the next request has been read. -/
structure Request.Idle (req : Request) : Prop where
  state : req.state = .parseLine
  path : req.absPath = []
  params : req.queryParams = []
  headers : req.headers = []
  body : req.body = []
  chunked : req.message.chunked = false

/-- The line of `r` has been read. -/
structure Request.InRequest (req : Request) (r : WireRequest) : Prop where
  method : req.reqMethod = r.method
  path : req.absPath = r.target.path
  params : req.queryParams = Params.emplaceAll [] r.target.params
  chunked : req.message.chunked = false

def encodeAll (requests : List WireRequest) : Bytes := requests.flatMap WireRequest.encode

section Stream

variable (all : List WireRequest)

/-- Where the parser stands in the stream: `rest` is still to come. -/
inductive SessionAwaits (s : Session Recorder) (rest : Bytes) : Prop where
  | line (past future : List WireRequest) (hall : all = past ++ future)
      (henv : s.env = ⟨past.map WireRequest.record, true⟩) (hidle : s.req.Idle)
      (hstream : s.buf ++ rest = encodeAll future)
  | header (past : List WireRequest) (r : WireRequest) (future : List WireRequest)
      (done todo : List FieldLine) (hall : all = past ++ r :: future)
      (henv : s.env = ⟨past.map WireRequest.record, true⟩) (hstate : s.req.state = .parseHeader)
      (hreq : s.req.InRequest r) (hlines : r.lines.map HeaderLine.field = done ++ todo)
      (hheaders : s.req.headers = Headers.enterAll [] done) (hbody : s.req.body = [])
      (hstream : s.buf ++ rest = renderFields todo ++ CRLF ++ (r.body ++ encodeAll future))
  | body (past : List WireRequest) (r : WireRequest) (future : List WireRequest)
      (got left : Bytes) (hall : all = past ++ r :: future)
      (henv : s.env = ⟨past.map WireRequest.record, true⟩) (hstate : s.req.state = .parseBody)
      (hreq : s.req.InRequest r) (hheaders : s.req.headers = headerMap r.lines)
      (hsplit : r.body = got ++ left) (hleft : left ≠ []) (hbody : s.req.body = got)
      (hlength : s.req.message.length = left.length)
      (hstream : s.buf ++ rest = left ++ encodeAll future)

/-- The result of a call: the stream goes on, and the handler stops with bytes
in the buffer only when more are to come. -/
def Settled (s : Option (Session Recorder)) (rest : Bytes) : Prop :=
  ∃ s', s = some s' ∧ SessionAwaits all s' rest ∧ (s'.buf = [] ∨ rest ≠ [])

/-- A pass goes on in the stream or stops because more is to come. -/
def Proceeds (s : Session Recorder) (rest : Bytes)
    (p : Pass (Session Recorder) (Option (Session Recorder))) : Prop :=
  (∃ s', p = .again s' ∧ SessionAwaits all s' rest ∧ s'.buf.length < s.buf.length) ∨
    ∃ r, p = .done r ∧ Settled all r rest

variable {all}

theorem Request.Idle.clear {req : Request} (h : req.message.chunked = false) :
    req.clear.Idle where
  state := rfl
  path := rfl
  params := rfl
  headers := rfl
  body := rfl
  chunked := h

theorem linePass_proceeds {s : Session Recorder} {rest : Bytes} {past : List WireRequest}
    {r : WireRequest} {future : List WireRequest} (hall : all = past ++ r :: future)
    (henv : s.env = ⟨past.map WireRequest.record, true⟩) (hidle : s.req.Idle)
    (hstream : s.buf ++ rest = encodeAll (r :: future)) :
    Proceeds all s rest (recorder.linePass s) := by
  have hsplit : s.buf ++ rest = r.line ++ CRLF ++
      (renderFields (r.lines.map HeaderLine.field) ++ CRLF ++ (r.body ++ encodeAll future)) := by
    rw [hstream, renderFields_map]
    simp [encodeAll, WireRequest.encode]
  unfold Service.linePass
  rcases parseLine_wire s.req r hsplit with ⟨extra, hextra, hless, hparse⟩ | ⟨hne, hparse⟩
  · left
    rw [hparse]
    refine ⟨_, rfl, ?_, hless⟩
    refine .header past r future [] (r.lines.map HeaderLine.field) hall henv rfl ?_ rfl hidle.headers hidle.body hextra
    exact
      { method := rfl
        path := by simp [Request.withLine, hidle.path]
        params := by simp [Request.withLine, hidle.params]
        chunked := hidle.chunked }
  · right
    rw [hparse]
    exact ⟨_, rfl, _, rfl, .line past (r :: future) hall henv hidle hstream, Or.inr hne⟩

theorem dispatch_proceeds {s : Session Recorder} {rest extra : Bytes}
    {past : List WireRequest} {r : WireRequest} {future : List WireRequest} {req : Request}
    (hall : all = past ++ r :: future) (hreq : req.InRequest r)
    (hheaders : req.headers = headerMap r.lines) (hbody : req.body = r.body)
    (hstream : extra ++ rest = encodeAll future) (hless : extra.length < s.buf.length) :
    Proceeds all s rest
      (recorder.dispatch ⟨past.map WireRequest.record, true⟩ req extra) := by
  left
  refine ⟨_, rfl, ?_, hless⟩
  refine .line (past ++ [r]) future (by simp [hall]) ?_ (.clear hreq.chunked) hstream
  have hrecord : req.record = r.record := by
    simp [Request.record, WireRequest.record, hreq.method, hreq.path, hreq.params, hheaders,
      hbody]
  simp [hrecord]

/-- After the header block the body is awaited, or there is none and the request
is complete. -/
theorem headerDone_proceeds {s : Session Recorder} {rest extra : Bytes}
    {past : List WireRequest} {r : WireRequest} {future : List WireRequest} {req : Request}
    (hall : all = past ++ r :: future) (hreq : req.InRequest r)
    (hheaders : req.headers = headerMap r.lines) (hbody : req.body = [])
    (hstream : extra ++ rest = r.body ++ encodeAll future)
    (hless : extra.length < s.buf.length) :
    Proceeds all s rest
      (recorder.headerDone ⟨past.map WireRequest.record, true⟩ req extra) := by
  have hexpect : expectCode req.headers = .noHeader := by
    simp [expectCode, hheaders, r.noExpect]
  have hmap : req.message.headers = headerMap r.lines := hheaders
  unfold Service.headerDone
  rw [hheaders, r.host, if_neg (by simp)]
  have hcall : recorder.expect ⟨past.map WireRequest.record, true⟩ req =
      (⟨past.map WireRequest.record, true⟩, .noHeader) := by
    simp [recorder, hexpect]
  rw [hcall]
  dsimp only
  rcases parseBodyLength_announced (hmap ▸ r.noTransferEncoding) (hmap ▸ r.announced)
      r.bodyBounded with ⟨hempty, n, hlength⟩ | ⟨hne, hlength⟩
  · rw [hlength]
    refine dispatch_proceeds hall ⟨hreq.method, hreq.path, hreq.params, hreq.chunked⟩ hheaders
      ?_ ?_ hless
    · rw [hempty]
      exact hbody
    · rw [hstream, hempty]
      rfl
  · rw [hlength]
    left
    refine ⟨_, rfl, ?_, hless⟩
    exact .body past r future [] r.body hall rfl rfl
      ⟨hreq.method, hreq.path, hreq.params, hreq.chunked⟩ hheaders rfl hne hbody rfl hstream

private theorem headerPass_proceeds {s : Session Recorder} {rest : Bytes} {past : List WireRequest}
    {r : WireRequest} {future : List WireRequest} {done todo : List FieldLine}
    (hall : all = past ++ r :: future) (henv : s.env = ⟨past.map WireRequest.record, true⟩)
    (hstate : s.req.state = .parseHeader) (hreq : s.req.InRequest r)
    (hlines : r.lines.map HeaderLine.field = done ++ todo)
    (hheaders : s.req.headers = Headers.enterAll [] done) (hbody : s.req.body = [])
    (hstream : s.buf ++ rest = renderFields todo ++ CRLF ++ (r.body ++ encodeAll future)) :
    Proceeds all s rest (recorder.headerPass s) := by
  have hentered : ∀ fields, s.req.message.headers.enterAll fields =
      Headers.enterAll [] (done ++ fields) := by
    intro fields
    change s.req.headers.enterAll fields = _
    rw [hheaders, enterAll_append]
  unfold Service.headerPass
  rcases parseHeader_fields todo s.req.message hstream with
    ⟨extra, hextra, hshape, hparse⟩ | ⟨done', todo', left, htodo, _, hleft, hne, hparse⟩
  · rw [hparse, hentered, ← hlines, enterAll_headerMap r.namesDistinct, henv]
    refine headerDone_proceeds hall ⟨hreq.method, hreq.path, hreq.params, hreq.chunked⟩ rfl
      hbody hextra ?_
    rw [hshape]
    simp only [List.length_append, CRLF, List.length_cons, List.length_nil]
    omega
  · right
    rw [hparse, hentered]
    refine ⟨_, rfl, _, rfl, ?_, Or.inr hne⟩
    exact .header past r future (done ++ done') todo' hall henv hstate
      ⟨hreq.method, hreq.path, hreq.params, hreq.chunked⟩ (by simp [hlines, htodo]) rfl hbody hleft

private theorem bodyPass_proceeds {s : Session Recorder} {rest : Bytes} {past : List WireRequest}
    {r : WireRequest} {future : List WireRequest} {got left : Bytes}
    (hall : all = past ++ r :: future) (henv : s.env = ⟨past.map WireRequest.record, true⟩)
    (hstate : s.req.state = .parseBody) (hreq : s.req.InRequest r)
    (hheaders : s.req.headers = headerMap r.lines) (hsplit : r.body = got ++ left)
    (hleft : left ≠ []) (hbody : s.req.body = got)
    (hlength : s.req.message.length = left.length)
    (hstream : s.buf ++ rest = left ++ encodeAll future) :
    Proceeds all s rest (recorder.bodyPass s) := by
  have hpos : 0 < left.length := List.length_pos_iff.mpr hleft
  unfold Service.bodyPass
  rw [Message.parseBody, hreq.chunked, if_neg (by simp), Message.parseBodyByContentLength, hlength]
  rcases arrived_cases hstream with ⟨more, hmore, hbuf, hrest⟩ | ⟨extra, hbuf, hextra⟩
  · -- the body goes on in the next segment
    right
    have hlen := congrArg List.length hbuf
    have hmorePos := List.length_pos_iff.mpr hmore
    rw [List.length_append] at hlen
    rw [if_neg (by omega)]
    refine ⟨_, rfl, _, rfl, ?_, Or.inl rfl⟩
    refine .body past r future (got ++ s.buf) more hall henv hstate
      ⟨hreq.method, hreq.path, hreq.params, hreq.chunked⟩ hheaders ?_ hmore ?_ ?_ hrest
    · rw [hsplit, ← hbuf, List.append_assoc]
    · change s.req.message.body ++ s.buf = got ++ s.buf
      rw [← hbody]
      rfl
    · change left.length - s.buf.length = more.length
      omega
  · have htake : s.buf.take left.length = left := by rw [hbuf, List.take_left]
    have hdrop : s.buf.drop left.length = extra := by rw [hbuf, List.drop_left]
    have hlen : s.buf.length = left.length + extra.length := by rw [hbuf, List.length_append]
    rw [if_pos (by omega), htake, hdrop, henv]
    refine dispatch_proceeds hall ⟨hreq.method, hreq.path, hreq.params, hreq.chunked⟩ hheaders
      ?_ hextra (by omega)
    change s.req.message.body ++ left = r.body
    rw [hsplit, ← hbody]
    rfl

theorem pass_proceeds {s : Session Recorder} {rest : Bytes} (h : SessionAwaits all s rest) :
    Proceeds all s rest (recorder.pass s) := by
  unfold Service.pass
  by_cases hbuf : s.buf = []
  · rw [if_pos hbuf]
    exact Or.inr ⟨_, rfl, s, rfl, h, Or.inl hbuf⟩
  rw [if_neg hbuf]
  cases h with
  | line past future hall henv hidle hstream =>
      cases future with
      | nil =>
          -- unread bytes belong to a request that has not been recorded
          have hnil : s.buf ++ rest = [] := hstream
          exact absurd (List.append_eq_nil_iff.mp hnil).1 hbuf
      | cons r future =>
          rw [hidle.state]
          exact linePass_proceeds hall henv hidle hstream
  | header past r future done todo hall henv hstate hreq hlines hheaders hbody hstream =>
      rw [hstate]
      exact headerPass_proceeds hall henv hstate hreq hlines hheaders hbody hstream
  | body past r future got left hall henv hstate hreq hheaders hsplit hleft hbody hlength hstream =>
      rw [hstate]
      exact bodyPass_proceeds hall henv hstate hreq hheaders hsplit hleft hbody hlength hstream

theorem SessionAwaits.connected {s : Session Recorder} {rest : Bytes}
    (h : SessionAwaits all s rest) : s.env.connected = true := by
  cases h with
  | line past future hall henv => rw [henv]
  | header past r future done todo hall henv => rw [henv]
  | body past r future got left hall henv => rw [henv]

theorem SessionAwaits.receive {s : Session Recorder} {seg rest : Bytes}
    (h : SessionAwaits all s (seg ++ rest)) :
    SessionAwaits all { s with buf := s.buf ++ seg } rest := by
  cases h with
  | line past future hall henv hidle hstream =>
      exact .line past future hall henv hidle (by simpa using hstream)
  | header past r future done todo hall henv hstate hreq hlines hheaders hbody hstream =>
      exact .header past r future done todo hall henv hstate hreq hlines hheaders hbody
        (by simpa using hstream)
  | body past r future got left hall henv hstate hreq hheaders hsplit hleft hbody hlength hstream =>
      exact .body past r future got left hall henv hstate hreq hheaders hsplit hleft hbody hlength
        (by simpa using hstream)

theorem receive_settled {s : Option (Session Recorder)} {seg rest : Bytes}
    (h : Settled all s (seg ++ rest)) : Settled all (recorder.receive s seg) rest := by
  obtain ⟨s, rfl, hawaits, _⟩ := h
  have hnext := hawaits.receive
  have hconnected : recorder.isConnected s.env = true := hawaits.connected
  change Settled all (recorder.messageHandler { s with buf := s.buf ++ seg }) rest
  rw [Service.messageHandler, hconnected, if_neg (by simp)]
  have hpass : ∀ t, SessionAwaits all t rest → Proceeds all t rest (recorder.pass t) :=
    fun _ h => pass_proceeds h
  have hfuel : (s.buf ++ seg).length < 2 * (s.buf ++ seg).length + 2 := by omega
  obtain ⟨r, hloop, hsettled⟩ := loop_spec (fun t : Session Recorder => t.buf.length) hpass hnext hfuel
  rw [hloop]
  exact hsettled

theorem Settled.complete {s : Option (Session Recorder)} (h : Settled all s []) :
    ∃ req, s = some ⟨⟨all.map WireRequest.record, true⟩, req, []⟩ := by
  obtain ⟨⟨env, req, buf⟩, rfl, hawaits, hbuf⟩ := h
  have hnil : buf = [] := by simpa using hbuf
  subst hnil
  cases hawaits with
  | line past future hall henv hidle hstream =>
      have hfuture : future = [] := by
        cases future with
        | nil => rfl
        | cons r future =>
            have hlen := congrArg List.length hstream
            simp [encodeAll, WireRequest.encode, CRLF] at hlen
      subst hfuture
      rw [List.append_nil] at hall
      have henv' : env = ⟨past.map WireRequest.record, true⟩ := henv
      exact ⟨req, by rw [henv', hall]⟩
  | header past r future done todo hall henv hstate hreq hlines hheaders hbody hstream =>
      simp [CRLF] at hstream
  | body past r future got left hall henv hstate hreq hheaders hsplit hleft hbody hlength hstream =>
      simp [hleft] at hstream

end Stream

/-- A fresh connection. -/
def freshSession : Session Recorder := ⟨⟨[], true⟩, .init, []⟩

/-- Pipelined requests are parsed exactly in every segmentation of their
bytes. -/
theorem pipelined_requests_exact (requests : List WireRequest) (segments : List Bytes)
    (hsegments : segments.flatten = encodeAll requests) :
    ∃ req, run recorder.receive (some freshSession) segments =
      some ⟨⟨requests.map WireRequest.record, true⟩, req, []⟩ := by
  have hstart : Settled requests (some freshSession) (segments.flatten ++ []) := by
    refine ⟨freshSession, rfl, ?_, Or.inl rfl⟩
    refine .line [] requests rfl rfl ?_ (by simpa [freshSession] using hsegments)
    exact ⟨rfl, rfl, rfl, rfl, rfl, rfl⟩
  have hstep : ∀ s seg rest, Settled requests s (seg ++ rest) →
      Settled requests (recorder.receive s seg) rest := fun _ _ _ h => receive_settled h
  exact (run_segments hstep hstart).complete

/-- The line `Host: a`. -/
def HeaderLine.hostA : HeaderLine where
  name := ascii "Host"
  value := ascii "a"
  nameFree := by decide
  valueNonempty := by decide
  valueTrimmed := by decide
  valueFree := by decide

/-- The target `/?k=v%21`. -/
def Target.rootWithParam : Target where
  pathText := ascii "/"
  path := ascii "/"
  pathEscapes := .raw (by decide) .nil
  pathFree := by decide
  params := [
    { keyText := ascii "k"
      valueText := ascii "v%21"
      key := ascii "k"
      value := ascii "v!"
      keyEscapes := .raw (by decide) .nil
      valueEscapes := .raw (by decide)
        (.escaped (show digit? 50 = some 2 by decide) (show digit? 49 = some 1 by decide)
          (by decide) .nil)
      keyFree := by decide
      valueFree := by decide }]

/-- A request without a body. -/
def WireRequest.getRoot : WireRequest where
  method := .get
  target := .rootWithParam
  version := .http11
  lines := [.hostA]
  body := []
  targetFree := by decide
  targetLine := by decide
  lineShort := by decide
  namesDistinct := by simp [DistinctNames]
  host := by decide
  noTransferEncoding := by decide
  noExpect := by decide
  announced := rfl
  bodyBounded := by decide

/-- Two pipelined requests, cut between CR and LF and inside a header. -/
theorem pipelined_requests_exact_twice :
    ∃ req, run recorder.receive (some freshSession)
        [ascii "GET /?k=v%21 HTTP/1.1\r", ascii "\nHost: a\r\n\r\nGET /?k=v%21 HTTP/1.1\r\nHo",
          ascii "st: a\r\n\r\n"] =
      some ⟨⟨[WireRequest.getRoot, WireRequest.getRoot].map WireRequest.record, true⟩, req, []⟩ :=
  pipelined_requests_exact [WireRequest.getRoot, WireRequest.getRoot] _ (by decide)

end Angel.Http
