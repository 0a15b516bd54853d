import Angel.Http.Chunked
import Angel.Http.Request

/-!
`http_client::receive`: the resumable response parser of a pooled connection.
A connection keeps its response object; a delivery moves the headers, the body
and the status message out of it and resets its state.
-/

namespace Angel.Http

open Util Buffer Lib

inductive ErrorCode where
  | none
  | invalidRequest
  | invalidResponse
  | resolveTimeoutOrNoAvailableAddr
  | connectionTimeout
  | requestTimeout
  | pendingTimeout
  | connectionResetByPeer
  deriving DecidableEq, Repr

/-- The data members of `http_response`, with those of its base `message`. -/
structure HttpResponse where
  message : Message
  errCode : ErrorCode
  httpVersion : Version
  statusCode : Int
  statusMessage : Bytes
  state : ParseState
  deriving DecidableEq, Repr

/-- `http_response::parse_line`. Without a blank behind the version, or behind
the status code, the next search starts behind the end of the line, which is
undefined. -/
def HttpResponse.parseLine (res : HttpResponse) (buf : Bytes) :
    Option (HttpResponse × Bytes × StatusCode) :=
  match findCrlf buf with
  | none => some (res, buf, .continue)
  | some crlf =>
      let line := buf.take crlf
      let sp := line.idxOf SP
      let version := line.take sp
      if version ≠ ascii "HTTP/1.1" ∧ version ≠ ascii "HTTP/1.0" then
        some (res, buf, .badRequest)
      else
        let res := { res with
          httpVersion := if version = ascii "HTTP/1.1" then .http11 else .http10 }
        if sp = line.length then none
        else
          let code := line.drop (sp + 1)
          let sp := code.idxOf SP
          let res := { res with statusCode := (svtoi (code.take sp)).getD 0 }
          if res.statusCode ≤ 0 then some (res, buf, .badRequest)
          else if sp = code.length then none
          else
            some ({ res with statusMessage := code.drop (sp + 1) }, buf.drop (crlf + 2), .ok)

/-- How a call of `receive` leaves its loop: with the response, the unread
bytes and whether the response is delivered. -/
abbrev Received := Option (HttpResponse × Bytes × Bool)

/-- The code behind the label `err`. -/
def HttpResponse.failed (res : HttpResponse) (buf : Bytes) : Received :=
  some ({ res with errCode := .invalidResponse }, buf, true)

/-- The case `ParseLine` of the loop. -/
def HttpResponse.linePass (res : HttpResponse) (buf : Bytes) :
    Pass (HttpResponse × Bytes) Received :=
  match res.parseLine buf with
  | none => .done none
  | some (res, buf, .ok) => .again ({ res with state := .parseHeader }, buf)
  | some (res, buf, .continue) => .done (some (res, buf, false))
  | some (res, buf, _) => .done (res.failed buf)

/-- The case `ParseHeader` of the loop. -/
def HttpResponse.headerPass (res : HttpResponse) (buf : Bytes) :
    Pass (HttpResponse × Bytes) Received :=
  match res.message.parseHeader buf with
  | none => .done none
  | some (m, buf, .ok) =>
      match m.parseBodyLength with
      | (m, .ok) => .again ({ res with message := m, state := .parseBody }, buf)
      | (m, .continue) => .done (some ({ res with message := m }, buf, true))
      | (m, _) => .done ({ res with message := m }.failed buf)
  | some (m, buf, .continue) => .done (some ({ res with message := m }, buf, false))
  | some (m, buf, _) => .done ({ res with message := m }.failed buf)

/-- The case `ParseBody` of the loop. -/
def HttpResponse.bodyPass (res : HttpResponse) (buf : Bytes) :
    Pass (HttpResponse × Bytes) Received :=
  match res.message.parseBody buf with
  | none => .done none
  | some (m, buf, .ok) => .done (some ({ res with message := m }, buf, true))
  | some (m, buf, .continue) => .done (some ({ res with message := m }, buf, false))
  | some (m, buf, _) => .done ({ res with message := m }.failed buf)

/-- One pass of `while (buf.readable() > 0)`. -/
def HttpResponse.pass (s : HttpResponse × Bytes) : Pass (HttpResponse × Bytes) Received :=
  if s.2 = [] then .done (some (s.1, s.2, false))
  else
    match s.1.state with
    | .parseLine => s.1.linePass s.2
    | .parseHeader => s.1.headerPass s.2
    | .parseBody => s.1.bodyPass s.2

/-- What `std::move` and the assignment behind it leave of a response. -/
def HttpResponse.moved (res : HttpResponse) : HttpResponse :=
  { res with
    message := { res.message with headers := [], body := [] }
    statusMessage := []
    state := .parseLine }

/-- A pooled connection: its response object, its lease, the responses its
promises were resolved with and the input buffer. -/
structure HttpConnection where
  response : HttpResponse
  leased : Bool
  results : List HttpResponse
  buf : Bytes
  deriving DecidableEq, Repr

/-- `create_connection`: a new connection is value-initialized and leased. -/
def HttpConnection.create : HttpConnection where
  response := ⟨⟨[], [], 0, false, -1⟩, .none, .http10, 0, [], .parseLine⟩
  leased := true
  results := []
  buf := []

/-- `lease_connection`: a fresh promise on a connection that is available. -/
def HttpConnection.lease (c : HttpConnection) : HttpConnection := { c with leased := true }

/-- A segment arrives: it is appended to the input buffer and `receive` is
called. Every pass that goes round again reads a byte. -/
def HttpConnection.receive (c : HttpConnection) (segment : Bytes) : Option HttpConnection :=
  if !c.leased then some { c with buf := [] }
  else
    let buf := c.buf ++ segment
    match (loop HttpResponse.pass (buf.length + 1) (c.response, buf)).join with
    | none => none
    | some (res, buf, false) => some { c with response := res, buf := buf }
    | some (res, buf, true) =>
        some
          { response := res.moved
            leased := false
            results := c.results ++ [res]
            buf := buf }

/-- The segments of a response, one after the other. -/
def HttpConnection.arrives (c : Option HttpConnection) (segment : Bytes) :
    Option HttpConnection :=
  c.bind fun c => c.receive segment

/-- The body of a response on the wire. -/
inductive WireBody where
  | empty
  | sized (body : Bytes)
  | chunked (chunks : List Chunk) (trailer : List FieldLine)

def WireBody.encode : WireBody → Bytes
  | .empty => []
  | .sized body => body
  | .chunked chunks trailer => encodeBody chunks trailer

def WireBody.bytes : WireBody → Bytes
  | .empty => []
  | .sized body => body
  | .chunked chunks _ => chunkBytes chunks

/-- The headers announce the body the way `parse_body_length` reads them. -/
def WireBody.FramedBy (headers : Headers) : WireBody → Prop
  | .empty => headers.find (ascii "Transfer-Encoding") ≠ some (ascii "chunked") ∧
      ∀ value, headers.find (ascii "Content-Length") = some value → svtoll value = some 0
  | .sized body => headers.find (ascii "Transfer-Encoding") ≠ some (ascii "chunked") ∧
      body ≠ [] ∧ ∃ value, headers.find (ascii "Content-Length") = some value ∧
        svtoll value = some (body.length : Int)
  | .chunked _ _ => headers.find (ascii "Transfer-Encoding") = some (ascii "chunked")

/-- The headers of the response, those of the trailer included. -/
def WireBody.headers (headers : Headers) : WireBody → Headers
  | .chunked _ trailer => headers.enterAll trailer
  | _ => headers

def statusLine (version : Version) (code reason : Bytes) : Bytes :=
  version.text ++ SP :: (code ++ SP :: reason)

/-- A complete response as it stands on the wire. -/
structure WireResponse where
  version : Version
  code : Bytes
  status : Int
  reason : Bytes
  fields : List FieldLine
  body : WireBody
  codeFree : SP ∉ code
  codeRead : svtoi code = some status
  statusPositive : 0 < status
  oneLine : ¬ CRLF <:+: statusLine version code reason
  framed : body.FramedBy (Headers.enterAll [] fields)

def WireResponse.line (w : WireResponse) : Bytes := statusLine w.version w.code w.reason

def WireResponse.encode (w : WireResponse) : Bytes :=
  w.line ++ CRLF ++ (renderFields w.fields ++ CRLF ++ w.body.encode)

/-- What a response on the wire should be delivered as. -/
structure WireResponse.DeliveredAs (w : WireResponse) (res : HttpResponse) : Prop where
  errCode : res.errCode = .none
  version : res.httpVersion = w.version
  status : res.statusCode = w.status
  reason : res.statusMessage = w.reason
  headers : res.message.headers = w.body.headers (Headers.enterAll [] w.fields)
  body : res.message.body = w.body.bytes

theorem word_split {word : Bytes} (hfree : SP ∉ word) (rest : Bytes) :
    (word ++ SP :: rest).idxOf SP = word.length ∧
      (word ++ SP :: rest).take word.length = word ∧
      (word ++ SP :: rest).drop (word.length + 1) = rest ∧
      word.length ≠ (word ++ SP :: rest).length :=
  ⟨idxOf_separator hfree rest, List.take_left, drop_separator SP word rest, by simp⟩

theorem Version.text_no_space (version : Version) : SP ∉ version.text := by
  cases version <;> decide

theorem parseLine_statusLine (res : HttpResponse) (w : WireResponse) (extra : Bytes) :
    res.parseLine (w.line ++ CRLF ++ extra) = some ({ res with
      httpVersion := w.version
      statusCode := w.status
      statusMessage := w.reason }, extra, .ok) := by
  have hcrlf : findCrlf (w.line ++ CRLF ++ extra) = some w.line.length :=
    findCrlf_line w.oneLine extra
  have htake := take_line w.line extra
  have hdrop := drop_line w.line extra
  obtain ⟨hsp, hversion, hcode, hlen⟩ :=
    word_split w.version.text_no_space (w.code ++ SP :: w.reason)
  obtain ⟨hspCode, htakeCode, hreason, hlenCode⟩ := word_split w.codeFree w.reason
  have hknown : ¬ (w.version.text ≠ ascii "HTTP/1.1" ∧ w.version.text ≠ ascii "HTTP/1.0") := by
    cases w.version <;> decide
  have hvalue : (if w.version.text = ascii "HTTP/1.1" then Version.http11 else .http10) =
      w.version := by
    cases w.version <;> decide
  have hpositive := w.statusPositive
  unfold HttpResponse.parseLine
  rw [hcrlf]
  dsimp only
  rw [htake, hdrop, WireResponse.line, statusLine, hsp, hversion, if_neg hknown, hvalue,
    if_neg hlen, hcode, hspCode, htakeCode, w.codeRead, Option.getD_some, if_neg (by omega),
    if_neg hlenCode, hreason]

theorem parseLine_response (res : HttpResponse) (w : WireResponse) {buf rest after : Bytes}
    (hstream : buf ++ rest = w.line ++ CRLF ++ after) :
    (∃ extra, extra ++ rest = after ∧ extra.length < buf.length ∧
      res.parseLine buf = some ({ res with
        httpVersion := w.version
        statusCode := w.status
        statusMessage := w.reason }, extra, .ok)) ∨
    (rest ≠ [] ∧ res.parseLine buf = some (res, buf, .continue)) := by
  rcases arrived_cases hstream with ⟨more, hmore, hbuf, hrest⟩ | ⟨extra, hbuf, hextra⟩
  · right
    refine ⟨by simp [hrest, hmore], ?_⟩
    rw [HttpResponse.parseLine, findCrlf_incomplete w.oneLine hbuf hmore]
  · left
    subst hbuf
    refine ⟨extra, hextra, ?_, parseLine_statusLine res w extra⟩
    simp only [List.length_append, CRLF, List.length_cons, List.length_nil]
    omega

end Angel.Http
