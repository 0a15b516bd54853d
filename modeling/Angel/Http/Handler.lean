import Angel.Http.Request

/-!
`http_server::message_handler`: the resumable parser of a connection, over any
implementation of the calls it makes.
-/

namespace Angel.Http

open Util Lib

variable {ρ : Type}

inductive ConditionCode where
  | noHeader
  | successful
  | failed
  deriving DecidableEq, Repr

/-- The calls of `message_handler`, acting on everything but the request and
the buffer. `none` is the end of the thread, by an exception or by undefined
behaviour. -/
structure Service (ρ : Type) where
  isConnected : ρ → Bool
  expect : ρ → Request → ρ × ConditionCode
  processRequest : ρ → Request → Option (ρ × Request)
  /-- the code behind the label `err` -/
  error : ρ → StatusCode → ρ

/-- A connection as its `message_handler` sees it. -/
structure Session (ρ : Type) where
  env : ρ
  req : Request
  buf : Bytes

/-- The end of a complete request. -/
def Service.dispatch (service : Service ρ) (env : ρ) (req : Request) (buf : Bytes) :
    Pass (Session ρ) (Option (Session ρ)) :=
  match service.processRequest env req with
  | none => .done none
  | some (env, req) => .again ⟨env, req, buf⟩

/-- The case `ParseLine` of the loop. -/
def Service.linePass (service : Service ρ) (s : Session ρ) :
    Pass (Session ρ) (Option (Session ρ)) :=
  match s.req.parseLine s.buf with
  | none => .done none
  | some (req, buf, .ok) => .again ⟨s.env, { req with state := .parseHeader }, buf⟩
  | some (req, buf, .continue) => .done (some ⟨s.env, req, buf⟩)
  | some (req, buf, code) => .done (some ⟨service.error s.env code, req, buf⟩)

/-- What follows a complete header block. -/
def Service.headerDone (service : Service ρ) (env : ρ) (req : Request) (buf : Bytes) :
    Pass (Session ρ) (Option (Session ρ)) :=
  if !req.headers.count (ascii "Host") then
    .done (some ⟨service.error env .badRequest, req, buf⟩)
  else
    match service.expect env req with
    | (env, .failed) => .done (some ⟨env, req.clear, buf⟩)
    | (env, _) =>
        match req.message.parseBodyLength with
        | (m, .ok) => .again ⟨env, { req with message := m, state := .parseBody }, buf⟩
        | (m, .continue) => service.dispatch env { req with message := m } buf
        | (m, code) => .done (some ⟨service.error env code, { req with message := m }, buf⟩)

/-- The case `ParseHeader` of the loop. -/
def Service.headerPass (service : Service ρ) (s : Session ρ) :
    Pass (Session ρ) (Option (Session ρ)) :=
  match s.req.message.parseHeader s.buf with
  | none => .done none
  | some (m, buf, .ok) => service.headerDone s.env { s.req with message := m } buf
  | some (m, buf, .continue) => .done (some ⟨s.env, { s.req with message := m }, buf⟩)
  | some (m, buf, code) =>
      .done (some ⟨service.error s.env code, { s.req with message := m }, buf⟩)

/-- The case `ParseBody` of the loop. -/
def Service.bodyPass (service : Service ρ) (s : Session ρ) :
    Pass (Session ρ) (Option (Session ρ)) :=
  match s.req.message.parseBody s.buf with
  | none => .done none
  | some (m, buf, .ok) => service.dispatch s.env { s.req with message := m } buf
  | some (m, buf, .continue) => .done (some ⟨s.env, { s.req with message := m }, buf⟩)
  | some (m, buf, code) =>
      .done (some ⟨service.error s.env code, { s.req with message := m }, buf⟩)

/-- One pass of `while (buf.readable() > 0)`. -/
def Service.pass (service : Service ρ) (s : Session ρ) : Pass (Session ρ) (Option (Session ρ)) :=
  if s.buf = [] then .done (some s)
  else
    match s.req.state with
    | .parseLine => service.linePass s
    | .parseHeader => service.headerPass s
    | .parseBody => service.bodyPass s

/-- Only a body of length zero is complete without reading a byte, and a line
comes next, so this many passes are enough. -/
def Service.messageHandler (service : Service ρ) (s : Session ρ) : Option (Session ρ) :=
  if !service.isConnected s.env then some s
  else (loop service.pass (2 * s.buf.length + 2) s).join

/-- A segment arrives: it is appended to the input buffer and the message
handler is called. -/
def Service.receive (service : Service ρ) (s : Option (Session ρ)) (segment : Bytes) :
    Option (Session ρ) :=
  s.bind fun s => service.messageHandler { s with buf := s.buf ++ segment }

end Angel.Http
