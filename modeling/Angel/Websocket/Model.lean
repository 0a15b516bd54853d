import Angel.Base64
import Angel.Buffer
import Angel.Sha1.Model
import Angel.Util
import Angel.Lib.Loop

/-!
`WebSocketContext` of `ws-server.cc`: the opening handshake line by line, the
frame codec and the message handler. The conversions `hton64` and `ntoh64` are
parameters, because what they do depends on how the library is compiled.
-/

namespace Angel.Websocket

open Angel.Lib Util Buffer

inductive State where
  | handshake
  | handshakeOK
  | handshakeError
  | establish
  deriving DecidableEq, Repr

/-- The results of `decode`. -/
inductive Code where
  | ok
  | error
  | notEnough
  | ping
  | pong
  | close
  deriving DecidableEq, Repr

inductive SndFragment where
  | firstFragment
  | middleFragment
  | finalFragment
  deriving DecidableEq, Repr

/-- The members that the code of a handler can change: the public ones, and
those that `send` and `send_fragment` work on. -/
structure Visible where
  isBinaryType : Bool
  decodedBuffer : Bytes
  origin : Bytes
  host : Bytes
  encodedBuffer : Bytes
  sndfragment : SndFragment
  deriving DecidableEq, Repr

structure Context extends Visible where
  state : State
  secWebSocketAccept : Bytes
  readRequestLine : Bool
  requiredRequestHeaders : Int
  rcvfragment : Bool
  deriving DecidableEq, Repr

/-- The constructor; it gives `is_binary_type` no value. -/
def Context.create (isBinaryType : Bool) : Context where
  isBinaryType := isBinaryType
  decodedBuffer := []
  origin := []
  host := []
  encodedBuffer := []
  sndfragment := .firstFragment
  state := .handshake
  secWebSocketAccept := []
  readRequestLine := true
  requiredRequestHeaders := 6
  rcvfragment := false

/-- What ends a call without a return. -/
inductive Fault where
  /-- `std::length_error` of a string operation. -/
  | lengthError
  /-- A read outside the bytes of a buffer or a range. -/
  | outOfBounds
  /-- A loop that is never left. -/
  | spins
  deriving DecidableEq, Repr

def bufferedSize : Nat := 4096

/-- The macro `opcode`. -/
def opcodeOf (isBinaryType : Bool) : UInt8 := if isBinaryType then 2 else 1

/-- `encode`: the header of a frame, behind what `encoded_buffer` holds. -/
def encode (hton64 : Nat → Nat) (encodedBuffer : Bytes) (rawSize : Nat) (firstByte : UInt8) : Bytes :=
  let encodedBuffer := encodedBuffer ++ [firstByte]
  if rawSize ≤ 125 then encodedBuffer ++ [UInt8.ofNat rawSize]
  else if rawSize ≤ 65535 then encodedBuffer ++ [126] ++ object 2 (Sockops.htons rawSize)
  else encodedBuffer ++ [127] ++ object 8 (hton64 rawSize)

/-- `send`: the calls of `conn->send`. -/
def Context.send (hton64 : Nat → Nat) (ctx : Context) (message : Bytes) : List Bytes × Context :=
  let encodedBuffer := encode hton64 ctx.encodedBuffer message.length (0x80 ||| opcodeOf ctx.isBinaryType)
  let sends :=
    if message.length ≥ bufferedSize then [encodedBuffer, message] else [encodedBuffer ++ message]
  (sends, { ctx with encodedBuffer := [] })

/-- The `switch` of `send_fragment`: the first byte of the frame and the next
value of `sndfragment`. -/
def SndFragment.firstByte (isBinaryType : Bool) : SndFragment → UInt8 × SndFragment
  | firstFragment => (opcodeOf isBinaryType, middleFragment)
  | middleFragment => (0x00, middleFragment)
  | finalFragment => (0x80, firstFragment)

/-- `send_fragment`: the calls of `conn->send`. -/
def Context.sendFragment (hton64 : Nat → Nat) (ctx : Context) (fragment : Bytes)
    (finalFragment : Bool) : List Bytes × Context :=
  -- A final fragment is one whatever came before it.
  let sndfragment := if finalFragment then .finalFragment else ctx.sndfragment
  let (firstByte, sndfragment) := sndfragment.firstByte ctx.isBinaryType
  let ctx := { ctx with sndfragment := sndfragment }
  let encodedBuffer := encode hton64 ctx.encodedBuffer fragment.length firstByte
  if fragment.length ≥ bufferedSize then
    ([encodedBuffer, fragment], { ctx with encodedBuffer := [] })
  else
    let encodedBuffer := encodedBuffer ++ fragment
    if finalFragment ∨ encodedBuffer.length ≥ bufferedSize then
      ([encodedBuffer], { ctx with encodedBuffer := [] })
    else ([], { ctx with encodedBuffer := encodedBuffer })

/-- The `switch` of `decode_payload_len`: the offset behind the length and the
length itself; `none` where the length has not arrived. -/
def extendedLen (ntoh64 : Nat → Nat) (payloadLen : Nat) (b : Bytes) : Option (Nat × Nat) :=
  if payloadLen = 127 then
    if b.length < 10 then none else some (10, ntoh64 (load ((b.drop 2).take 8)) % 2 ^ 64)
  else if payloadLen = 126 then
    if b.length < 4 then none else some (4, Sockops.ntohs (load ((b.drop 2).take 2)))
  else some (2, payloadLen)

/-- `decode_payload_len`: the length of the payload and the offsets of the
masking key and of the payload; `none` is `false`. -/
def decodePayloadLen (ntoh64 : Nat → Nat) (payloadLen : Nat) (b : Bytes) (mask : Bool) :
    Option (Nat × Nat × Nat) :=
  match extendedLen ntoh64 payloadLen b with
  | none => none
  | some (i, payloadLen) =>
      let keyLen := if mask then 4 else 0
      if b.length < (i + keyLen + payloadLen) % 2 ^ 64 then none
      else some (payloadLen, i, i + keyLen)

def checkFragmentation (fragment fin : Bool) (opcode : Nat) : Bool :=
  if !fin then
    if !fragment then opcode != 0 else opcode == 0
  else if fragment then opcode == 0
  else true

/-- `b[i] ^ masking_key[i % 4]` for each byte. -/
def applyMask (maskingKey payload : Bytes) : Bytes :=
  payload.mapIdx fun i b => b ^^^ maskingKey.getD (i % 4) 0

/-- The payload behind `decoded_buffer`; `payloadLen` bytes are read at `data`. -/
def appendPayload (decoded rawBuf : Bytes) (mask : Bool) (payloadLen key data : Nat) :
    Except Fault Bytes :=
  -- `reserve`
  if maxSize < (decoded.length + payloadLen) % 2 ^ 64 then .error .lengthError
  else
    let payload := (rawBuf.drop data).take payloadLen
    if mask then
      if rawBuf.length < data + payloadLen then .error .outOfBounds
      else .ok (decoded ++ applyMask ((rawBuf.drop key).take 4) payload)
    else
      -- `append`
      if maxSize - decoded.length < payloadLen then .error .lengthError
      else if rawBuf.length < data + payloadLen then .error .outOfBounds
      else .ok (decoded ++ payload)

/-- `decode`: its result, the context and what is left in the buffer. -/
def Context.decode (ntoh64 : Nat → Nat) (ctx : Context) (rawBuf : Bytes) :
    Except Fault (Code × Context × Bytes) :=
  if rawBuf.length < 2 then .ok (.notEnough, ctx, rawBuf)
  else
    let fin : Bool := (rawBuf.getD 0 0) >>> 7 ≠ 0
    let opcode := (rawBuf.getD 0 0 &&& 0x0f).toNat
    if !checkFragmentation ctx.rcvfragment fin opcode then .ok (.error, ctx, rawBuf)
    else
      let mask : Bool := (rawBuf.getD 1 0) >>> 7 ≠ 0
      let payloadLen := (rawBuf.getD 1 0 &&& 0x7f).toNat
      if opcode ≥ 8 ∧ payloadLen > 125 then .ok (.error, ctx, rawBuf)
      else
        match decodePayloadLen ntoh64 payloadLen rawBuf mask with
        | none => .ok (.notEnough, ctx, rawBuf)
        | some (payloadLen, key, data) => do
            let decoded := if ctx.rcvfragment then ctx.decodedBuffer else []
            let decoded ← appendPayload decoded rawBuf mask payloadLen key data
            let rawBuf := rawBuf.drop ((data + payloadLen) % 2 ^ 64)
            let ctx := { ctx with decodedBuffer := decoded, rcvfragment := !fin }
            match opcode with
            | 0x1 => .ok (.ok, { ctx with isBinaryType := false }, rawBuf)
            | 0x2 => .ok (.ok, { ctx with isBinaryType := true }, rawBuf)
            | 0x8 => .ok (.close, ctx, rawBuf)
            | 0x9 => .ok (.ping, ctx, rawBuf)
            | 0xA => .ok (.pong, ctx, rawBuf)
            | _ => .ok (.ok, ctx, rawBuf)

/-- `starts_with_case`. -/
def startsWithCase (buf s : Bytes) : Bool :=
  s.length ≤ buf.length && strncasecmpEq (buf.take s.length) s

def guid : Bytes := ascii "258EAFA5-E914-47DA-95CA-C5AB0DC85B11"

/-- `sec_websocket_accept`. The static `sha1` object is in its initial state
before every call: nothing else uses it, and a digest resets it. -/
def secWebSocketAccept (hton64 : Nat → Nat) (key : Bytes) : Except Fault Bytes :=
  match (Sha1.update Sha1.fresh (key ++ guid)).bind (Sha1.digest hton64) with
  | .ok (digest, _) => .ok (Base64.encode digest)
  | .error .lengthError => .error .lengthError
  | .error _ => .error .outOfBounds

/-- The headers that a handshake has to have. -/
inductive Required where
  | host
  | connection
  | upgrade
  | secWebSocketKey
  | secWebSocketVersion
  | origin
  deriving DecidableEq, Repr

namespace Required

/-- The name and its colon, as the line is compared with it. -/
def field : Required → Bytes
  | host => ascii "Host:"
  | connection => ascii "Connection:"
  | upgrade => ascii "Upgrade:"
  | secWebSocketKey => ascii "Sec-WebSocket-Key:"
  | secWebSocketVersion => ascii "Sec-WebSocket-Version:"
  | origin => ascii "Origin:"

/-- In the order of the comparisons. -/
def all : List Required :=
  [host, connection, upgrade, secWebSocketKey, secWebSocketVersion, origin]

/-- What the code does with the value of such a header; `none` is
`HandshakeError`. -/
def enter (hton64 : Nat → Nat) (ctx : Context) (value : Bytes) :
    Required → Except Fault (Option Context)
  | host => .ok (some { ctx with host := value })
  | connection => .ok (if equalCase value (ascii "Upgrade") then some ctx else none)
  | upgrade => .ok (if equalCase value (ascii "websocket") then some ctx else none)
  | secWebSocketKey => do
      let accept ← secWebSocketAccept hton64 value
      .ok (some { ctx with secWebSocketAccept := accept })
  | secWebSocketVersion => .ok (if (svtoi value).getD 0 = 13 then some ctx else none)
  | origin => .ok (some { ctx with origin := value })

end Required

/-- The request line; its end is at `crlf`. -/
def requestLine (ctx : Context) (buf : Bytes) (crlf : Nat) :
    Except Fault (State × Context × Bytes) :=
  let ctx := { ctx with readRequestLine := false }
  if !startsWith buf (ascii "GET ") then .ok (.handshakeError, ctx, buf)
  -- `std::find` over a range that ends before it starts
  else if crlf < 8 then .error .outOfBounds
  else
    let range := (buf.drop 4).take (crlf - 8)
    let p := 4 + (find (ascii " ") range).getD range.length
    let version := (buf.take crlf).drop (p + 1)
    if version ≠ ascii "HTTP/1.1" then .ok (.handshakeError, ctx, buf)
    else .ok (.handshake, ctx, buf.drop (crlf + 2))

/-- A header line; its end is at `crlf`. -/
def headerLine (hton64 : Nat → Nat) (ctx : Context) (buf : Bytes) (crlf : Nat) :
    Except Fault (State × Context × Bytes) :=
  match Required.all.find? fun r => startsWithCase buf r.field with
  | none => .ok (.handshake, ctx, buf.drop (crlf + 2))
  | some r => do
      let ctx := { ctx with requiredRequestHeaders := ctx.requiredRequestHeaders - 1 }
      let value := trim ((buf.take crlf).drop r.field.length)
      match ← r.enter hton64 ctx value with
      | none => .ok (.handshakeError, ctx, buf)
      | some ctx => .ok (.handshake, ctx, buf.drop (crlf + 2))

/-- `handshake(buf, crlf)`: one line. -/
def handshakeLine (hton64 : Nat → Nat) (ctx : Context) (buf : Bytes) (crlf : Nat) :
    Except Fault (State × Context × Bytes) :=
  if ctx.readRequestLine then requestLine ctx buf crlf
  else if startsWith buf CRLF then
    .ok (if ctx.requiredRequestHeaders = 0 then .handshakeOK else .handshakeError, ctx, buf.drop 2)
  else headerLine hton64 ctx buf crlf

/-- What the context does to the outside: the calls of the handlers, with what
`onmessage` finds in the context, and of `send` and `close`. -/
inductive Event where
  | onopen
  | onmessage (decodedBuffer : Bytes) (isBinaryType : Bool)
  | onclose
  | onerror
  | send (bytes : Bytes)
  | close
  deriving DecidableEq, Repr

/-- A connection: its context, the input buffer and what has been done. -/
structure Connection where
  ctx : Context
  buf : Bytes
  events : List Event
  deriving DecidableEq, Repr

/-- The handlers that the user of the server has set. -/
structure Handlers where
  onopen : Visible → Visible
  onmessage : Visible → Visible
  onclose : Visible → Visible
  onerror : Visible → Visible

def Connection.emit (c : Connection) (events : List Event) : Connection :=
  { c with events := c.events ++ events }

/-- A handler runs on the context. -/
def Connection.call (c : Connection) (handler : Visible → Visible) (event : Event) : Connection :=
  { c with ctx := { c.ctx with toVisible := handler c.ctx.toVisible }, events := c.events ++ [event] }

/-- The answer to a handshake. -/
def switchingProtocols (accept : Bytes) : Bytes :=
  ascii "HTTP/1.1 101 Switching Protocols\r\n" ++ ascii "Connection: Upgrade\r\n" ++
    ascii "Upgrade: websocket\r\n" ++ ascii "Sec-WebSocket-Accept: " ++ accept ++ ascii "\r\n\r\n"

section

variable (hton64 ntoh64 : Nat → Nat) (handlers : Handlers)

/-- A pass of the loop in `handshake(conn, buf)`. -/
def handshakePass (c : Connection) : Pass Connection (Except Fault (State × Connection)) :=
  if c.buf = [] then .done (.ok (.handshake, c))
  else
    match findCrlf c.buf with
    | none => .done (.ok (.handshake, c))
    | some crlf =>
        match handshakeLine hton64 c.ctx c.buf crlf with
        | .error fault => .done (.error fault)
        | .ok (state, ctx, buf) =>
            let c := { c with ctx := { ctx with state := state }, buf := buf }
            match state with
            | .handshakeOK =>
                let c := { c with ctx := { c.ctx with state := .establish } }
                .done (.ok (.handshakeOK, c.emit [.send (switchingProtocols ctx.secWebSocketAccept)]))
            | .handshakeError =>
                .done (.ok (.handshakeError, c.emit [.send (ascii "HTTP/1.1 400 Bad Request\r\n\r\n")]))
            | _ => .again c

/-- `handshake(conn, buf)`: every pass that goes round again reads a line. -/
def handshake (c : Connection) : Except Fault (State × Connection) :=
  (loop (handshakePass hton64) (c.buf.length + 1) c).getD (.error .spins)

/-- The two bytes of a control frame that is sent as a `uint16_t`. -/
def controlReply (first : Nat) : Bytes := object 2 (first <<< 8 ||| 0x00)

/-- A pass of the loop in `message_handler`. -/
def messagePass (c : Connection) : Pass Connection (Except Fault Connection) :=
  if c.buf = [] then .done (.ok c)
  else
    match c.ctx.state with
    | .handshake =>
        match handshake hton64 c with
        | .error fault => .done (.error fault)
        | .ok (.handshakeOK, c) => .again (c.call handlers.onopen .onopen)
        | .ok (.handshakeError, c) => .done (.ok ((c.call handlers.onerror .onerror).emit [.close]))
        | .ok (_, c) => .done (.ok c)
    | .establish =>
        match c.ctx.decode ntoh64 c.buf with
        | .error fault => .done (.error fault)
        | .ok (code, ctx, buf) =>
            let c := { c with ctx := ctx, buf := buf }
            match code with
            | .ok =>
                if !ctx.rcvfragment then
                  .again (c.call handlers.onmessage (.onmessage ctx.decodedBuffer ctx.isBinaryType))
                else .again c
            | .close =>
                .done (.ok ((c.call handlers.onclose .onclose).emit [.send (controlReply 0x88), .close]))
            | .ping => .again (c.emit [.send (controlReply 0x8A)])
            | .pong => .again c
            | .error => .done (.ok ((c.call handlers.onerror .onerror).emit [.close]))
            | .notEnough => .done (.ok c)
    -- No `case` for the other states: the loop goes round with nothing done.
    | _ => .again c

/-- `message_handler`. A pass that does something and goes round again takes
bytes from the buffer. -/
def messageHandler (c : Connection) : Except Fault Connection :=
  (loop (messagePass hton64 ntoh64 handlers) (c.buf.length + 1) c).getD (.error .spins)

/-- A segment arrives. A connection that waits for its output to drain before it
closes is still read from. -/
def receive (c : Except Fault Connection) (segment : Bytes) : Except Fault Connection :=
  c.bind fun c => messageHandler hton64 ntoh64 handlers { c with buf := c.buf ++ segment }

end

end Angel.Websocket
