import Angel.Basic
import Angel.Lib.Run

/-!
The sending half of `connection`: direct writes, the three queues that share
one id counter, the completion handlers and the close protocol, as the loop
thread executes them. `write` and `sendfile` take their result from the event
that causes the call, so a run is one interleaving of calls with one choice of
every result. What the connection does to the outside is appended to a trace.

`handle_write` calls a completion handler in its middle. It is cut there: the
first half is `handleWrite`, the handler's own calls are the events that follow
and the second half is `handlerReturn`.
-/

namespace Angel.Connection

variable {H : Type}

inductive State where
  | connected
  | closing
  | closed
  deriving DecidableEq, Repr

/-- The outcome of one `write(2)` or `sendfile(2)`: a number of bytes, one of
`EAGAIN`, `EWOULDBLOCK`, `EINTR`, or any other error. -/
inductive IoResult where
  | sent (n : Nat)
  | again
  | error
  deriving DecidableEq, Repr

/-- `connection::file`: the part of a file that is still to be sent. -/
structure File where
  fd : Nat
  offset : Nat
  count : Nat
  deriving DecidableEq, Repr

/-- What happens at the boundary of the connection. -/
inductive Action (H : Type) where
  | submit (payload : Bytes)
  | accept (bytes : Bytes)
  | register (id : Nat) (handler : H)
  | invoke (id : Nat) (handler : H)
  | highWaterMark
  | cancelTimer (id : Nat)
  | close
  | closed
  deriving DecidableEq, Repr

/-- The members of `connection` that the send path reads or writes, with the
trace. `writing` is the write bit of the channel's filter; `running` tells that
the loop thread is inside the completion handler at the head of its queue. -/
structure Conn (H : Type) where
  state : State
  writing : Bool
  outputBuf : Bytes
  byteStreamQueue : List (Nat × Nat)
  sendFileQueue : List (Nat × File)
  sendCompleteHandlerQueue : List (Nat × H)
  sendId : Nat
  nextId : Nat
  highWaterMark : Nat
  highWaterMarkHandler : Bool
  ttlTimerId : Nat
  running : Bool
  trace : List (Action H)
  deriving DecidableEq, Repr

/-- A connection as its constructor leaves it. The idle timer and the high
water mark are set by the user afterwards. -/
def Conn.init (highWaterMark : Nat) (highWaterMarkHandler : Bool) (ttlTimerId : Nat) :
    Conn H where
  state := .connected
  writing := false
  outputBuf := []
  byteStreamQueue := []
  sendFileQueue := []
  sendCompleteHandlerQueue := []
  sendId := 1
  nextId := 1
  highWaterMark := highWaterMark
  highWaterMarkHandler := highWaterMarkHandler
  ttlTimerId := ttlTimerId
  running := false
  trace := []

def Conn.emit (c : Conn H) (a : Action H) : Conn H := { c with trace := c.trace ++ [a] }

def Conn.isClosed (c : Conn H) : Bool := c.state = .closed

def Conn.isClosing (c : Conn H) : Bool := c.state = .closing

def Conn.sendQueueIsEmpty (c : Conn H) : Bool :=
  c.byteStreamQueue.isEmpty && c.sendFileQueue.isEmpty

def Conn.enableWrite (c : Conn H) : Conn H := { c with writing := true }

def Conn.disableWrite (c : Conn H) : Conn H := { c with writing := false }

/-- `if (ttl_timer_id > 0)` of `handle_close`. -/
def Conn.cancelTtlTimer (c : Conn H) : Conn H :=
  if 0 < c.ttlTimerId then { c.emit (.cancelTimer c.ttlTimerId) with ttlTimerId := 0 } else c

/-- Entering `Closed` takes the channel out of the loop. -/
def Conn.enterClosed (c : Conn H) : Conn H :=
  { c.emit .closed with state := .closed, writing := false }

def Conn.handleClose (c : Conn H) (isForced : Bool) : Conn H :=
  if c.isClosed then c
  else
    let c := c.cancelTtlTimer
    if !isForced && !c.sendQueueIsEmpty then { c with state := .closing }
    else c.enterClosed

def Conn.forceCloseConnection (c : Conn H) : Conn H := c.handleClose true

/-- `handle_error` after a failed system call. -/
def Conn.handleError (c : Conn H) (r : IoResult) : Conn H :=
  match r with
  | .error => c.forceCloseConnection
  | _ => c

/-- One system call that offers `data` to the socket: the common part of
`connection::write` and `connection::sendfile`. -/
def Conn.transfer (c : Conn H) (data : Bytes) (r : IoResult) : Conn H × Int :=
  match r with
  | .sent n => (c.emit (.accept (data.take n)), (data.take n).length)
  | _ =>
      let c := c.handleError r
      (c, if c.isClosed then -2 else -1)

def Conn.write (c : Conn H) (data : Bytes) (r : IoResult) : Conn H × Int :=
  c.transfer data r

section Files

-- The contents of the open files.
variable (files : Nat → Bytes)

/-- The file bytes `[offset, offset + count)`. -/
def File.slice (f : File) : Bytes := ((files f.fd).drop f.offset).take f.count

def Conn.sendfile (c : Conn H) (f : File) (r : IoResult) : Conn H × Int :=
  c.transfer (f.slice files) r

/-- `len` bytes at `data + n`. The pointer starts one byte early when `n` is
-1: `before` is the byte in memory in front of the argument. -/
def bytesAt (before : UInt8) (data : Bytes) (n : Int) (len : Nat) : Bytes :=
  ((before :: data).drop (n + 1).toNat).take len

/-- The second half of `send_in_loop`: queue what is left. -/
def Conn.queueBytes (c : Conn H) (bytes : Bytes) : Conn H :=
  let c := { c with
    outputBuf := c.outputBuf ++ bytes
    byteStreamQueue := c.byteStreamQueue ++ [(c.sendId, bytes.length)]
    sendId := c.sendId + 1 }
  let c := c.enableWrite
  if 0 < c.highWaterMark ∧ c.highWaterMark ≤ c.outputBuf.length ∧
      c.highWaterMarkHandler = true then
    c.emit .highWaterMark
  else c

def Conn.sendInLoop (c : Conn H) (before : UInt8) (data : Bytes) (r : IoResult) : Conn H :=
  if c.isClosed then c
  else
    let c := c.emit (.submit data)
    let (c, n) := if !c.writing && c.sendQueueIsEmpty then c.write data r else (c, 0)
    if n = -2 then c
    else
      let len := if 0 < n then data.length - n.toNat else data.length
      if 0 < len then c.queueBytes (bytesAt before data n len) else c

def Conn.queueFile (c : Conn H) (f : File) : Conn H :=
  let c := { c with
    sendFileQueue := c.sendFileQueue ++ [(c.sendId, f)]
    sendId := c.sendId + 1 }
  c.enableWrite

def Conn.sendFileInLoop (c : Conn H) (f : File) (r : IoResult) : Conn H :=
  if c.isClosed then c
  else
    let c := c.emit (.submit (f.slice files))
    let (c, n) := if !c.writing && c.sendQueueIsEmpty then c.sendfile files f r else (c, 0)
    if n = -2 then c
    else
      let f : File :=
        if 0 < n then ⟨f.fd, f.offset + n.toNat, f.count - n.toNat⟩ else f
      if 0 < f.count then c.queueFile f else c

def Conn.setSendCompleteHandler (c : Conn H) (handler : H) : Conn H :=
  let c := c.emit (.register c.sendId handler)
  let c := { c with
    sendCompleteHandlerQueue := c.sendCompleteHandlerQueue ++ [(c.sendId, handler)]
    sendId := c.sendId + 1 }
  c.enableWrite

/-- `close()` in the loop thread. -/
def Conn.close (c : Conn H) : Conn H := (c.emit .close).handleClose false

/-- The byte stream part of `handle_write`; the flag tells it returned. -/
def Conn.writeByteStream (c : Conn H) (r : IoResult) : Conn H × Bool :=
  match c.byteStreamQueue with
  | [] => (c, false)
  | (id, len) :: rest =>
      if id = c.nextId then
        let (c, n) := c.write (c.outputBuf.take len) r
        if 0 < n then
          let c := { c with outputBuf := c.outputBuf.drop n.toNat }
          if len - n.toNat = 0 then
            ({ c with byteStreamQueue := rest, nextId := c.nextId + 1 }, false)
          else ({ c with byteStreamQueue := (id, len - n.toNat) :: rest }, false)
        else (c, n = -2)
      else (c, false)

/-- The file part of `handle_write`; the flag tells it returned. -/
def Conn.writeFile (c : Conn H) (r : IoResult) : Conn H × Bool :=
  match c.sendFileQueue with
  | [] => (c, false)
  | (id, f) :: rest =>
      if id = c.nextId then
        let (c, n) := c.sendfile files f r
        if 0 < n then
          let f : File := ⟨f.fd, f.offset + n.toNat, f.count - n.toNat⟩
          if f.count = 0 then
            ({ c with sendFileQueue := rest, nextId := c.nextId + 1 }, false)
          else ({ c with sendFileQueue := (id, f) :: rest }, false)
        else (c, n = -2)
      else (c, false)

/-- The end of `handle_write`: with nothing left the write event is disabled
and a closing connection is closed. -/
def Conn.finishWrite (c : Conn H) : Conn H :=
  if c.sendQueueIsEmpty && c.sendCompleteHandlerQueue.isEmpty then
    let c := c.disableWrite
    if c.isClosing then c.forceCloseConnection else c
  else c

/-- `handle_write` from the completion handlers on, up to the call of the
handler at the head. -/
def Conn.callHandler (c : Conn H) : Conn H :=
  match c.sendCompleteHandlerQueue with
  | (id, handler) :: _ =>
      if id = c.nextId then { c.emit (.invoke id handler) with running := true }
      else c.finishWrite
  | [] => c.finishWrite

/-- `handle_write` up to the call of a completion handler, or to its end when
none is called. -/
def Conn.handleWrite (c : Conn H) (w f : IoResult) : Conn H :=
  if c.isClosed || !c.writing then c
  else
    let (c, returned) := c.writeByteStream w
    if returned then c
    else
      let (c, returned) := c.writeFile files f
      if returned then c else c.callHandler

/-- `handle_write` from the return of the completion handler on. -/
def Conn.handlerReturn (c : Conn H) : Conn H :=
  Conn.finishWrite { c with
    running := false
    sendCompleteHandlerQueue := c.sendCompleteHandlerQueue.tail
    nextId := c.nextId + 1 }

/-- One entry into the connection from its loop. Calls of the user are made
between loop events or from inside a completion handler; loop events and the
return of a handler are made only where the thread can be. -/
inductive Event (H : Type) where
  | send (before : UInt8) (data : Bytes) (r : IoResult)
  | sendFile (f : File) (r : IoResult)
  | setSendCompleteHandler (handler : H)
  | close
  | writable (w f : IoResult)
  | handlerReturn
  /-- the peer closed or reset the connection, or reading failed -/
  | reset
  deriving DecidableEq, Repr

def Conn.step (c : Conn H) : Event H → Conn H
  | .send before data r => c.sendInLoop before data r
  | .sendFile f r => c.sendFileInLoop files f r
  | .setSendCompleteHandler handler => c.setSendCompleteHandler handler
  | .close => c.close
  | .writable w f => if c.running then c else c.handleWrite files w f
  | .handlerReturn => if c.running then c.handlerReturn else c
  | .reset => if c.running then c else c.forceCloseConnection

end Files

end Angel.Connection
