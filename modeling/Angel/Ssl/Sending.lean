import Angel.Connection.Model
import Mathlib.Data.List.TakeDrop
import Mathlib.Data.PNat.Defs

/-!
The sending half of `ssl_connection`. It is that of `connection`, where `write` and `sendfile` are
virtual: those of `ssl_connection` both end in `SSL_write`, a file part behind a mapping of at most
`ChunkSize` bytes of it. What `SSL_write` comes to is taken from the event. Each call is put down
with the bytes it was given, since OpenSSL wants a call that could not be finished to be repeated
with the same ones.
-/

namespace Angel.Ssl

open Lib Connection

variable {H : Type}

/-- What `SSL_write` comes to, with `SSL_get_error`. -/
inductive WriteResult where
  | written (n : ℕ+)
  | wantRead
  | wantWrite
  | failed
  deriving DecidableEq

/-- OpenSSL wants the call to be repeated. -/
def WriteResult.Wants (r : WriteResult) : Prop := r = .wantRead ∨ r = .wantWrite

instance (r : WriteResult) : Decidable r.Wants := inferInstanceAs (Decidable (_ ∨ _))

/-- Where the bytes of a call stand in memory: with the user, behind some byte, in `output_buf`, or
in the mapping of a file. -/
inductive Origin where
  | user (before : UInt8)
  | outputBuf
  | mapped
  deriving DecidableEq

/-- A call of `SSL_write`. -/
structure Call where
  origin : Origin
  bytes : Bytes
  result : WriteResult
  deriving DecidableEq

/-- An `ssl_connection`, with the calls of `SSL_write` that it has made. -/
structure Session (H : Type) where
  conn : Conn H
  calls : List Call
  deriving DecidableEq

def chunkSize : Nat := 1024 * 32

/-- `util::page_aligned`. -/
def pageAligned (pagesize offset : Nat) : Nat := offset / pagesize * pagesize

/-- What a mapping shows of a file. Behind the end of the file there are zeros. -/
def mmap (content : Bytes) (offset size : Nat) : Bytes := (content.drop offset).takeD size 0

/-- The events of `connection`, with what `SSL_write` comes to. -/
inductive Event (H : Type) where
  | send (before : UInt8) (data : Bytes) (r : WriteResult)
  | sendFile (f : File) (r : WriteResult)
  | setSendCompleteHandler (handler : H)
  | close
  | writable (w f : WriteResult)
  | handlerReturn
  | reset
  deriving DecidableEq

namespace Session

def init (highWaterMark : Nat) (highWaterMarkHandler : Bool) (ttlTimerId : Nat) : Session H where
  conn := .init highWaterMark highWaterMarkHandler ttlTimerId
  calls := []

/-- Code of `connection` that `ssl_connection` does not override. -/
def update (s : Session H) (f : Conn H → Conn H) : Session H := { s with conn := f s.conn }

/-- `ssl_connection::write`. -/
def write (s : Session H) (origin : Origin) (data : Bytes) (r : WriteResult) : Session H × Int :=
  let s := { s with calls := s.calls ++ [⟨origin, data, r⟩] }
  match r with
  | .written n => (s.update (·.emit (.accept (data.take n))), (data.take n).length)
  | .wantRead => (s, -1)
  | .wantWrite => (s, -1)
  | .failed => (s.update Conn.forceCloseConnection, -2)

section Files

variable (pagesize : Nat) (files : Nat → Bytes)

/-- `ssl_connection::sendfile`. -/
def sendfile (s : Session H) (f : File) (r : WriteResult) : Session H × Int :=
  let fixOff := pageAligned pagesize f.offset
  let diff := f.offset - fixOff
  let size := min chunkSize f.count + diff
  let start := mmap (files f.fd) fixOff size
  s.write .mapped ((start.drop diff).take (size - diff)) r

/-- `connection::send_in_loop`. -/
def sendInLoop (s : Session H) (before : UInt8) (data : Bytes) (r : WriteResult) : Session H :=
  if s.conn.isClosed then s
  else
    let s := s.update (·.emit (.submit data))
    let (s, n) :=
      if !s.conn.writing && s.conn.sendQueueIsEmpty then s.write (.user before) data r else (s, 0)
    if n = -2 then s
    else
      let len := if 0 < n then data.length - n.toNat else data.length
      if 0 < len then s.update (·.queueBytes (bytesAt before data n len)) else s

/-- `connection::send_file_in_loop`. -/
def sendFileInLoop (s : Session H) (f : File) (r : WriteResult) : Session H :=
  if s.conn.isClosed then s
  else
    let s := s.update (·.emit (.submit (f.slice files)))
    let (s, n) :=
      if !s.conn.writing && s.conn.sendQueueIsEmpty then s.sendfile pagesize files f r else (s, 0)
    if n = -2 then s
    else
      let f : File :=
        if 0 < n then ⟨f.fd, f.offset + n.toNat, f.count - n.toNat⟩ else f
      if 0 < f.count then s.update (·.queueFile f) else s

/-- The byte stream part of `connection::handle_write`. -/
def writeByteStream (s : Session H) (r : WriteResult) : Session H × Bool :=
  match s.conn.byteStreamQueue with
  | [] => (s, false)
  | (id, len) :: rest =>
      if id = s.conn.nextId then
        let (s, n) := s.write .outputBuf (s.conn.outputBuf.take len) r
        if 0 < n then
          let s := s.update fun c => { c with outputBuf := c.outputBuf.drop n.toNat }
          if len - n.toNat = 0 then
            (s.update fun c => { c with byteStreamQueue := rest, nextId := c.nextId + 1 }, false)
          else (s.update fun c => { c with byteStreamQueue := (id, len - n.toNat) :: rest }, false)
        else (s, n = -2)
      else (s, false)

/-- The file part of `connection::handle_write`. -/
def writeFile (s : Session H) (r : WriteResult) : Session H × Bool :=
  match s.conn.sendFileQueue with
  | [] => (s, false)
  | (id, f) :: rest =>
      if id = s.conn.nextId then
        let (s, n) := s.sendfile pagesize files f r
        if 0 < n then
          let f : File := ⟨f.fd, f.offset + n.toNat, f.count - n.toNat⟩
          if f.count = 0 then
            (s.update fun c => { c with sendFileQueue := rest, nextId := c.nextId + 1 }, false)
          else (s.update fun c => { c with sendFileQueue := (id, f) :: rest }, false)
        else (s, n = -2)
      else (s, false)

/-- `connection::handle_write`, up to the call of a completion handler. -/
def handleWrite (s : Session H) (w f : WriteResult) : Session H :=
  if s.conn.isClosed || !s.conn.writing then s
  else
    let (s, returned) := s.writeByteStream w
    if returned then s
    else
      let (s, returned) := s.writeFile pagesize files f
      if returned then s else s.update Conn.callHandler

def step (s : Session H) : Event H → Session H
  | .send before data r => s.sendInLoop before data r
  | .sendFile f r => s.sendFileInLoop pagesize files f r
  | .setSendCompleteHandler handler => s.update (·.setSendCompleteHandler handler)
  | .close => s.update Conn.close
  | .writable w f => if s.conn.running then s else s.handleWrite pagesize files w f
  | .handlerReturn => if s.conn.running then s.update Conn.handlerReturn else s
  | .reset => if s.conn.running then s else s.update Conn.forceCloseConnection

end Files

end Session

end Angel.Ssl
