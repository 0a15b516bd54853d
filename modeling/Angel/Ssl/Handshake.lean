import Angel.Lib.Partial
import Mathlib.Data.Option.Basic
import Mathlib.Logic.Function.Basic

/-!
The handshakes of an `ssl_server` in one loop. Each accepted descriptor has a channel with an
`ssl_handshake`, which `shmap` owns by the descriptor until the handshake succeeds or fails; then a
connection owns it, or it is deleted. The operating system hands a descriptor out again when it is
closed.

A step has no result where the code uses an object that is deleted, or an assertion of it fails. The
connection handler is called from inside `handshake`, which goes on to use the handshake behind it.
-/

namespace Angel.SslServer

open Lib

/-- What a channel waits for. -/
inductive Want where
  | read
  | write
  deriving DecidableEq, Repr

/-- What the connection handler leaves of the connection it is given. The pointers that the server
has to a closed connection are gone; the handler may have kept one of its own. -/
inductive Handled where
  | stays
  | closed (kept : Bool)
  deriving DecidableEq, Repr

/-- What `SSL_do_handshake` comes to, with `SSL_get_error`. -/
inductive HandshakeResult where
  | done (handled : Handled)
  | wants (want : Want)
  | failed
  deriving DecidableEq, Repr

/-- Whose handlers a channel has. -/
inductive Phase where
  | shaking
  /-- those of a connection, which owns this handshake -/
  | established (sh : Nat)
  /-- those of nobody any more: `channel::remove` has been called -/
  | removed
  deriving DecidableEq, Repr

/-- A channel, with what its handshake wanted last. -/
structure Channel where
  fd : Nat
  phase : Phase
  reading : Bool
  writing : Bool
  lastWant : Option Want
  deriving DecidableEq, Repr

/-- An `ssl_handshake`: the channel it owns, and whether it has an `SSL` object. -/
structure Handshake where
  channel : Option Nat
  ssl : Bool
  deriving DecidableEq, Repr

/-- A channel, its handshake and its connection have one number; `none` is what is not made yet, or
is deleted. A connection is given with the handshake it owns. In `tasks` are the channels that the
loop is to delete, and close their descriptors. -/
structure Server where
  nextChannel : Nat
  channels : Nat → Option Channel
  handshakes : Nat → Option Handshake
  shmap : Nat → Option Nat
  connections : Nat → Option Nat
  tasks : List Nat

inductive Event where
  /-- a descriptor is accepted, and the first call of `SSL_do_handshake` comes to this -/
  | accept (fd : Nat) (r : HandshakeResult)
  /-- a channel in handshake is ready -/
  | ready (id : Nat) (r : HandshakeResult)
  /-- the connection has something to send, or nothing more -/
  | watchWrite (id : Nat) (enabled : Bool)
  /-- the connection is closed -/
  | close (id : Nat)
  /-- the last pointer to a closed connection goes -/
  | drop (id : Nat)
  /-- the loop deletes the next channel -/
  | run
  deriving DecidableEq, Repr

namespace Server

def init : Server where
  nextChannel := 0
  channels := fun _ => none
  handshakes := fun _ => none
  shmap := fun _ => none
  connections := fun _ => none
  tasks := []

def set (s : Server) (id : Nat) (chl : Channel) : Server :=
  { s with channels := Function.update s.channels id (some chl) }

def setHandshake (s : Server) (sh : Nat) (h : Option Handshake) : Server :=
  { s with handshakes := Function.update s.handshakes sh h }

/-- `channel::remove`. -/
def remove (s : Server) (id : Nat) : Option Server := do
  let chl ← s.channels id
  some { s.set id { chl with phase := .removed, reading := false, writing := false } with
    tasks := s.tasks ++ [id] }

/-- `ssl_handshake::shutdown`. -/
def shutdown (s : Server) (sh : Nat) : Option Server := do
  let h ← s.handshakes sh
  let s ← match h.channel with
    | some id => s.remove id
    | none => some s
  some (s.setHandshake sh (some ⟨none, false⟩))

/-- `ssl_handshake::~ssl_handshake`. -/
def deleteHandshake (s : Server) (sh : Nat) : Option Server := do
  let s ← s.shutdown sh
  some (s.setHandshake sh none)

/-- `ssl_server::create_connection`, which asserts that there is a handshake, and the constructor of
`ssl_connection`, which uses it. -/
def createConnection (s : Server) (id : Nat) : Option Server := do
  let chl ← s.channels id
  let sh ← s.shmap chl.fd
  let _ ← s.handshakes sh
  some { s.set id { chl with phase := .established sh } with
    shmap := Function.update s.shmap chl.fd none
    connections := Function.update s.connections id (some sh) }

/-- The connection goes, with the handshake it owns. -/
def dropConnection (s : Server) (id : Nat) : Option Server := do
  let sh ← s.connections id
  let s ← s.deleteHandshake sh
  some { s with connections := Function.update s.connections id none }

/-- `server::establish`. -/
def establish (s : Server) (id : Nat) (handled : Handled) : Option Server := do
  let s ← s.createConnection id
  match handled with
  | .stays => some s
  | .closed true => s.remove id
  | .closed false => do
      let s ← s.remove id
      s.dropConnection id

/-- `onfail`: what `shmap` has for the descriptor is deleted. -/
def fail (s : Server) (fd : Nat) : Option Server :=
  match s.shmap fd with
  | some sh => do
      let s ← s.deleteHandshake sh
      some { s with shmap := Function.update s.shmap fd none }
  | none => some s

/-- `ssl_handshake::handshake`. -/
def handshake (s : Server) (sh : Nat) (r : HandshakeResult) : Option Server := do
  let h ← s.handshakes sh
  let id ← h.channel
  let chl ← s.channels id
  guard h.ssl
  match r with
  | .done handled =>
      let s ← s.establish id handled
      -- `channel = nullptr`
      let h ← s.handshakes sh
      some (s.setHandshake sh (some { h with channel := none }))
  | .wants .read =>
      some (s.set id { chl with reading := true, writing := false, lastWant := some .read })
  | .wants .write =>
      some (s.set id { chl with writing := true, reading := false, lastWant := some .write })
  | .failed =>
      let s ← s.shutdown sh
      s.fail chl.fd

/-- `make_channel`, `ssl_server::establish` and the start of the handshake. -/
def accept (s : Server) (fd : Nat) (r : HandshakeResult) : Option Server :=
  let id := s.nextChannel
  match s.shmap fd with
  -- `emplace` deletes the handshake, which is then used
  | some _ => none
  | none =>
      let s := (s.set id ⟨fd, .shaking, true, false, none⟩).setHandshake id (some ⟨some id, true⟩)
      handshake { s with shmap := Function.update s.shmap fd (some id), nextChannel := id + 1 } id r

def step (s : Server) : Event → Option Server
  | .accept fd r => s.accept fd r
  | .ready id r => s.handshake id r
  | .watchWrite id enabled => do
      let chl ← s.channels id
      some (s.set id { chl with writing := enabled })
  | .close id => s.remove id
  | .drop id => s.dropConnection id
  | .run =>
      match s.tasks with
      | id :: tasks => do
          let _ ← s.channels id
          some { s with channels := Function.update s.channels id none, tasks := tasks }
      | [] => some s

def Shakes (s : Server) (id : Nat) : Prop := ∃ chl ∈ s.channels id, chl.phase = .shaking

def Established (s : Server) (id : Nat) : Prop := ∃ chl ∈ s.channels id, ∃ sh, chl.phase = .established sh

/-- When an event can happen. A descriptor that is accepted is that of no other channel. -/
def Possible (s : Server) : Event → Prop
  | .accept fd _ => ∀ id, ∀ chl ∈ s.channels id, chl.fd ≠ fd
  | .ready id _ => s.Shakes id
  | .watchWrite id _ => s.Established id
  | .close id => s.Established id
  | .drop id => (∃ sh, s.connections id = some sh) ∧ ¬ s.Established id
  | .run => True

end Server

/-- The connection handler closes the connection and keeps no pointer to it. -/
def Event.Drops : Event → Prop
  | .accept _ r => r = .done (.closed false)
  | .ready _ r => r = .done (.closed false)
  | _ => False

instance : (e : Event) → Decidable e.Drops
  | .accept _ _ | .ready _ _ => inferInstanceAs (Decidable (_ = _))
  | .watchWrite _ _ | .close _ | .drop _ | .run => inferInstanceAs (Decidable False)

/-- An event that can happen, without that. -/
def Server.Allowed (s : Server) (e : Event) : Prop := s.Possible e ∧ ¬ e.Drops

end Angel.SslServer
