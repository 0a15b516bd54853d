import Angel.Lib.Partial
import Mathlib.Data.Finset.Basic

/-!
The registry of `server`: connections are made in the main loop, live in the loop of their own, and
leave `connection_map` in the main loop again. The threads of the loops are interleaved as they
come; a thread that calls code of the user is cut there, and what follows the call is the frame that
it leaves.
-/

namespace Angel.Reactor

open Lib

/-- `0` is the loop of the server; the others are those of `io_loop_group`. -/
abbrev LoopId := Nat

abbrev ConnId := Nat

/-- Which of its handlers the user has given to the server. -/
structure Handlers where
  connection : Bool
  message : Bool
  close : Bool
  deriving DecidableEq, Repr

/-- A channel of `make_channel` and the connection on it. `added` tells that `add` has been run in its
loop, and `handled` that the constructor of the connection, which may still be running, has set the
handlers of the channel: from both on the loop calls them. A connection is `lost` when it was closed
without its close handler, which `establish` had not set yet. -/
structure Conn where
  loop : LoopId
  added : Bool
  handled : Bool
  constructed : Bool
  messageHandler : Bool
  closeHandler : Bool
  closed : Bool
  lost : Bool
  deriving DecidableEq, Repr

/-- What `make_channel` leaves. -/
def Conn.made (loop : LoopId) : Conn where
  loop := loop
  added := false
  handled := false
  constructed := false
  messageHandler := false
  closeHandler := false
  closed := false
  lost := false

/-- What `establish` has done last. -/
inductive Stage where
  /-- `make_channel` -/
  | made
  /-- the handlers of the channel are set, in `create_connection` -/
  | handled
  /-- `create_connection` -/
  | constructed
  /-- `set_message_handler` -/
  | messageSet
  /-- `set_close_handler` -/
  | closeSet
  /-- `connection_map.emplace` -/
  | listed
  deriving DecidableEq, Repr

/-- A functor in the queue of a loop. -/
inductive Task where
  /-- `channel::add` -/
  | add (id : ConnId)
  /-- `connection_handler(conn)` -/
  | connected (id : ConnId)
  /-- `connection::close`; `drained` tells whether the connection has nothing to send by then -/
  | close (id : ConnId) (drained : Bool)
  /-- `connection_map.erase(id)` -/
  | erase (id : ConnId)
  | forOne (id : ConnId)
  | forEach
  deriving DecidableEq, Repr

/-- What a thread goes on with when the code that it has called returns. -/
inductive Frame where
  /-- in `establish` -/
  | establishing (id : ConnId) (stage : Stage)
  /-- behind a handler or a functor of the user, with nothing -/
  | user
  /-- in `remove_connection`, behind `close_handler` -/
  | removing (id : ConnId)
  /-- in the loop of a `for_each`, with the iterator at `cur` -/
  | visiting (walk : Nat) (cur : ConnId) (rest : List ConnId)
  deriving DecidableEq, Repr

/-- Code of the user is running. -/
def Frame.inUser : Frame → Bool
  | .establishing _ _ => false
  | _ => true

/-- What the server tells the user about a connection. -/
inductive Notice where
  | connected
  | message
  /-- data that no handler was there for -/
  | discarded
  | closed
  deriving DecidableEq, Repr

/-- `server`, with the queues and the threads of the loops. The innermost frame comes first. `walks`
counts the calls of `for_each` that the main loop has begun, and `given` are the connections that the
functor of each has been called with. -/
structure Server where
  groupSize : Nat
  nextIndex : Nat
  connId : ConnId
  conns : ConnId → Option Conn
  connectionMap : Finset ConnId
  tasks : LoopId → List Task
  frames : LoopId → List Frame
  notices : List (ConnId × Notice)
  walks : Nat
  given : Nat → List ConnId

namespace Server

/-- A server that listens, with this many io loops. -/
def init (groupSize : Nat) : Server where
  groupSize := groupSize
  nextIndex := 0
  connId := 1
  conns := fun _ => none
  connectionMap := ∅
  tasks := fun _ => []
  frames := fun _ => []
  notices := []
  walks := 0
  given := fun _ => []

def set (s : Server) (id : ConnId) (c : Conn) : Server :=
  { s with conns := Function.update s.conns id (some c) }

def notify (s : Server) (id : ConnId) (notice : Notice) : Server :=
  { s with notices := s.notices ++ [(id, notice)] }

def queue (s : Server) (l : LoopId) (task : Task) : Server :=
  { s with tasks := Function.update s.tasks l (s.tasks l ++ [task]) }

def setFrames (s : Server) (l : LoopId) (frames : List Frame) : Server :=
  { s with frames := Function.update s.frames l frames }

def push (s : Server) (l : LoopId) (frame : Frame) : Server := s.setFrames l (frame :: s.frames l)

/-- `get_next_loop`, with `evloop_group::get_next_loop`. -/
def getNextLoop (s : Server) : Server × LoopId :=
  if 0 < s.groupSize then
    let i := if s.groupSize ≤ s.nextIndex then 0 else s.nextIndex
    ({ s with nextIndex := i + 1 }, i + 1)
  else (s, 0)

/-- `run_in_loop` of `connection_map.erase(id)` on the main loop, by the thread of `l`. -/
def runErase (s : Server) (l : LoopId) (id : ConnId) : Server :=
  if l = 0 then { s with connectionMap := s.connectionMap.erase id } else s.queue 0 (.erase id)

/-- `remove_connection`, up to `close_handler` if there is one. -/
def removeConnection (h : Handlers) (s : Server) (l : LoopId) (id : ConnId) : Server :=
  if h.close then (s.notify id .closed).push l (.removing id) else s.runErase l id

/-- `handle_close` where it closes, in the thread of `l`. -/
def enterClosed (h : Handlers) (s : Server) (l : LoopId) (id : ConnId) : Option Server := do
  let c ← s.conns id
  if c.closed then some s
  else
    let s := s.set id { c with closed := true, lost := !c.closeHandler }
    some (if c.closeHandler then s.removeConnection h l id else s)

def give (s : Server) (walk : Nat) (id : ConnId) : Server :=
  { s with given := Function.update s.given walk (s.given walk ++ [id]) }

/-- The loop of `for_each` goes on to the next element. What has been erased is not met. -/
def walk (s : Server) (walk : Nat) (rest : List ConnId) : Server :=
  match rest.dropWhile (· ∉ s.connectionMap) with
  | [] => s
  | cur :: rest => (s.give walk cur).push 0 (.visiting walk cur rest)

def beginWalk (s : Server) : Server :=
  { s with walks := s.walks + 1, given := Function.update s.given s.walks [] }

/-- `for_each` in the main loop. -/
def forEach (s : Server) (order : List ConnId) : Server := s.beginWalk.walk s.walks order

/-- A functor in the thread of `l`. The map is walked in `order` if that is what it does. -/
def exec (h : Handlers) (s : Server) (l : LoopId) (order : List ConnId) : Task → Option Server
  | .add id => do
      let c ← s.conns id
      some (s.set id { c with added := true })
  | .connected id => some ((s.notify id .connected).push l .user)
  | .close id drained => if drained then s.enterClosed h l id else some s
  | .erase id => some { s with connectionMap := s.connectionMap.erase id }
  | .forOne id => some (if id ∈ s.connectionMap then s.push l .user else s)
  | .forEach => some (s.forEach order)

/-- `run_in_loop` on the loop `l`, by the thread of a loop or by one of none. -/
def runInLoop (h : Handlers) (s : Server) (thread : Option LoopId) (l : LoopId) (order : List ConnId)
    (task : Task) : Option Server :=
  if thread = some l then s.exec h l order task else some (s.queue l task)

end Server

/-- One step of a thread. A thread is that of a loop or, with `none`, another one of the user. -/
inductive Event where
  /-- `accept` has a descriptor for `onaccept` -/
  | accept
  /-- `establish` goes on -/
  | establish
  /-- data arrives on a connection -/
  | message (id : ConnId)
  /-- a connection is closed by its loop: the peer has closed it, or an error, or the last data is
  sent while it is closing -/
  | terminate (id : ConnId)
  /-- the user closes a connection, or his sending fails -/
  | close (thread : Option LoopId) (id : ConnId) (drained : Bool)
  | forOne (thread : Option LoopId) (id : ConnId)
  | forEach (thread : Option LoopId) (order : List ConnId)
  /-- the next functor of a loop -/
  | run (l : LoopId) (order : List ConnId)
  /-- code of the user returns to a loop -/
  | ret (l : LoopId)
  deriving DecidableEq, Repr

namespace Server

/-- `establish` from behind `stage` on, up to the next step. -/
def establish (h : Handlers) (s : Server) (id : ConnId) : Stage → Option Server
  | .made => do
      let c ← s.conns id
      let s := { s.set id { c with handled := true } with connId := s.connId + 1 }
      some (s.setFrames 0 [.establishing id .handled])
  | .handled => do
      let c ← s.conns id
      let s := s.set id { c with constructed := true }
      some (s.setFrames 0 [.establishing id .constructed])
  | .constructed => do
      let c ← s.conns id
      let s := s.set id { c with messageHandler := h.message }
      some (s.setFrames 0 [.establishing id .messageSet])
  | .messageSet => do
      let c ← s.conns id
      let s := s.set id { c with closeHandler := true }
      some (s.setFrames 0 [.establishing id .closeSet])
  | .closeSet =>
      let s := { s with connectionMap := insert id s.connectionMap }
      some (s.setFrames 0 [.establishing id .listed])
  | .listed => do
      let c ← s.conns id
      let s := s.setFrames 0 []
      if h.connection then s.runInLoop h (some 0) c.loop [] (.connected id) else some s

def step (h : Handlers) (s : Server) : Event → Option Server
  | .accept =>
      let (s, l) := s.getNextLoop
      let id := s.connId
      let s := s.set id (.made l)
      (s.push 0 (.establishing id .made)).runInLoop h (some 0) l [] (.add id)
  | .establish =>
      match s.frames 0 with
      | .establishing id stage :: _ => s.establish h id stage
      | _ => some s
  | .message id => do
      let c ← s.conns id
      if c.messageHandler then some ((s.notify id .message).push c.loop .user)
      else some (s.notify id .discarded)
  | .terminate id => do
      let c ← s.conns id
      s.enterClosed h c.loop id
  | .close thread id drained => do
      let c ← s.conns id
      s.runInLoop h thread c.loop [] (.close id drained)
  | .forOne thread id => s.runInLoop h thread 0 [] (.forOne id)
  | .forEach thread order => s.runInLoop h thread 0 order .forEach
  | .run l order =>
      match s.tasks l with
      | task :: tasks => { s with tasks := Function.update s.tasks l tasks }.exec h l order task
      | [] => some s
  | .ret l =>
      match s.frames l with
      | .user :: frames => some (s.setFrames l frames)
      | .removing id :: frames => some ((s.setFrames l frames).runErase l id)
      | .visiting walk cur rest :: frames =>
          -- the iterator is moved on, which its element must be there for
          if cur ∈ s.connectionMap then some ((s.setFrames l frames).walk walk rest) else none
      | _ => some s

/-- The thread can make a call: it is in code of the user. -/
def Calls (s : Server) : Option LoopId → Prop
  | none => True
  | some l => ∃ frame ∈ (s.frames l).head?, frame.inUser

/-- A functor of `for_each` has been given this connection, and has not returned. -/
def Visits (s : Server) (id : ConnId) : Prop := ∃ walk rest, .visiting walk id rest ∈ s.frames 0

/-- A `for_each` has not returned. -/
def Walks (s : Server) (walk : Nat) : Prop := ∃ cur rest, .visiting walk cur rest ∈ s.frames 0

/-- The main loop begins a `for_each`: one that is called in it, or the next functor of its queue. -/
def BeginsForEach (s : Server) : Event → Prop
  | .forEach thread _ => thread = some 0
  | .run l _ => l = 0 ∧ (s.tasks 0).head? = some .forEach
  | _ => False

/-- The map has these elements, in one order of iteration. -/
def Lists (s : Server) (order : List ConnId) : Prop := order.Nodup ∧ order.toFinset = s.connectionMap

/-- When a step can happen. A loop begins something new where its thread is at the loop. A channel has
its handlers called from when they are set; the user has a connection when it is constructed. The one
thing that is asked of the user: code of `for_each` does not close, on the main loop, the connection
that it has been given. -/
def Allowed (s : Server) : Event → Prop
  | .accept => s.frames 0 = []
  | .establish => ∃ id stage frames, s.frames 0 = .establishing id stage :: frames
  | .message id => ∃ c, s.conns id = some c ∧ s.frames c.loop = [] ∧ c.added ∧ c.handled ∧ !c.closed
  | .terminate id => ∃ c, s.conns id = some c ∧ s.frames c.loop = [] ∧ c.added ∧ c.handled ∧ !c.closed
  | .close thread id _ => s.Calls thread ∧ ∃ c, s.conns id = some c ∧ c.constructed ∧
      (thread = some 0 → c.loop = 0 → ¬ s.Visits id)
  | .forOne thread _ => s.Calls thread
  | .forEach thread order => s.Calls thread ∧ (thread = some 0 → s.Lists order)
  | .run l order => s.frames l = [] ∧ (l = 0 → s.Lists order)
  | .ret l => ∃ frame frames, s.frames l = frame :: frames ∧ frame.inUser

end Server

end Angel.Reactor
