import Angel.Connection.Model
import Angel.Lib.Partial
import Angel.Timer.Runs

/-!
The idle timers of the connections of one loop: `set_ttl`, `update_ttl_timer` and what `handle_close`
does to them, over the timer of the loop. A connection has a timer for the end of its time to live,
which every activity sets back.

All events are those of the loop thread, which `set_ttl` and `close` of other threads come to through
the queue of the loop. `send` and `send_file` of another thread run `update_ttl_timer` there, beside
what the loop does to `ttl_timer_id`; runs with such calls are left out.
-/

namespace Angel.Ttl

open Lib Connection

abbrev ConnId := Nat

/-- What a timer calls: `close` of a connection, or something of the user. -/
inductive Callback where
  | ttl (conn : ConnId)
  | user
  deriving DecidableEq, Repr

/-- The members of `connection` about its time to live. -/
structure Conn where
  state : Connection.State
  ttlMs : Int
  ttlTimerId : Nat
  deriving DecidableEq, Repr

def Conn.create : Conn where
  state := .connected
  ttlMs := 0
  ttlTimerId := 0

/-- A connection that was idle from `lastActive` on, when its timer called it at `now`. -/
structure Expiry where
  conn : ConnId
  lastActive : Int
  ttlMs : Int
  now : Int
  deriving DecidableEq, Repr

/-- `timerId` is the next id of `timer_t`, `now` the clock. Of a connection, `active` is when it was
last active, or was given its time to live. -/
structure Loop where
  timers : Timer.State Callback
  timerId : Nat
  now : Int
  conns : ConnId → Conn
  active : ConnId → Int
  expired : List Expiry

namespace Loop

def init (now : Int) : Loop where
  timers := Timer.State.init
  timerId := 1
  now := now
  conns := fun _ => .create
  active := fun _ => now
  expired := []

def set (s : Loop) (conn : ConnId) (c : Conn) : Loop :=
  { s with conns := Function.update s.conns conn c }

def touch (s : Loop) (conn : ConnId) : Loop :=
  { s with active := Function.update s.active conn s.now }

/-- `run_after` and `run_every`. -/
def addTimer (s : Loop) (timeout interval : Int) (cb : Callback) : Loop :=
  { s with
    timers := s.timers.step (.add ⟨s.timerId, Timer.int64 (s.now + timeout), interval, cb⟩)
    timerId := s.timerId + 1 }

def cancelTimer (s : Loop) (id : Nat) : Loop := { s with timers := s.timers.step (.cancel id) }

def setTtlTimer (s : Loop) (conn : ConnId) : Loop :=
  let c := s.conns conn
  (s.addTimer c.ttlMs 0 (.ttl conn)).set conn { c with ttlTimerId := s.timerId }

/-- `set_ttl` in the loop thread. -/
def setTtl (s : Loop) (conn : ConnId) (ms : Int) : Loop :=
  if ms ≤ 0 then s
  else
    let c := s.conns conn
    ((s.set conn { c with ttlMs := ms }).cancelTimer c.ttlTimerId).setTtlTimer conn

def updateTtlTimer (s : Loop) (conn : ConnId) : Loop :=
  let c := s.conns conn
  if 0 < c.ttlTimerId then (s.cancelTimer c.ttlTimerId).setTtlTimer conn else s

/-- `handle_close`; `drained` tells that nothing is left to be sent. -/
def handleClose (s : Loop) (conn : ConnId) (isForced drained : Bool) : Loop :=
  let c := s.conns conn
  if c.state = .closed then s
  else
    let s := if 0 < c.ttlTimerId then s.cancelTimer c.ttlTimerId else s
    s.set conn { c with
      ttlTimerId := 0
      state := if !isForced && !drained then .closing else .closed }

/-- What `tick` calls. -/
def callback (s : Loop) (now : Int) (drained : Bool) : Callback → Loop
  | .ttl conn =>
      let idle := ⟨conn, s.active conn, (s.conns conn).ttlMs, now⟩
      handleClose { s with expired := s.expired ++ [idle] } conn false drained
  | .user => s

end Loop

inductive Event where
  | setTtl (conn : ConnId) (ms : Int)
  /-- data is read, or is sent by the loop thread -/
  | active (conn : ConnId)
  | close (conn : ConnId) (drained : Bool)
  /-- the connection is closed by force, or its last data is sent -/
  | terminate (conn : ConnId)
  | runAfter (timeout : Int)
  | runEvery (interval : Int)
  | cancel (id : Nat)
  /-- time passes -/
  | advance (now : Int)
  | tick
  /-- a pass of the loop in `tick`, up to the callback's return to user code or to the loop -/
  | next (drained : Bool)
  | ret
  deriving DecidableEq, Repr

namespace Loop

def step (s : Loop) : Event → Loop
  | .setTtl conn ms => if 0 < ms then (s.setTtl conn ms).touch conn else s.setTtl conn ms
  | .active conn => (s.updateTtlTimer conn).touch conn
  | .close conn drained => s.handleClose conn false drained
  | .terminate conn => s.handleClose conn true false
  | .runAfter timeout => s.addTimer timeout 0 .user
  | .runEvery interval => s.addTimer interval interval .user
  | .cancel id => s.cancelTimer id
  | .advance now => { s with now := now }
  | .tick => { s with timers := s.timers.step (.tick s.now) }
  | .next drained =>
      let s := { s with timers := s.timers.step .next }
      match s.timers.phase with
      | .calling now cur => s.callback now drained cur.timerCb
      | _ => s
  | .ret => { s with timers := s.timers.step .ret }

/-- The sum of two such times is an `int64_t`. -/
def InTime (ms : Int) : Prop := 0 ≤ ms ∧ ms < 2 ^ 62

/-- When an event can happen. The clock does not go back, and the user cancels timers of his own. -/
def Allowed (s : Loop) : Event → Prop
  | .setTtl _ ms => s.timers.Callable ∧ ms < 2 ^ 62
  | .cancel id => s.timers.Callable ∧ ∀ task ∈ s.timers.timer.timerSet, task.id = id → task.timerCb = .user
  | .advance now => s.now ≤ now ∧ InTime now
  | .tick => s.timers.phase = .outside
  | .next _ => ∃ now, s.timers.phase = .ticking now
  | .ret => ∃ now cur, s.timers.phase = .calling now cur
  | _ => s.timers.Callable

end Loop

end Angel.Ttl
