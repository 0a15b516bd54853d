import Angel.Http.Pool
import Angel.Lib.Run

/-!
`http_client` of `httplib.cc` as a system of threads: user threads in
`send(request)`, and the loop thread that establishes connections, reads responses
and runs timers. What a thread does under a mutex is one step, and so is what the
loop thread does between two accesses to what it shares with the others.

`R` is the type of the routes, `π` of the addresses of connections and `θ` of the
user threads; a connection is named by its route and its address.
-/

namespace Angel.Http

/-- How a response promise can be satisfied. -/
inductive Outcome where
  | response
  | connectionTimeout
  | requestTimeout
  | connectionResetByPeer
  deriving DecidableEq, Repr

/-- A response promise, with the request it was made for and whether that has been
sent. -/
structure ResponsePromise where
  request : Nat
  sent : Bool
  outcome : Option Outcome
  deriving DecidableEq, Repr

/-- A request-timeout timer: the connection its callback holds, and the request it
was set for. -/
structure RequestTimer (R π : Type) where
  id : Nat
  route : R
  conn : π
  request : Nat
  deriving DecidableEq, Repr

/-- What follows `cancel_request_timeout_timer` in its two callers. -/
inductive AfterCancel where
  | wakeup
  | remove
  deriving DecidableEq, Repr

/-- Where the loop thread is. -/
inductive LoopPhase (R π : Type) where
  | idle
  /-- in `receive`, with the promise satisfied -/
  | put (r : R) (c : π)
  | cancel (r : R) (c : π) (after : AfterCancel)
  /-- the timer is cancelled and its id still in the connection -/
  | clear (r : R) (c : π) (after : AfterCancel)
  | wakeup (r : R)
  | remove (r : R) (c : π)
  /-- an assertion, a second value for a promise, or a dead object -/
  | aborted
  deriving DecidableEq, Repr

/-- The loop thread is at work on a connection. -/
def LoopPhase.On {R π : Type} (r : R) (c : π) : LoopPhase R π → Prop
  | .put r' c' => r' = r ∧ c' = c
  | .cancel r' c' _ => r' = r ∧ c' = c
  | .clear r' c' _ => r' = r ∧ c' = c
  | .remove r' c' => r' = r ∧ c' = c
  | _ => False

/-- Where a user thread is. -/
inductive ThreadPhase (R : Type) where
  | idle
  /-- at `retry` -/
  | sending (r : R)
  /-- behind `router_mutex.unlock()` and in front of `wait_for` -/
  | unlocked (r : R)
  /-- in `pending_cv.wait_for` -/
  | blocked (r : R) (notified : Bool)
  deriving DecidableEq, Repr

abbrev RoutePool (π : Type) := HttpConnectionPool π ResponsePromise

/-- The client. `functors` are the timers that `run_after` has queued for the loop
thread, `timers` those in its timer store. -/
structure HttpClient (R π θ : Type) where
  router : R → Option (RoutePool π)
  pending : R → Bool
  threads : θ → ThreadPhase R
  loop : LoopPhase R π
  functors : List (RequestTimer R π)
  timers : List (RequestTimer R π)
  nextTimer : Nat
  nextRequest : Nat

inductive ClientEvent (R π θ : Type) where
  /-- a user thread calls `send` -/
  | call (t : θ) (r : R)
  /-- no address for a new route -/
  | unresolved (t : θ)
  /-- `send` under `router_mutex`; `fresh` is what `new` would give -/
  | lock (t : θ) (fresh : π)
  | enterWait (t : θ)
  /-- `pending_cv.wait_for` returns -/
  | wake (t : θ) (timedOut : Bool)
  | establish (r : R) (c : π)
  | runFunctor
  /-- the end of a response, or a malformed one -/
  | receive (r : R) (c : π)
  | put
  | cancel
  | clear
  /-- `wakeup`, with the thread that `notify_one` picks -/
  | wakeup (chosen : Option θ)
  | remove
  | expire (timer : RequestTimer R π)
  | connectTimeout (r : R) (c : π)
  | reset (r : R) (c : π)

namespace HttpClient

variable {R π θ : Type} [DecidableEq R] [DecidableEq π] [DecidableEq θ]

def init : HttpClient R π θ where
  router := fun _ => none
  pending := fun _ => false
  threads := fun _ => .idle
  loop := .idle
  functors := []
  timers := []
  nextTimer := 1
  nextRequest := 0

/-- The pool of a route, empty before the first request for it. -/
def pool (s : HttpClient R π θ) (r : R) : RoutePool π := (s.router r).getD HttpConnectionPool.init

def conn (s : HttpClient R π θ) (r : R) (c : π) : Option (PooledConnection ResponsePromise) :=
  (s.pool r).conns c

def setPool (r : R) (p : RoutePool π) (s : HttpClient R π θ) : HttpClient R π θ :=
  { s with router := Function.update s.router r (some p) }

def setConn (r : R) (c : π) (conn : PooledConnection ResponsePromise) (s : HttpClient R π θ) :
    HttpClient R π θ :=
  s.setPool r { s.pool r with conns := Function.update (s.pool r).conns c (some conn) }

def setThread (t : θ) (phase : ThreadPhase R) (s : HttpClient R π θ) : HttpClient R π θ :=
  { s with threads := Function.update s.threads t phase }

/-- A connection with the value of its promise set. -/
def settle (outcome : Outcome) (conn : PooledConnection ResponsePromise) :
    PooledConnection ResponsePromise :=
  { conn with responsePromise := { conn.responsePromise with outcome := some outcome } }

/-- A connection with its request sent, and the id of the timer for it. -/
def sentWith (timer : Nat) (conn : PooledConnection ResponsePromise) :
    PooledConnection ResponsePromise :=
  { conn with
    requestTimeoutTimerId := timer
    responsePromise := { conn.responsePromise with sent := true } }

/-- `response_promise.set_value`: a dead connection and a promise that has its value
have no result. -/
def setValue (r : R) (c : π) (outcome : Outcome) (s : HttpClient R π θ) :
    Option (HttpClient R π θ) := do
  let conn ← s.conn r c
  match conn.responsePromise.outcome with
  | some _ => none
  | none =>
      some (s.setConn r c (settle outcome conn))

/-- `send(http_conn, request)`: the request goes out, and its timer is set. From a
user thread `run_after` queues the timer, in the loop thread it adds it. -/
def sendOn (r : R) (c : π) (conn : PooledConnection ResponsePromise) (inLoop : Bool)
    (s : HttpClient R π θ) : HttpClient R π θ :=
  let timer : RequestTimer R π := ⟨s.nextTimer, r, c, conn.responsePromise.request⟩
  let s := s.setConn r c (sentWith s.nextTimer conn)
  if inLoop then { s with timers := s.timers ++ [timer], nextTimer := s.nextTimer + 1 }
  else { s with functors := s.functors ++ [timer], nextTimer := s.nextTimer + 1 }

/-- The end of `send(request)`, over `leased.back()`. -/
def useBack (r : R) (s : HttpClient R π θ) : HttpClient R π θ :=
  match (s.pool r).leased.getLast? with
  | none => s
  | some c =>
      match s.conn r c with
      | none => s
      | some conn =>
          if conn.create then s.setConn r c { conn with create := false }
          else s.sendOn r c conn false

/-- `send(request)` while it holds `router_mutex`. -/
def lockedSend (maxConns : Nat) (t : θ) (r : R) (fresh : π) (s : HttpClient R π θ) :
    HttpClient R π θ :=
  let p := s.pool r
  let promise : ResponsePromise := ⟨s.nextRequest, false, none⟩
  if p.avail = [] then
    if p.activeConns < maxConns then
      let s := s.setPool r (p.createConnection fresh promise)
      (({ s with nextRequest := s.nextRequest + 1 } : HttpClient R π θ).useBack r).setThread t .idle
    else (s.setPool r p).setThread t (.unlocked r)
  else
    match p.leaseConnection promise with
    | none => s
    | some p =>
        let s := s.setPool r p
        (({ s with nextRequest := s.nextRequest + 1 } : HttpClient R π θ).useBack r).setThread t .idle

/-- `wait_for` up to its wait, and each round of its loop. -/
def waitFor (t : θ) (r : R) (s : HttpClient R π θ) : HttpClient R π θ :=
  ({ s with pending := Function.update s.pending r true } : HttpClient R π θ).setThread t
    (.blocked r false)

def wakeFrom (t : θ) (r : R) (timedOut : Bool) (s : HttpClient R π θ) : HttpClient R π θ :=
  if timedOut then s.setThread t .idle
  else if s.pending r then s.setThread t (.blocked r false)
  else s.setThread t (.sending r)

/-- `http_connection_pool::wakeup`. -/
def wakeupPool (r : R) (chosen : Option θ) (s : HttpClient R π θ) : HttpClient R π θ :=
  if s.pending r then
    let s : HttpClient R π θ := { s with pending := Function.update s.pending r false }
    match chosen with
    | none => s
    | some t => s.setThread t (.blocked r true)
  else s

def afterCancel (r : R) (c : π) : AfterCancel → LoopPhase R π
  | .wakeup => .wakeup r
  | .remove => .remove r c

/-- `cancel_request_timeout_timer` up to the reset of the id. In the loop thread
`cancel_timer` acts at once, on the timers in the store only. -/
def cancelRequestTimeoutTimer (r : R) (c : π) (after : AfterCancel) (s : HttpClient R π θ) :
    HttpClient R π θ :=
  match s.conn r c with
  | none => { s with loop := .aborted }
  | some conn =>
      if 0 < conn.requestTimeoutTimerId then
        { s with
          timers := s.timers.filter fun timer => timer.id ≠ conn.requestTimeoutTimerId
          loop := .clear r c after }
      else { s with loop := afterCancel r c after }

/-- A callback that satisfies the promise of a connection and goes on to `next`. -/
def notify (r : R) (c : π) (outcome : Outcome) (next : LoopPhase R π) (s : HttpClient R π θ) :
    HttpClient R π θ :=
  match s.setValue r c outcome with
  | none => { s with loop := .aborted }
  | some s => { s with loop := next }

def step (maxConns : Nat) (s : HttpClient R π θ) : ClientEvent R π θ → HttpClient R π θ
  | .call t r => s.setThread t (.sending r)
  | .unresolved t => s.setThread t .idle
  | .lock t fresh =>
      match s.threads t with
      | .sending r => s.lockedSend maxConns t r fresh
      | _ => s
  | .enterWait t =>
      match s.threads t with
      | .unlocked r => s.waitFor t r
      | _ => s
  | .wake t timedOut =>
      match s.threads t with
      | .blocked r _ => s.wakeFrom t r timedOut
      | _ => s
  | .establish r c =>
      match s.conn r c with
      | none => { s with loop := .aborted }
      | some conn => s.sendOn r c conn true
  | .runFunctor =>
      match s.functors with
      | [] => s
      | timer :: rest => { s with functors := rest, timers := s.timers ++ [timer] }
  | .receive r c => s.notify r c .response (.put r c)
  | .put =>
      match s.loop with
      | .put r c =>
          match (s.pool r).releaseConnection c with
          | none => { s with loop := .aborted }
          | some p => { s.setPool r p with loop := .cancel r c .wakeup }
      | _ => s
  | .cancel =>
      match s.loop with
      | .cancel r c after => s.cancelRequestTimeoutTimer r c after
      | _ => s
  | .clear =>
      match s.loop with
      | .clear r c after =>
          match s.conn r c with
          | none => { s with loop := .aborted }
          | some conn =>
              { s.setConn r c { conn with requestTimeoutTimerId := 0 } with
                loop := afterCancel r c after }
      | _ => s
  | .wakeup chosen =>
      match s.loop with
      | .wakeup r => { s.wakeupPool r chosen with loop := .idle }
      | _ => s
  | .remove =>
      match s.loop with
      | .remove r c =>
          match (s.pool r).removeConnection c with
          | none => { s with loop := .aborted }
          | some p => { s.setPool r p with loop := .idle }
      | _ => s
  | .expire timer =>
      ({ s with timers := s.timers.erase timer } : HttpClient R π θ).notify timer.route timer.conn
        .requestTimeout (.remove timer.route timer.conn)
  | .connectTimeout r c => s.notify r c .connectionTimeout (.remove r c)
  | .reset r c =>
      match s.conn r c with
      | none => { s with loop := .aborted }
      | some conn =>
          if conn.leased then s.notify r c .connectionResetByPeer (.cancel r c .remove)
          else { s with loop := .remove r c }

/-- When an event can happen in a process that has not aborted. Responses come on connections that have been
established, and `receive` skips what comes on an idle one; the callbacks of a
connection go with it. `notify_one` picks a thread that waits and has not been
notified, if there is one. -/
def Enabled (s : HttpClient R π θ) : ClientEvent R π θ → Prop
  | .call t _ => s.threads t = .idle
  | .unresolved t => ∃ r, s.threads t = .sending r ∧ s.router r = none
  | .lock t fresh => ∃ r, s.threads t = .sending r ∧ s.conn r fresh = none
  | .enterWait t => ∃ r, s.threads t = .unlocked r
  | .wake t _ => ∃ r notified, s.threads t = .blocked r notified
  | .establish r c => s.loop = .idle ∧
      ∃ conn, s.conn r c = some conn ∧ conn.leased = true ∧ conn.responsePromise.sent = false
  | .runFunctor => s.loop = .idle ∧ s.functors ≠ []
  | .receive r c => s.loop = .idle ∧
      ∃ conn, s.conn r c = some conn ∧ conn.leased = true ∧ conn.responsePromise.sent = true
  | .put => ∃ r c, s.loop = .put r c
  | .cancel => ∃ r c after, s.loop = .cancel r c after
  | .clear => ∃ r c after, s.loop = .clear r c after
  | .wakeup chosen => ∃ r, s.loop = .wakeup r ∧
      match chosen with
      | none => s.pending r = true → ∀ t, s.threads t ≠ .blocked r false
      | some t => s.pending r = true ∧ s.threads t = .blocked r false
  | .remove => ∃ r c, s.loop = .remove r c
  | .expire timer => s.loop = .idle ∧ timer ∈ s.timers
  | .connectTimeout r c => s.loop = .idle ∧
      ∃ conn, s.conn r c = some conn ∧ conn.leased = true ∧ conn.responsePromise.sent = false
  | .reset r c => s.loop = .idle ∧
      ∃ conn, s.conn r c = some conn ∧ conn.responsePromise.sent = true

def Allowed (s : HttpClient R π θ) (e : ClientEvent R π θ) : Prop :=
  s.loop ≠ .aborted ∧ s.Enabled e

end HttpClient

end Angel.Http
