import Angel.Lib.Run

/-!
`client.cc` with the connector of `connector.cc`. The outcomes of `connect(2)`, the
fate of the connections and what the user does are events; a handler of the user
that calls back into the client is the event that follows. A connection that the
client has replaced lives on as long as the user has a pointer to it, so all of them
are kept.
-/

namespace Angel.Client

/-- What `connect(2)` says about a new socket. -/
inductive Outcome where
  | connected
  | inProgress
  | failed
  deriving DecidableEq, Repr

/-- `client_options`, with its defaults. -/
structure Options where
  keepReconnect : Bool := false
  isReconnect : Bool := false
  isQuitLoop : Bool := false
  deriving DecidableEq, Repr

/-- What the channel of a connector waits for: that its socket is writable, or that
the loop comes to run `connected`. -/
inductive Pending where
  | check
  | connected
  deriving DecidableEq, Repr

structure Connector where
  keepReconnect : Bool
  connectChannel : Option Pending
  retryTimer : Bool
  deriving DecidableEq, Repr

/-- `connector_t::shutdown`. -/
def Connector.shutdown (k : Connector) : Connector :=
  { k with connectChannel := none, retryTimer := k.retryTimer && !k.keepReconnect }

inductive ConnectionState where
  | connected
  | closing
  | closed
  deriving DecidableEq, Repr

structure Connection where
  state : ConnectionState
  sendQueueIsEmpty : Bool
  deriving DecidableEq, Repr

/-- What the client calls. The handlers of the user count also where none is set, but
for the one of the timeout: no timer is added without it. -/
inductive Call where
  | start
  | quit
  | connectionHandler (i : Nat)
  | closeHandler (i : Nat)
  | connectionFailureHandler
  | connectionTimeoutHandler
  deriving DecidableEq, Repr

/-- A client, the connections it has had by their number, and what it has called.
`resetByPeer` is the connection whose flag of that name is set: it is while
`handle_read` closes the connection, and taken to be unset before. -/
structure State where
  ops : Options
  connector : Option Connector
  connected : Bool
  cliConn : Option Nat
  connections : List Connection
  resetByPeer : Option Nat
  connectionTimeoutHandler : Bool
  connectionTimeoutTimerId : Nat
  timers : List Nat
  nextTimer : Nat
  calls : List Call
  deriving DecidableEq, Repr

namespace State

def create (ops : Options) : State where
  ops := ops
  connector := none
  connected := false
  cliConn := none
  connections := []
  resetByPeer := none
  connectionTimeoutHandler := false
  connectionTimeoutTimerId := 0
  timers := []
  nextTimer := 1
  calls := []

def call (k : Call) (c : State) : State := { c with calls := c.calls ++ [k] }

def onConnector (f : Connector → Connector) (c : State) : State :=
  { c with connector := c.connector.map f }

def onConnection (i : Nat) (f : Connection → Connection) (c : State) : State :=
  { c with connections := c.connections.modify i f }

def addConnectionTimeoutTimer (c : State) : State :=
  if c.connectionTimeoutHandler then
    { c with
      connectionTimeoutTimerId := c.nextTimer
      timers := c.timers ++ [c.nextTimer]
      nextTimer := c.nextTimer + 1 }
  else c

def cancelConnectionTimeoutTimer (c : State) : State :=
  if 0 < c.connectionTimeoutTimerId then
    { c with timers := c.timers.erase c.connectionTimeoutTimerId }
  else c

/-- The callback of such a timer. -/
def connectionTimeout (timer : Nat) (c : State) : State :=
  let c := { c with timers := c.timers.erase timer }
  if c.connected then c else c.call .connectionTimeoutHandler

def setConnectionTimeoutHandler (timeoutMs : Int) (c : State) : State :=
  if timeoutMs ≤ 0 then c else { c with connectionTimeoutHandler := true }

def establish (c : State) : State :=
  let i := c.connections.length
  let conn : Connection := { state := .connected, sendQueueIsEmpty := true }
  let c := { c with cliConn := some i, connections := c.connections ++ [conn] }
  let c := c.cancelConnectionTimeoutTimer
  ({ c with connected := true }).call (.connectionHandler i)

/-- `connector_t::connected`. -/
def connectorConnected (c : State) : State :=
  let c := c.onConnector fun k => { k with retryTimer := k.retryTimer && !k.keepReconnect }
  c.establish.onConnector fun k => { k with connectChannel := none }

/-- `connector_t::connect`. Off the loop, `connected` has to wait for it. -/
def connectorConnect (inLoop : Bool) (outcome : Outcome) (c : State) : State :=
  match outcome with
  | .failed => c.call .connectionFailureHandler
  | .inProgress => c.onConnector fun k => { k with connectChannel := some .check }
  | .connected =>
      let c := c.onConnector fun k => { k with connectChannel := some .connected }
      if inLoop then c.connectorConnected else c

/-- `connector_t::check`, with the error of the socket. -/
def connectorCheck (err : Bool) (c : State) : State :=
  if err then
    let c := c.onConnector Connector.shutdown
    if c.connector.any (·.keepReconnect) then c.onConnector fun k => { k with retryTimer := true }
    else c.call .connectionFailureHandler
  else c.connectorConnected

def start (inLoop : Bool) (outcome : Outcome) (c : State) : State :=
  let c := (c.call .start).addConnectionTimeoutTimer
  let c := { c with
    connector := some
      { keepReconnect := c.ops.keepReconnect, connectChannel := none, retryTimer := false } }
  c.connectorConnect inLoop outcome

-- `close_wait` is what the close of the current connection runs; the outcome is for the
-- `connect(2)` of a restart.
section

variable (closeWait : Nat → State → Option State) (outcome : Outcome)

def activeShutdown (c : State) : Option State :=
  let c := { c with connected := false, connector := none }
  match c.cliConn with
  | none => some c
  | some i => closeWait i { c with ops := { c.ops with isReconnect := false } }

def restart (c : State) : Option State :=
  (activeShutdown closeWait c).map (start true outcome)

def shutdown (i : Nat) (c : State) : Option State :=
  let c := ({ c with connected := false } : State).cancelConnectionTimeoutTimer
  let next :=
    if c.ops.isQuitLoop then some (c.call .quit)
    else if c.ops.isReconnect && c.resetByPeer = some i then restart closeWait outcome c
    else some c
  next.map (call (.closeHandler i))

end

/-- `handle_close` of a connection: `none` if its close handlers nest deeper than
`depth`. -/
def handleClose (outcome : Outcome) : (depth : Nat) → (isForced : Bool) → Nat → State → Option State
  | 0, _, _, _ => none
  | depth + 1, isForced, i, c =>
      match c.connections[i]? with
      | none => some c
      | some conn =>
          if conn.state = .closed then some c
          else if !isForced && !conn.sendQueueIsEmpty then
            some (c.onConnection i fun conn => { conn with state := .closing })
          else
            let c := c.onConnection i fun conn => { conn with state := .closed }
            shutdown (handleClose outcome depth false) outcome i c

/-- A client closes its current connection from the close handler of another one, and
no deeper. -/
def nesting : Nat := 2

/-- `handle_read` at the end of the stream. -/
def handleReset (outcome : Outcome) (i : Nat) (c : State) : Option State :=
  (handleClose outcome nesting true i { c with resetByPeer := some i }).map fun c =>
    { c with resetByPeer := none }

/-- The end of `handle_write` with nothing more to send. -/
def handleDrained (outcome : Outcome) (i : Nat) (c : State) : Option State :=
  let c := c.onConnection i fun conn => { conn with sendQueueIsEmpty := true }
  if (c.connections[i]?.map (·.state)) = some .closing then handleClose outcome nesting true i c
  else some c

end State

/-- What happens to a client. Neither `restart` nor the destructor is among what the
user does. -/
inductive Event where
  | setConnectionTimeoutHandler (timeoutMs : Int)
  | start (inLoop : Bool) (outcome : Outcome)
  | check (err : Bool)
  | connected
  | retry (outcome : Outcome)
  | connectionTimeout (timer : Nat)
  | queued (i : Nat)
  | drained (i : Nat) (outcome : Outcome)
  | close (i : Nat) (outcome : Outcome)
  | error (i : Nat) (outcome : Outcome)
  | reset (i : Nat) (outcome : Outcome)
  deriving DecidableEq, Repr

namespace State

def execute (c : State) : Event → Option State
  | .setConnectionTimeoutHandler timeoutMs => some (c.setConnectionTimeoutHandler timeoutMs)
  | .start inLoop outcome => some (c.start inLoop outcome)
  | .check err => some (c.connectorCheck err)
  | .connected => some c.connectorConnected
  | .retry outcome =>
      let c := c.onConnector fun k => { k with retryTimer := false }
      some (c.connectorConnect true outcome)
  | .connectionTimeout timer => some (c.connectionTimeout timer)
  | .queued i => some (c.onConnection i fun conn => { conn with sendQueueIsEmpty := false })
  | .drained i outcome => c.handleDrained outcome i
  | .close i outcome => c.handleClose outcome nesting false i
  | .error i outcome => c.handleClose outcome nesting true i
  | .reset i outcome => c.handleReset outcome i

def step (c : Option State) (e : Event) : Option State := c.bind fun c => c.execute e

/-- The channel of the connection is still in the loop. -/
def Alive (c : State) (i : Nat) : Prop :=
  ∃ conn, c.connections[i]? = some conn ∧ conn.state ≠ .closed

/-- When an event can come. -/
def Possible (c : State) : Event → Prop
  | .check _ => ∃ k, c.connector = some k ∧ k.connectChannel = some .check
  | .connected => ∃ k, c.connector = some k ∧ k.connectChannel = some .connected
  | .retry _ => ∃ k, c.connector = some k ∧ k.retryTimer = true
  | .connectionTimeout timer => timer ∈ c.timers
  | .queued i | .drained i _ | .close i _ | .error i _ | .reset i _ => c.Alive i
  | _ => True

def Comes (c : Option State) (e : Event) : Prop := ∀ s, c = some s → s.Possible e

end State

end Angel.Client
