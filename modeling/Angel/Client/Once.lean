import Angel.Client.Model

/-!
A client with the default options that is started once. The end of its connection is no reason
for it to start again, and the handler of its connection timeout is called only as long as it
has had no connection.
-/

namespace Angel.Client

/-- The loop makes it happen, and not the user. -/
def Event.ofLoop : Event → Bool
  | .setConnectionTimeoutHandler _ | .start _ _ | .close _ _ => false
  | _ => true

namespace State

/-- Such a client. Its only timer is that of the connection timeout. -/
structure StartedOnce (c : State) : Prop where
  ops : c.ops = {}
  timerId : 0 < c.connectionTimeoutTimerId
  timers : c.timers.Sublist [c.connectionTimeoutTimerId]
  established : c.connections ≠ [] → c.timers = []

/-- Since `c₀` it has not called the timeout handler. -/
structure QuietSince (c₀ c : State) : Prop extends StartedOnce c where
  calls : ∃ new, c.calls = c₀.calls ++ new ∧ .connectionTimeoutHandler ∉ new
  connections : c₀.connections ≠ [] → c.connections ≠ []

section Quiet

variable {c₀ c : State}

theorem StartedOnce.quietSince (h : c.StartedOnce) : c.QuietSince c where
  toStartedOnce := h
  calls := ⟨[], by simp⟩
  connections := id

theorem QuietSince.call (h : c₀.QuietSince c) {k : Call} (hk : k ≠ .connectionTimeoutHandler) :
    c₀.QuietSince (c.call k) where
  ops := h.ops
  timerId := h.timerId
  timers := h.timers
  established := h.established
  calls := by
    obtain ⟨new, hcalls, hnew⟩ := h.calls
    refine ⟨new ++ [k], ?_, ?_⟩
    · rw [State.call, hcalls, List.append_assoc]
    · simp [hnew, hk.symm]
  connections := h.connections

theorem QuietSince.onConnector (h : c₀.QuietSince c) (f : Connector → Connector) :
    c₀.QuietSince (c.onConnector f) :=
  ⟨⟨h.ops, h.timerId, h.timers, h.established⟩, h.calls, h.connections⟩

private theorem onConnection_connections (i : Nat) (f : Connection → Connection) :
    (c.onConnection i f).connections ≠ [] ↔ c.connections ≠ [] := by
  simp [State.onConnection]

theorem QuietSince.onConnection (h : c₀.QuietSince c) (i : Nat) (f : Connection → Connection) :
    c₀.QuietSince (c.onConnection i f) where
  ops := h.ops
  timerId := h.timerId
  timers := h.timers
  established hne := h.established ((onConnection_connections i f).mp hne)
  calls := h.calls
  connections hne := (onConnection_connections i f).mpr (h.connections hne)

theorem StartedOnce.cancelled (h : c.StartedOnce) {timer : Nat} (htimer : timer ∈ c.timers) :
    c.timers.erase timer = [] := by
  rcases List.sublist_singleton.mp h.timers with hnone | hone
  · rw [hnone] at htimer
    cases htimer
  · rw [hone] at htimer ⊢
    rw [List.mem_singleton.mp htimer, List.erase_cons_head]

theorem cancelConnectionTimeoutTimer_timers (h : c.StartedOnce) :
    c.cancelConnectionTimeoutTimer = { c with timers := [] } := by
  rw [cancelConnectionTimeoutTimer, if_pos h.timerId]
  rcases List.sublist_singleton.mp h.timers with hnone | hone
  · rw [hnone]
    rfl
  · rw [hone, List.erase_cons_head]

theorem QuietSince.cancel (h : c₀.QuietSince c) :
    c₀.QuietSince c.cancelConnectionTimeoutTimer := by
  rw [cancelConnectionTimeoutTimer_timers h.toStartedOnce]
  exact ⟨⟨h.ops, h.timerId, List.nil_sublist _, fun _ => rfl⟩, h.calls, h.connections⟩

theorem QuietSince.establish (h : c₀.QuietSince c) : c₀.QuietSince c.establish := by
  unfold State.establish
  apply QuietSince.call
  · rw [cancelConnectionTimeoutTimer, if_pos h.timerId]
    have htimers : c.timers.erase c.connectionTimeoutTimerId = [] := by
      have hcancel := cancelConnectionTimeoutTimer_timers h.toStartedOnce
      rw [cancelConnectionTimeoutTimer, if_pos h.timerId] at hcancel
      exact congrArg State.timers hcancel
    refine ⟨⟨h.ops, h.timerId, ?_, fun _ => htimers⟩, h.calls, fun _ => by simp⟩
    exact (congrArg (List.Sublist · _) htimers).mpr (List.nil_sublist _)
  · simp

theorem QuietSince.connectorConnected (h : c₀.QuietSince c) : c₀.QuietSince c.connectorConnected :=
  (h.onConnector _).establish.onConnector _

theorem QuietSince.connectorConnect (h : c₀.QuietSince c) (inLoop : Bool) (outcome : Outcome) :
    c₀.QuietSince (c.connectorConnect inLoop outcome) := by
  cases outcome with
  | failed => exact h.call (by simp)
  | inProgress => exact h.onConnector _
  | connected =>
      unfold State.connectorConnect
      dsimp only
      split
      · exact (h.onConnector _).connectorConnected
      · exact h.onConnector _

theorem QuietSince.connectorCheck (h : c₀.QuietSince c) (err : Bool) :
    c₀.QuietSince (c.connectorCheck err) := by
  unfold State.connectorCheck
  dsimp only
  split
  · split
    · exact (h.onConnector _).onConnector _
    · exact (h.onConnector _).call (by simp)
  · exact h.connectorConnected

variable (outcome : Outcome)

theorem QuietSince.shutdown (h : c₀.QuietSince c) (closeWait : Nat → State → Option State)
    (i : Nat) : ∃ c', State.shutdown closeWait outcome i c = some c' ∧ c₀.QuietSince c' := by
  have hdown : c₀.QuietSince { c with connected := false } :=
    ⟨⟨h.ops, h.timerId, h.timers, h.established⟩, h.calls, h.connections⟩
  have hcancelled := hdown.cancel
  refine ⟨_, ?_, hcancelled.call (k := .closeHandler i) (by simp)⟩
  unfold State.shutdown
  simp only [hcancelled.ops, Bool.false_eq_true, if_false, Bool.false_and, Option.map_some]

theorem QuietSince.handleClose (h : c₀.QuietSince c) (depth : Nat) (isForced : Bool) (i : Nat) :
    ∃ c', State.handleClose outcome (depth + 1) isForced i c = some c' ∧ c₀.QuietSince c' := by
  unfold State.handleClose
  split
  · exact ⟨c, rfl, h⟩
  split
  · exact ⟨c, rfl, h⟩
  split
  · exact ⟨_, rfl, h.onConnection i _⟩
  · exact (h.onConnection i _).shutdown outcome _ i

theorem QuietSince.handleReset (h : c₀.QuietSince c) (i : Nat) :
    ∃ c', State.handleReset outcome i c = some c' ∧ c₀.QuietSince c' := by
  have hmarked : c₀.QuietSince { c with resetByPeer := some i } :=
    ⟨⟨h.ops, h.timerId, h.timers, h.established⟩, h.calls, h.connections⟩
  obtain ⟨c', hclose, hquiet⟩ := hmarked.handleClose outcome 1 true i
  refine ⟨{ c' with resetByPeer := none }, ?_, ?_⟩
  · rw [State.handleReset, nesting, hclose]
    rfl
  · exact ⟨⟨hquiet.ops, hquiet.timerId, hquiet.timers, hquiet.established⟩, hquiet.calls,
      hquiet.connections⟩

theorem QuietSince.handleDrained (h : c₀.QuietSince c) (i : Nat) :
    ∃ c', State.handleDrained outcome i c = some c' ∧ c₀.QuietSince c' := by
  unfold State.handleDrained
  dsimp only
  split
  · exact (h.onConnection i _).handleClose outcome 1 true i
  · exact ⟨_, rfl, h.onConnection i _⟩

/-- What the loop makes happen to a client that is started once, apart from the timeout. -/
theorem StartedOnce.execute (h : c.StartedOnce) {e : Event} (hloop : e.ofLoop = true)
    (htimeout : ∀ timer, e ≠ .connectionTimeout timer) :
    ∃ c', c.execute e = some c' ∧ c.QuietSince c' := by
  have hquiet := h.quietSince
  cases e with
  | setConnectionTimeoutHandler timeoutMs => cases hloop
  | start inLoop outcome => cases hloop
  | close i outcome => cases hloop
  | check err => exact ⟨_, rfl, hquiet.connectorCheck err⟩
  | connected => exact ⟨_, rfl, hquiet.connectorConnected⟩
  | retry outcome => exact ⟨_, rfl, (hquiet.onConnector _).connectorConnect true outcome⟩
  | connectionTimeout timer => exact absurd rfl (htimeout timer)
  | queued i => exact ⟨_, rfl, hquiet.onConnection i _⟩
  | drained i outcome => exact hquiet.handleDrained outcome i
  | error i outcome => exact hquiet.handleClose outcome 1 true i
  | reset i outcome => exact hquiet.handleReset outcome i

theorem StartedOnce.activeShutdown (h : c.StartedOnce) (depth : Nat) :
    ∃ c', State.activeShutdown (State.handleClose outcome (depth + 1) false) c = some c' ∧
      c.QuietSince c' := by
  have hoff : ({ c.ops with isReconnect := false } : Options) = {} := by rw [h.ops]
  unfold State.activeShutdown
  dsimp only
  split
  · exact ⟨_, rfl, ⟨⟨h.ops, h.timerId, h.timers, h.established⟩, ⟨[], by simp⟩, id⟩⟩
  · apply QuietSince.handleClose
    exact ⟨⟨hoff, h.timerId, h.timers, h.established⟩, ⟨[], by simp⟩, id⟩

/-- Destroyed without a connection, a client has nothing more to come but its timer. -/
theorem activeShutdown_unconnected (hconnections : c.connections = []) (depth : Nat) :
    ∃ c', State.activeShutdown (State.handleClose outcome (depth + 1) false) c = some c' ∧
      c'.connections = [] ∧ c'.connector = none ∧ c'.timers = c.timers := by
  unfold State.activeShutdown
  dsimp only
  split
  · exact ⟨_, rfl, hconnections, rfl, rfl⟩
  · refine ⟨{ c with
      connected := false, connector := none, ops := { c.ops with isReconnect := false } }, ?_,
      hconnections, rfl, rfl⟩
    simp [State.handleClose, hconnections]

/-- Nothing can come for a client without a connection, a connector and a timer. -/
theorem not_possible (h : c.connections = [] ∧ c.connector = none ∧ c.timers = []) {e : Event}
    (hloop : e.ofLoop = true) : ¬ c.Possible e := by
  obtain ⟨hconnections, hconnector, htimers⟩ := h
  cases e with
  | setConnectionTimeoutHandler timeoutMs => cases hloop
  | start inLoop outcome => cases hloop
  | close i outcome => cases hloop
  | check err => simp [Possible, hconnector]
  | connected => simp [Possible, hconnector]
  | retry outcome => simp [Possible, hconnector]
  | connectionTimeout timer => simp [Possible, htimers]
  | queued i => simp [Possible, Alive, hconnections]
  | drained i outcome => simp [Possible, Alive, hconnections]
  | error i outcome => simp [Possible, Alive, hconnections]
  | reset i outcome => simp [Possible, Alive, hconnections]

theorem start_once (inLoop : Bool) (timeoutMs : Int) (htimeout : 0 < timeoutMs) :
    (((create {}).setConnectionTimeoutHandler timeoutMs).start inLoop outcome).StartedOnce := by
  have hset : (create {}).setConnectionTimeoutHandler timeoutMs =
      { create {} with connectionTimeoutHandler := true } := by
    rw [setConnectionTimeoutHandler, if_neg (by omega)]
  rw [hset]
  have hstarted : StartedOnce
      { create {} with
        connector := some { keepReconnect := false, connectChannel := none, retryTimer := false }
        connectionTimeoutHandler := true
        connectionTimeoutTimerId := 1
        timers := [1]
        nextTimer := 2
        calls := [.start] } :=
    ⟨rfl, Nat.one_pos, List.Sublist.refl _, fun hne => absurd rfl hne⟩
  exact (hstarted.quietSince.connectorConnect inLoop outcome).toStartedOnce

end Quiet

end State

end Angel.Client
