import Angel.Client.Model

/-!
Reconnecting. A reset of the connection by the peer makes `shutdown` restart the
client, and on the way there `active_shutdown` switches `is_reconnect` off: the first
reset is followed by a new start, and no other one is.
-/

namespace Angel.Client

open Lib

namespace State

/-- The calls of `start` so far. -/
def starts (c : State) : Nat := c.calls.count .start

/-- A client that has had a connection has a current one. -/
def HasCurrent (c : State) : Prop := c.connections ≠ [] → c.cliConn ≠ none

/-- What a part of a step leaves alone, and how often it calls `start`. -/
structure Frame (n : Nat) (c c' : State) : Prop where
  ops : c'.ops = c.ops
  resetByPeer : c'.resetByPeer = c.resetByPeer
  current : c.HasCurrent → c'.HasCurrent
  starts : c'.starts = c.starts + n

theorem Frame.trans {n m : Nat} {c c' c'' : State} (h : Frame n c c') (h' : Frame m c' c'') :
    Frame (n + m) c c'' where
  ops := h'.ops.trans h.ops
  resetByPeer := h'.resetByPeer.trans h.resetByPeer
  current hc := h'.current (h.current hc)
  starts := by rw [h'.starts, h.starts, Nat.add_assoc]

section Frame

variable (c : State)

theorem refl_frame : Frame 0 c c := ⟨rfl, rfl, id, rfl⟩

theorem call_frame (k : Call) (hk : k ≠ .start) : Frame 0 c (c.call k) where
  ops := rfl
  resetByPeer := rfl
  current := id
  starts := by simp [starts, call, hk]

theorem onConnector_frame (f : Connector → Connector) : Frame 0 c (c.onConnector f) :=
  ⟨rfl, rfl, id, rfl⟩

theorem onConnection_frame (i : Nat) (f : Connection → Connection) :
    Frame 0 c (c.onConnection i f) where
  ops := rfl
  resetByPeer := rfl
  current hc hne := hc (by
    intro hnil
    simp [onConnection, hnil] at hne)
  starts := rfl

theorem addConnectionTimeoutTimer_frame : Frame 0 c c.addConnectionTimeoutTimer := by
  unfold addConnectionTimeoutTimer
  split
  · exact ⟨rfl, rfl, id, rfl⟩
  · exact refl_frame c

theorem cancelConnectionTimeoutTimer_frame : Frame 0 c c.cancelConnectionTimeoutTimer := by
  unfold cancelConnectionTimeoutTimer
  split
  · exact ⟨rfl, rfl, id, rfl⟩
  · exact refl_frame c

theorem connectionTimeout_frame (timer : Nat) : Frame 0 c (c.connectionTimeout timer) := by
  have herase : Frame 0 c { c with timers := c.timers.erase timer } := ⟨rfl, rfl, id, rfl⟩
  simp only [connectionTimeout]
  split
  · exact herase
  · exact herase.trans (call_frame _ .connectionTimeoutHandler nofun)

theorem setConnectionTimeoutHandler_frame (timeoutMs : Int) :
    Frame 0 c (c.setConnectionTimeoutHandler timeoutMs) := by
  unfold setConnectionTimeoutHandler
  split
  · exact refl_frame c
  · exact ⟨rfl, rfl, id, rfl⟩

private theorem establish_frame : Frame 0 c c.establish := by
  unfold establish
  set i := c.connections.length
  set c₁ : State := { c with
    cliConn := some i
    connections := c.connections ++ [{ state := .connected, sendQueueIsEmpty := true }] }
  have hnew : Frame 0 c c₁ := ⟨rfl, rfl, fun _ _ => Option.some_ne_none i, rfl⟩
  have hcancel := hnew.trans (cancelConnectionTimeoutTimer_frame c₁)
  have hconnected : Frame 0 c { c₁.cancelConnectionTimeoutTimer with connected := true } :=
    ⟨hcancel.ops, hcancel.resetByPeer, hcancel.current, hcancel.starts⟩
  exact hconnected.trans (call_frame _ (.connectionHandler i) nofun)

theorem connectorConnected_frame : Frame 0 c c.connectorConnected :=
  ((onConnector_frame c _).trans (establish_frame _)).trans (onConnector_frame _ _)

theorem connectorConnect_frame (inLoop : Bool) (outcome : Outcome) :
    Frame 0 c (c.connectorConnect inLoop outcome) := by
  cases outcome with
  | failed => exact call_frame c .connectionFailureHandler nofun
  | inProgress => exact onConnector_frame c _
  | connected =>
      simp only [connectorConnect]
      split
      · exact (onConnector_frame c _).trans (connectorConnected_frame _)
      · exact onConnector_frame c _

theorem connectorCheck_frame (err : Bool) : Frame 0 c (c.connectorCheck err) := by
  simp only [connectorCheck]
  split
  · split
    · exact (onConnector_frame c _).trans (onConnector_frame _ _)
    · exact (onConnector_frame c _).trans (call_frame _ .connectionFailureHandler nofun)
  · exact connectorConnected_frame c

theorem start_frame (inLoop : Bool) (outcome : Outcome) : Frame 1 c (c.start inLoop outcome) := by
  unfold start
  set c₁ := (c.call .start).addConnectionTimeoutTimer
  have hcall : Frame 1 c (c.call .start) := ⟨rfl, rfl, id, by simp [starts, call]⟩
  have htimer := hcall.trans (addConnectionTimeoutTimer_frame _)
  have hconnector : Frame 1 c { c₁ with
      connector := some
        { keepReconnect := c₁.ops.keepReconnect, connectChannel := none, retryTimer := false } } :=
    ⟨htimer.ops, htimer.resetByPeer, htimer.current, htimer.starts⟩
  exact hconnector.trans (connectorConnect_frame _ inLoop outcome)

end Frame

section Closing

variable {c : State} {i : Nat} (outcome : Outcome)

theorem disconnect_frame (c : State) :
    Frame 0 c ({ c with connected := false } : State).cancelConnectionTimeoutTimer := by
  have hdown : Frame 0 c { c with connected := false } := ⟨rfl, rfl, id, rfl⟩
  exact hdown.trans (cancelConnectionTimeoutTimer_frame _)

/-- Without a reset, or with `is_reconnect` off, a client that does not quit its loop
does nothing but call the close handler. -/
theorem shutdown_quiet (closeWait : Nat → State → Option State) (hquit : c.ops.isQuitLoop = false)
    (h : c.ops.isReconnect = false ∨ c.resetByPeer ≠ some i) :
    ∃ c', shutdown closeWait outcome i c = some c' ∧ Frame 0 c c' := by
  have hdown := disconnect_frame c
  refine ⟨_, ?_, hdown.trans (call_frame _ (.closeHandler i) nofun)⟩
  unfold shutdown
  have hstay : (({ c with connected := false } : State).cancelConnectionTimeoutTimer.ops.isReconnect &&
      ({ c with connected := false } : State).cancelConnectionTimeoutTimer.resetByPeer = some i) =
        false := by
    rw [hdown.ops, hdown.resetByPeer]
    rcases h with hoff | hother
    · rw [hoff, Bool.false_and]
    · simp [hother]
  have hloop : ({ c with connected := false } : State).cancelConnectionTimeoutTimer.ops.isQuitLoop =
      false := by
    rw [hdown.ops]
    exact hquit
  simp only [hloop, hstay, Bool.false_eq_true, if_false, Option.map_some]

theorem handleClose_quiet (depth : Nat) (isForced : Bool) (hquit : c.ops.isQuitLoop = false)
    (h : c.ops.isReconnect = false ∨ c.resetByPeer ≠ some i) :
    ∃ c', handleClose outcome (depth + 1) isForced i c = some c' ∧ Frame 0 c c' := by
  unfold handleClose
  split
  · exact ⟨c, rfl, refl_frame c⟩
  split
  · exact ⟨c, rfl, refl_frame c⟩
  split
  · exact ⟨_, rfl, onConnection_frame c i _⟩
  · obtain ⟨c', hdown, hframe⟩ := shutdown_quiet outcome (c := c.onConnection i _) _ hquit h
    exact ⟨c', hdown, (onConnection_frame c i _).trans hframe⟩

theorem cancelConnectionTimeoutTimer_cliConn (c : State) :
    c.cancelConnectionTimeoutTimer.cliConn = c.cliConn := by
  unfold cancelConnectionTimeoutTimer
  split <;> rfl

theorem activeShutdown_current (closeWait : Nat → State → Option State) {j : Nat}
    (hj : c.cliConn = some j) :
    activeShutdown closeWait c = closeWait j { c with
      connected := false, connector := none, ops := { c.ops with isReconnect := false } } := by
  simp only [activeShutdown]
  split
  case h_1 hnone => exact absurd (hnone.symm.trans hj) nofun
  case h_2 k hk =>
    obtain rfl : k = j := Option.some.inj (hk.symm.trans hj)
    rfl

theorem handleClose_forced (depth : Nat) (halive : c.Alive i) :
    handleClose outcome (depth + 1) true i c =
      shutdown (handleClose outcome depth false) outcome i
        (c.onConnection i fun conn => { conn with state := .closed }) := by
  obtain ⟨conn, hconn, hopen⟩ := halive
  rw [handleClose]
  simp only [hconn, hopen, if_false, Bool.not_true, Bool.false_and, Bool.false_eq_true]

/-- `is_reconnect` as `active_shutdown` leaves it. -/
def off (c : State) : State := { c with ops := { c.ops with isReconnect := false } }

/-- With `is_reconnect` on, a reset makes the client start again. It is off then. -/
theorem shutdown_restart (depth : Nat) (hquit : c.ops.isQuitLoop = false)
    (hon : c.ops.isReconnect = true) (hreset : c.resetByPeer = some i) (hcurrent : c.cliConn ≠ none) :
    ∃ c', shutdown (handleClose outcome (depth + 1) false) outcome i c = some c' ∧
      Frame 1 c.off c' := by
  set c₀ := ({ c with connected := false } : State).cancelConnectionTimeoutTimer with hc₀
  have hdown : Frame 0 c c₀ := disconnect_frame c
  obtain ⟨j, hj⟩ := Option.ne_none_iff_exists'.mp hcurrent
  have hcliConn : c₀.cliConn = some j := by
    rw [hc₀, cancelConnectionTimeoutTimer_cliConn]
    exact hj
  set c₁ : State := { c₀ with
    connected := false, connector := none, ops := { c₀.ops with isReconnect := false } }
  have hoff : Frame 0 c.off c₁ :=
    ⟨congrArg (fun ops : Options => { ops with isReconnect := false }) hdown.ops,
      hdown.resetByPeer, hdown.current, hdown.starts⟩
  have hquit₁ : c₁.ops.isQuitLoop = false := (congrArg Options.isQuitLoop hdown.ops).trans hquit
  obtain ⟨c₂, hclose, hframe⟩ :=
    handleClose_quiet (c := c₁) (i := j) outcome depth false hquit₁ (.inl rfl)
  have hrestart : restart (handleClose outcome (depth + 1) false) outcome c₀ =
      some (c₂.start true outcome) := by
    rw [restart, activeShutdown_current _ hcliConn, hclose]
    rfl
  refine ⟨(c₂.start true outcome).call (.closeHandler i), ?_,
    ((hoff.trans hframe).trans (start_frame c₂ true outcome)).trans
      (call_frame _ (.closeHandler i) nofun)⟩
  have hagain : (c₀.ops.isReconnect && c₀.resetByPeer = some i) = true := by
    rw [hdown.ops, hdown.resetByPeer]
    simp [hon, hreset]
  have hloop : c₀.ops.isQuitLoop = false := by
    rw [hdown.ops]
    exact hquit
  simp only [shutdown, ← hc₀, hloop, hagain, Bool.false_eq_true, if_false, if_true, hrestart,
    Option.map_some]

theorem Alive.current (h : c.Alive i) (hcurrent : c.HasCurrent) : c.cliConn ≠ none := by
  obtain ⟨conn, hconn, -⟩ := h
  apply hcurrent
  rintro hnil
  simp [hnil] at hconn

theorem handleReset_restart (hquit : c.ops.isQuitLoop = false) (hon : c.ops.isReconnect = true)
    (halive : c.Alive i) (hcurrent : c.HasCurrent) :
    ∃ c', handleReset outcome i c = some c' ∧ c'.ops = c.off.ops ∧ c'.resetByPeer = none ∧
      c'.HasCurrent ∧ c'.starts = c.starts + 1 := by
  have hcliConn := halive.current hcurrent
  have hmark : Alive { c with resetByPeer := some i } i := halive
  set c₁ := ({ c with resetByPeer := some i } : State).onConnection i
    fun conn => { conn with state := .closed }
  obtain ⟨c', hdown, hframe⟩ := shutdown_restart (c := c₁) outcome 0 hquit hon rfl hcliConn
  have hmarked := onConnection_frame { c with resetByPeer := some i } i
    fun conn => { conn with state := .closed }
  refine ⟨{ c' with resetByPeer := none }, ?_, hframe.ops, rfl, hframe.current (hmarked.current hcurrent),
    hframe.starts⟩
  rw [handleReset, nesting, handleClose_forced outcome 1 hmark, hdown]
  rfl

theorem handleReset_quiet (hquit : c.ops.isQuitLoop = false) (hoff : c.ops.isReconnect = false)
    (hunset : c.resetByPeer = none) :
    ∃ c', handleReset outcome i c = some c' ∧ Frame 0 c c' := by
  obtain ⟨c', hclose, hframe⟩ :=
    handleClose_quiet (c := { c with resetByPeer := some i }) (i := i) outcome 1 true hquit (.inl hoff)
  refine ⟨{ c' with resetByPeer := none }, ?_, ⟨hframe.ops, hunset.symm, hframe.current, hframe.starts⟩⟩
  rw [handleReset, nesting, hclose]
  rfl

theorem handleDrained_quiet (hquit : c.ops.isQuitLoop = false) (hunset : c.resetByPeer = none) :
    ∃ c', handleDrained outcome i c = some c' ∧ Frame 0 c c' := by
  set c₁ := c.onConnection i fun conn => { conn with sendQueueIsEmpty := true }
  have hsent : Frame 0 c c₁ := onConnection_frame c i _
  have hother : c₁.resetByPeer ≠ some i := by
    rw [hsent.resetByPeer, hunset]
    exact nofun
  obtain ⟨c', hclose, hframe⟩ := handleClose_quiet (c := c₁) outcome 1 true hquit (.inr hother)
  simp only [handleDrained]
  split
  · exact ⟨c', hclose, hsent.trans hframe⟩
  · exact ⟨c₁, rfl, hsent⟩

end Closing

end State

def Event.isReset : Event → Bool
  | .reset _ _ => true
  | _ => false

/-- How often the peer resets a connection. -/
def resets (events : List Event) : Nat := events.countP Event.isReset

namespace State

/-- A client after `n` resets. -/
structure AfterResets (n : Nat) (c : State) : Prop where
  quitLoop : c.ops.isQuitLoop = false
  reconnect : c.ops.isReconnect = true ↔ n = 0
  current : c.HasCurrent
  unset : c.resetByPeer = none

section Steps

variable {n : Nat} {c c' : State} {e : Event}

theorem AfterResets.frame {m : Nat} (h : AfterResets n c) (hframe : Frame m c c') :
    AfterResets n c' where
  quitLoop := by
    rw [hframe.ops]
    exact h.quitLoop
  reconnect := by
    rw [hframe.ops]
    exact h.reconnect
  current := hframe.current h.current
  unset := hframe.resetByPeer.trans h.unset

theorem AfterResets.reset (h : AfterResets n c) {i : Nat} (outcome : Outcome) (halive : c.Alive i) :
    ∃ c', c.execute (.reset i outcome) = some c' ∧ AfterResets (n + 1) c' ∧
      (c.starts < c'.starts ↔ n = 0) := by
  by_cases hfirst : n = 0
  · obtain ⟨c', hreset, hops, hunset, hcurrent, hstarts⟩ :=
      handleReset_restart outcome h.quitLoop (h.reconnect.mpr hfirst) halive h.current
    refine ⟨c', hreset, ⟨?_, ?_, hcurrent, hunset⟩, ?_⟩
    · rw [hops]
      exact h.quitLoop
    · rw [hops]
      simp [off]
    · rw [hstarts]
      exact ⟨fun _ => hfirst, fun _ => Nat.lt_succ_self _⟩
  · have hoff : c.ops.isReconnect = false := by
      rw [← Bool.not_eq_true, h.reconnect]
      exact hfirst
    obtain ⟨c', hreset, hframe⟩ := handleReset_quiet (i := i) outcome h.quitLoop hoff h.unset
    have hafter := h.frame hframe
    refine ⟨c', hreset, ⟨hafter.quitLoop, ?_, hafter.current, hafter.unset⟩, ?_⟩
    · rw [hafter.reconnect]
      omega
    · rw [hframe.starts]
      omega

theorem AfterResets.other (h : AfterResets n c) (he : e.isReset = false) :
    ∃ c', c.execute e = some c' ∧ AfterResets n c' := by
  have hnot : ∀ i, c.resetByPeer ≠ some i := by
    intro i
    rw [h.unset]
    exact nofun
  cases e with
  | setConnectionTimeoutHandler timeoutMs =>
      exact ⟨_, rfl, h.frame (setConnectionTimeoutHandler_frame c timeoutMs)⟩
  | start inLoop outcome => exact ⟨_, rfl, h.frame (start_frame c inLoop outcome)⟩
  | check err => exact ⟨_, rfl, h.frame (connectorCheck_frame c err)⟩
  | connected => exact ⟨_, rfl, h.frame (connectorConnected_frame c)⟩
  | retry outcome =>
      exact ⟨_, rfl, h.frame ((onConnector_frame c _).trans (connectorConnect_frame _ true outcome))⟩
  | connectionTimeout timer => exact ⟨_, rfl, h.frame (connectionTimeout_frame c timer)⟩
  | queued i => exact ⟨_, rfl, h.frame (onConnection_frame c i _)⟩
  | drained i outcome =>
      obtain ⟨c', hdrained, hframe⟩ := handleDrained_quiet (i := i) outcome h.quitLoop h.unset
      exact ⟨c', hdrained, h.frame hframe⟩
  | close i outcome =>
      obtain ⟨c', hclose, hframe⟩ := handleClose_quiet outcome 1 false h.quitLoop (.inr (hnot i))
      exact ⟨c', hclose, h.frame hframe⟩
  | error i outcome =>
      obtain ⟨c', hclose, hframe⟩ := handleClose_quiet outcome 1 true h.quitLoop (.inr (hnot i))
      exact ⟨c', hclose, h.frame hframe⟩
  | reset i outcome => cases he

end Steps

private theorem create_afterResets {ops : Options} (hon : ops.isReconnect = true)
    (hquit : ops.isQuitLoop = false) : AfterResets 0 (create ops) where
  quitLoop := hquit
  reconnect := by simp [create, hon]
  current hne := absurd rfl hne
  unset := rfl

private theorem run_afterResets {n : Nat} {c : State} (h : AfterResets n c) {events : List Event}
    (hcomes : Admissible step Comes (some c) events) :
    ∃ c', run step (some c) events = some c' ∧ AfterResets (n + resets events) c' := by
  induction events generalizing n c with
  | nil => exact ⟨c, rfl, h⟩
  | cons e events ih =>
      obtain ⟨hfirst, hrest⟩ := hcomes
      have hnext : ∃ c', c.execute e = some c' ∧ AfterResets (n + resets [e]) c' := by
        cases he : e.isReset with
        | false =>
            rw [show resets [e] = 0 by simp [resets, he]]
            exact h.other he
        | true =>
            rw [show resets [e] = 1 by simp [resets, he]]
            cases e with
            | reset i outcome =>
                obtain ⟨c', hreset, hafter, -⟩ := h.reset outcome (hfirst c rfl)
                exact ⟨c', hreset, hafter⟩
            | _ => cases he
      obtain ⟨c', hstep, hafter⟩ := hnext
      have hstep' : step (some c) e = some c' := hstep
      rw [hstep'] at hrest
      obtain ⟨c'', hrun, hend⟩ := ih hafter hrest
      refine ⟨c'', ?_, ?_⟩
      · rw [run_cons, hstep']
        exact hrun
      · have hcount : resets (e :: events) = resets [e] + resets events := by
          simp [resets, List.countP_cons, Nat.add_comm]
        rw [hcount, ← Nat.add_assoc]
        exact hend

/-- A client that is to reconnect does so after the first reset of its connection, and
after no other one: the option is on as long as there has been none. -/
theorem reconnects_iff {ops : Options} (hon : ops.isReconnect = true)
    (hquit : ops.isQuitLoop = false) {events : List Event}
    (hcomes : Admissible step Comes (some (create ops)) events) :
    ∃ c, run step (some (create ops)) events = some c ∧
      (c.ops.isReconnect = true ↔ resets events = 0) ∧
      ∀ i outcome, c.Possible (.reset i outcome) →
        ∃ c', c.execute (.reset i outcome) = some c' ∧
          (c.starts < c'.starts ↔ resets events = 0) := by
  obtain ⟨c, hrun, hafter⟩ := run_afterResets (create_afterResets hon hquit) hcomes
  rw [Nat.zero_add] at hafter
  refine ⟨c, hrun, hafter.reconnect, ?_⟩
  intro i outcome halive
  obtain ⟨c', hreset, -, hstarts⟩ := hafter.reset outcome halive
  exact ⟨c', hreset, hstarts⟩

def connectsOnce : List Event := [.start true .inProgress, .check false]

theorem reconnects_connectsOnce :
    ∃ c c', run step (some (create { isReconnect := true })) connectsOnce = some c ∧
      c.execute (.reset 0 .inProgress) = some c' ∧ c.starts < c'.starts := by
  have hcomes : Admissible step Comes (some (create { isReconnect := true })) connectsOnce := by
    refine ⟨?_, ?_, trivial⟩
    · rintro s ⟨⟩
      trivial
    · rintro s ⟨⟩
      exact ⟨_, rfl, rfl⟩
  obtain ⟨c, hrun, -, hreset⟩ := reconnects_iff rfl rfl hcomes
  have halive : c.Alive 0 := by
    obtain rfl := Option.some.inj hrun
    exact ⟨_, rfl, nofun⟩
  obtain ⟨c', hnext, hstarts⟩ := hreset 0 .inProgress halive
  exact ⟨c, c', hrun, hnext, hstarts.mpr rfl⟩

/-- The client is reset and connects again. -/
def connectsTwice : List Event := connectsOnce ++ [.reset 0 .inProgress, .check false]

/-- The second reset is the last the client hears. -/
theorem second_reset_not_reconnected :
    ∃ c c', Admissible step Comes (some (create { isReconnect := true })) connectsTwice ∧
      run step (some (create { isReconnect := true })) connectsTwice = some c ∧
      c.Possible (.reset 1 .inProgress) ∧ c.execute (.reset 1 .inProgress) = some c' ∧
      c'.starts = c.starts ∧ c.ops.isReconnect = false := by
  refine ⟨_, _, ⟨?_, ?_, ?_, ?_, trivial⟩, rfl, ⟨_, rfl, nofun⟩, rfl, rfl, rfl⟩
  · rintro s ⟨⟩
    trivial
  · rintro s ⟨⟩
    exact ⟨_, rfl, rfl⟩
  · rintro s ⟨⟩
    exact ⟨_, rfl, nofun⟩
  · rintro s ⟨⟩
    exact ⟨_, rfl, rfl⟩

end State

end Angel.Client
