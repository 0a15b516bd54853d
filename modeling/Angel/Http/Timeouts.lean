import Angel.Http.RequestSteps

/-!
Request-timeout timers. A connection has one field for the id of its timer, and
`receive` puts the connection back before it cancels the timer under that id. When
no request slips in between, and a response is not taken before the loop thread has
added the timer, each open request has one timer, its own.
-/

namespace Angel.Http.HttpClient

open Lib

-- the three types come with their decidable equality throughout
set_option linter.unusedSectionVars false

variable {R π θ : Type} [DecidableEq R] [DecidableEq π] [DecidableEq θ]
  {maxConns : Nat} {s s' : HttpClient R π θ} {r : R} {c : π} {timer : RequestTimer R π}

/-- The timers that will expire unless they are cancelled: those in the store, and
those that are queued for it. -/
def live (s : HttpClient R π θ) : List (RequestTimer R π) := s.functors ++ s.timers

/-- The timer holds the connection. -/
def At (r : R) (c : π) (timer : RequestTimer R π) : Prop := timer.route = r ∧ timer.conn = c

instance : DecidablePred (At r c) := fun timer =>
  inferInstanceAs (Decidable (timer.route = r ∧ timer.conn = c))

/-- A connection whose request has been sent and has no result yet. -/
def InFlight (conn : PooledConnection ResponsePromise) : Prop :=
  conn.leased = true ∧ conn.responsePromise.sent = true ∧ conn.responsePromise.outcome = none

/-- Each request in flight has exactly one timer, set for it, and the next timer to
expire resolves the request it was set for. -/
def OwnTimers (s : HttpClient R π θ) : Prop :=
  (∀ r c conn, s.conn r c = some conn → InFlight conn →
    ∃ timer, s.live.filter (At r c) = [timer] ∧ timer.request = conn.responsePromise.request) ∧
  ∀ timer, s.Allowed (.expire timer) →
    ∃ conn, s.conn timer.route timer.conn = some conn ∧ InFlight conn ∧
      conn.responsePromise.request = timer.request

/-- The steps that keep the timers apart: `send` does not take a connection that the
loop thread is still at work on, and the end of a connection's request comes after
its timer has been added. -/
def Orderly (s : HttpClient R π θ) : ClientEvent R π θ → Prop
  | .lock t _ => ∀ r c, s.threads t = .sending r → (s.pool r).avail.getLast? = some c →
      ¬ s.loop.On r c
  | .receive r c => ∀ timer ∈ s.functors, ¬ At r c timer
  | .reset r c => ∀ timer ∈ s.functors, ¬ At r c timer
  | _ => True

/-- The loop thread has the result of the request and the timer still to cancel. -/
def Cancelling (r : R) (c : π) : LoopPhase R π → Prop
  | .put r' c' => r' = r ∧ c' = c
  | .cancel r' c' _ => r' = r ∧ c' = c
  | _ => False

/-- The loop thread has put the connection back. -/
def HasPutBack (r : R) (c : π) : LoopPhase R π → Prop
  | .cancel r' c' .wakeup => r' = r ∧ c' = c
  | .clear r' c' .wakeup => r' = r ∧ c' = c
  | _ => False

/-- The ids of timers are used once. -/
structure Ids (s : HttpClient R π θ) : Prop where
  next : 0 < s.nextTimer
  bound : ∀ r c conn, s.conn r c = some conn → conn.requestTimeoutTimerId < s.nextTimer
  apart : ∀ r c conn r' c' conn', s.conn r c = some conn → s.conn r' c' = some conn' →
    0 < conn.requestTimeoutTimerId → conn.requestTimeoutTimerId = conn'.requestTimeoutTimerId →
    r' = r ∧ c' = c
  distinct : (s.live.map RequestTimer.id).Nodup
  positive : ∀ timer ∈ s.live, 0 < timer.id

/-- What a live timer stands for: the request in flight on its connection, or one
whose result is there and whose timer is about to be cancelled. -/
def Owned (s : HttpClient R π θ) (timer : RequestTimer R π)
    (conn : PooledConnection ResponsePromise) : Prop :=
  conn.requestTimeoutTimerId = timer.id ∧ conn.responsePromise.request = timer.request ∧
  conn.responsePromise.sent = true ∧
  ((InFlight conn ∧ ¬ s.loop.On timer.route timer.conn) ∨
    (Cancelling timer.route timer.conn s.loop ∧ timer ∉ s.functors))

/-- What holds of one connection and its timers. -/
structure Tracked (r : R) (c : π) (s : HttpClient R π θ) : Prop where
  owned : ∀ timer ∈ s.live, At r c timer → ∃ conn, s.conn r c = some conn ∧ s.Owned timer conn
  covered : ∀ conn, s.conn r c = some conn → InFlight conn → ∃ timer ∈ s.live, At r c timer
  opened : ∀ conn, s.conn r c = some conn → conn.leased = true →
    conn.responsePromise.outcome = none ∨ s.loop.On r c
  closed : ∀ conn, s.conn r c = some conn → s.loop.On r c → ¬ InFlight conn
  putBack : ∀ conn, s.conn r c = some conn → HasPutBack r c s.loop → conn.leased = false

theorem Cancelling.on {phase : LoopPhase R π} (h : Cancelling r c phase) :
    phase.On r c := by
  cases phase with
  | put r' c' => exact h
  | cancel r' c' after => exact h
  | idle => exact h
  | clear r' c' after => exact h.elim
  | wakeup r' => exact h
  | remove r' c' => exact h.elim
  | aborted => exact h

theorem HasPutBack.on {phase : LoopPhase R π} (h : HasPutBack r c phase) : phase.On r c := by
  cases phase with
  | cancel r' c' after =>
      cases after with
      | wakeup => exact h
      | remove => exact h.elim
  | clear r' c' after =>
      cases after with
      | wakeup => exact h
      | remove => exact h.elim
  | put r' c' => exact h.elim
  | idle => exact h
  | wakeup r' => exact h
  | remove r' c' => exact h.elim
  | aborted => exact h

theorem Tracked.frame (h : s.Tracked r c) (hconn : s'.conn r c = s.conn r c)
    (hlive : ∀ timer, At r c timer → (timer ∈ s'.live ↔ timer ∈ s.live))
    (hfunctors : ∀ timer, At r c timer → timer ∈ s'.functors → timer ∈ s.functors)
    (hloop : s'.loop = s.loop ∨ ¬ s.loop.On r c ∧ ¬ s'.loop.On r c) : s'.Tracked r c := by
  refine ⟨?_, ?_, ?_, ?_, ?_⟩
  · intro timer hmem hat
    obtain ⟨conn, hfound, hid, hrequest, hsent, hstate⟩ := h.owned timer ((hlive timer hat).mp hmem) hat
    refine ⟨conn, hconn ▸ hfound, hid, hrequest, hsent, ?_⟩
    obtain ⟨rfl, rfl⟩ := hat
    rcases hloop with hloop | ⟨hoff, hoff'⟩
    · rw [hloop]
      refine hstate.imp id ?_
      rintro ⟨hcancelling, hnot⟩
      exact ⟨hcancelling, fun hin => hnot (hfunctors timer ⟨rfl, rfl⟩ hin)⟩
    · rcases hstate with ⟨hflight, -⟩ | ⟨hcancelling, -⟩
      · exact .inl ⟨hflight, hoff'⟩
      · exact absurd (Cancelling.on hcancelling) hoff
  · intro conn hfound hflight
    obtain ⟨timer, hmem, hat⟩ := h.covered conn (hconn ▸ hfound) hflight
    exact ⟨timer, (hlive timer hat).mpr hmem, hat⟩
  · intro conn hfound hleased
    have hopened := h.opened conn (hconn ▸ hfound) hleased
    rcases hloop with hloop | ⟨hoff, -⟩
    · rw [hloop]
      exact hopened
    · exact .inl (hopened.resolve_right hoff)
  · intro conn hfound hon
    rcases hloop with hloop | ⟨-, hoff'⟩
    · exact h.closed conn (hconn ▸ hfound) (hloop ▸ hon)
    · exact absurd hon hoff'
  · intro conn hfound hput
    rcases hloop with hloop | ⟨-, hoff'⟩
    · exact h.putBack conn (hconn ▸ hfound) (hloop ▸ hput)
    · exact absurd (HasPutBack.on hput) hoff'

theorem conn_setPool_update {p : RoutePool π} {x : Option (PooledConnection ResponsePromise)}
    (hp : p.conns = Function.update (s.pool r).conns c x) (r' : R) (c' : π) :
    (s.setPool r p).conn r' c' = if r' = r ∧ c' = c then x else s.conn r' c' := by
  rw [conn_setPool]
  by_cases hr : r' = r
  · subst hr
    rw [Function.update_self, hp]
    by_cases hc : c' = c
    · subst hc
      simp
    · simp [hc, conn]
  · simp [hr]

theorem conn_setConn_update (new : PooledConnection ResponsePromise) (r' : R) (c' : π) :
    (s.setConn r c new).conn r' c' = if r' = r ∧ c' = c then some new else s.conn r' c' :=
  conn_setPool_update rfl r' c'

theorem Ids.frame (h : s.Ids) (hnext : s'.nextTimer = s.nextTimer)
    (hconn : ∀ r c conn', s'.conn r c = some conn' → 0 < conn'.requestTimeoutTimerId →
      ∃ conn, s.conn r c = some conn ∧ conn.requestTimeoutTimerId = conn'.requestTimeoutTimerId)
    (hlive : (s'.live.map RequestTimer.id).Nodup) (hsub : ∀ timer ∈ s'.live, timer ∈ s.live) :
    s'.Ids := by
  refine ⟨hnext ▸ h.next, ?_, ?_, hlive, fun timer hmem => h.positive timer (hsub timer hmem)⟩
  · intro r c conn' hfound
    rw [hnext]
    by_cases hpos : 0 < conn'.requestTimeoutTimerId
    · obtain ⟨conn, hold, hid⟩ := hconn r c conn' hfound hpos
      exact hid ▸ h.bound r c conn hold
    · have := h.next
      omega
  · intro r₁ c₁ conn₁ r₂ c₂ conn₂ hfound₁ hfound₂ hpos hsame
    obtain ⟨old₁, hold₁, hid₁⟩ := hconn r₁ c₁ conn₁ hfound₁ hpos
    obtain ⟨old₂, hold₂, hid₂⟩ := hconn r₂ c₂ conn₂ hfound₂ (hsame ▸ hpos)
    exact h.apart r₁ c₁ old₁ r₂ c₂ old₂ hold₁ hold₂ (by omega) (by omega)

private theorem live_id_lt (hids : s.Ids) (htracked : ∀ r c, s.Tracked r c)
    (hmem : timer ∈ s.live) :
    timer.id < s.nextTimer := by
  obtain ⟨conn, hconn, hid, -⟩ := (htracked timer.route timer.conn).owned timer hmem ⟨rfl, rfl⟩
  rw [← hid]
  exact hids.bound _ _ conn hconn

theorem Ids.send {new : PooledConnection ResponsePromise} {request : Nat} (hids : s.Ids)
    (htracked : ∀ r c, s.Tracked r c) (hid : new.requestTimeoutTimerId = s.nextTimer)
    (hconn : ∀ r' c', s'.conn r' c' = if r' = r ∧ c' = c then some new else s.conn r' c')
    (hnext : s'.nextTimer = s.nextTimer + 1)
    (hlive : s'.live.Perm (⟨s.nextTimer, r, c, request⟩ :: s.live)) : s'.Ids := by
  have hbefore : ∀ r' c' conn, s'.conn r' c' = some conn → ¬ (r' = r ∧ c' = c) →
      conn.requestTimeoutTimerId < s.nextTimer := by
    intro r' c' conn hfound hne
    rw [hconn, if_neg hne] at hfound
    exact hids.bound r' c' conn hfound
  have hself : ∀ r' c' conn, s'.conn r' c' = some conn → r' = r ∧ c' = c →
      conn.requestTimeoutTimerId = s.nextTimer := by
    intro r' c' conn hfound heq
    rw [hconn, if_pos heq, Option.some.injEq] at hfound
    exact hfound ▸ hid
  refine ⟨by omega, ?_, ?_, ?_, ?_⟩
  · intro r' c' conn hfound
    by_cases heq : r' = r ∧ c' = c
    · have := hself r' c' conn hfound heq
      omega
    · have := hbefore r' c' conn hfound heq
      omega
  · intro r₁ c₁ conn₁ r₂ c₂ conn₂ hfound₁ hfound₂ hpos hsame
    by_cases heq₁ : r₁ = r ∧ c₁ = c
    · by_cases heq₂ : r₂ = r ∧ c₂ = c
      · exact ⟨heq₂.1.trans heq₁.1.symm, heq₂.2.trans heq₁.2.symm⟩
      · have hid₁ := hself r₁ c₁ conn₁ hfound₁ heq₁
        have hid₂ := hbefore r₂ c₂ conn₂ hfound₂ heq₂
        omega
    · by_cases heq₂ : r₂ = r ∧ c₂ = c
      · have hid₁ := hbefore r₁ c₁ conn₁ hfound₁ heq₁
        have hid₂ := hself r₂ c₂ conn₂ hfound₂ heq₂
        omega
      · rw [hconn, if_neg heq₁] at hfound₁
        rw [hconn, if_neg heq₂] at hfound₂
        exact hids.apart r₁ c₁ conn₁ r₂ c₂ conn₂ hfound₁ hfound₂ hpos hsame
  · apply (hlive.map RequestTimer.id).nodup_iff.mpr
    simp only [List.map_cons, List.nodup_cons, List.mem_map, not_exists, not_and]
    refine ⟨?_, hids.distinct⟩
    intro timer hmem
    exact Nat.ne_of_lt (live_id_lt hids htracked hmem)
  · intro timer hmem
    rcases List.mem_cons.mp (hlive.mem_iff.mp hmem) with rfl | hold
    · exact hids.next
    · exact hids.positive timer hold

theorem Tracked.send {new : PooledConnection ResponsePromise}
    (hnone : ∀ timer ∈ s.live, ¬ At r c timer) (hid : new.requestTimeoutTimerId = s.nextTimer)
    (hflight : InFlight new) (hconn : s'.conn r c = some new) (hoff : ¬ s'.loop.On r c)
    (hlive : s'.live.Perm (⟨s.nextTimer, r, c, new.responsePromise.request⟩ :: s.live)) :
    s'.Tracked r c := by
  refine ⟨?_, ?_, ?_, ?_, ?_⟩
  · intro timer hmem hat
    rcases List.mem_cons.mp (hlive.mem_iff.mp hmem) with rfl | hold
    · exact ⟨new, hconn, hid, rfl, hflight.2.1, .inl ⟨hflight, hoff⟩⟩
    · exact absurd hat (hnone timer hold)
  · intro conn _ _
    exact ⟨_, hlive.mem_iff.mpr List.mem_cons_self, rfl, rfl⟩
  · intro conn hfound _
    rw [hconn, Option.some.injEq] at hfound
    exact .inl (hfound ▸ hflight.2.2)
  · intro conn _ hon
    exact absurd hon hoff
  · intro conn _ hput
    exact absurd (HasPutBack.on hput) hoff

theorem Tracked.quiet (hnone : ∀ timer ∈ s.live, ¬ At r c timer)
    (hconn : ∀ conn, s.conn r c = some conn → ¬ InFlight conn ∧
      (conn.leased = true → conn.responsePromise.outcome = none ∨ s.loop.On r c) ∧
      (HasPutBack r c s.loop → conn.leased = false)) : s.Tracked r c where
  owned := fun timer hmem hat => absurd hat (hnone timer hmem)
  covered := fun conn hfound hflight => absurd hflight (hconn conn hfound).1
  opened := fun conn hfound => (hconn conn hfound).2.1
  closed := fun conn hfound _ => (hconn conn hfound).1
  putBack := fun conn hfound => (hconn conn hfound).2.2

/-- All the timers and connections of a client. -/
structure Timed (s : HttpClient R π θ) : Prop where
  ids : s.Ids
  tracked : ∀ r c, s.Tracked r c

theorem init_timed : (init : HttpClient R π θ).Timed where
  ids := ⟨Nat.one_pos, by simp [init, conn, pool, HttpConnectionPool.init],
    by simp [init, conn, pool, HttpConnectionPool.init], by simp [init, live], by simp [init, live]⟩
  tracked := by
    intro r c
    refine Tracked.quiet (by simp [init, live]) ?_
    simp [init, conn, pool, HttpConnectionPool.init]

theorem no_timer_of_not_leased {conn : PooledConnection ResponsePromise} (h : s.Tracked r c)
    (hconn : s.conn r c = some conn) (hleased : conn.leased = false) (hoff : ¬ s.loop.On r c) :
    ∀ timer ∈ s.live, ¬ At r c timer := by
  rintro timer hmem ⟨rfl, rfl⟩
  obtain ⟨conn', hconn', -, -, -, hstate⟩ := h.owned timer hmem ⟨rfl, rfl⟩
  obtain rfl := Option.some.inj (hconn.symm.trans hconn')
  rcases hstate with ⟨hflight, -⟩ | ⟨hcancelling, -⟩
  · simp [hflight.1] at hleased
  · exact hoff (Cancelling.on hcancelling)

theorem no_timer_of_unsent {conn : PooledConnection ResponsePromise} (h : s.Tracked r c)
    (hconn : s.conn r c = some conn) (hsent : conn.responsePromise.sent = false) :
    ∀ timer ∈ s.live, ¬ At r c timer := by
  intro timer hmem hat
  obtain ⟨conn', hconn', -, -, hsent', -⟩ := h.owned timer hmem hat
  obtain rfl := Option.some.inj (hconn.symm.trans hconn')
  simp [hsent'] at hsent

theorem no_timer_of_absent (h : s.Tracked r c) (hconn : s.conn r c = none) :
    ∀ timer ∈ s.live, ¬ At r c timer := by
  intro timer hmem hat
  obtain ⟨conn, hconn', -⟩ := h.owned timer hmem hat
  simp [hconn] at hconn'

theorem no_timer_of_on (h : s.Tracked r c) (hon : s.loop.On r c)
    (hnot : ¬ Cancelling r c s.loop) : ∀ timer ∈ s.live, ¬ At r c timer := by
  rintro timer hmem ⟨rfl, rfl⟩
  obtain ⟨conn, -, -, -, -, hstate⟩ := h.owned timer hmem ⟨rfl, rfl⟩
  rcases hstate with ⟨-, hoff⟩ | ⟨hcancelling, -⟩
  · exact hoff hon
  · exact hnot hcancelling

theorem Timed.stepAt (h : s.Timed) (hids : s'.Ids) (hself : s'.Tracked r c)
    (hconn : ∀ r' c', ¬ (r' = r ∧ c' = c) → s'.conn r' c' = s.conn r' c')
    (hlive : ∀ timer, ¬ At r c timer → (timer ∈ s'.live ↔ timer ∈ s.live))
    (hfunctors : ∀ timer, ¬ At r c timer → timer ∈ s'.functors → timer ∈ s.functors)
    (hloop : s'.loop = s.loop ∨
      ∀ r' c', ¬ (r' = r ∧ c' = c) → ¬ s.loop.On r' c' ∧ ¬ s'.loop.On r' c') : s'.Timed := by
  refine ⟨hids, ?_⟩
  intro r' c'
  by_cases heq : r' = r ∧ c' = c
  · rw [heq.1, heq.2]
    exact hself
  · have hat : ∀ timer : RequestTimer R π, At r' c' timer → ¬ At r c timer := by
      rintro timer ⟨rfl, rfl⟩ hat
      exact heq hat
    exact (h.tracked r' c').frame (hconn r' c' heq) (fun timer hmem => hlive timer (hat timer hmem))
      (fun timer hmem => hfunctors timer (hat timer hmem)) (hloop.imp id (fun hoff => hoff r' c' heq))

theorem Timed.same (h : s.Timed) (hconn : s'.conn = s.conn) (hfunctors : s'.functors = s.functors)
    (htimers : s'.timers = s.timers) (hloop : s'.loop = s.loop)
    (hnext : s'.nextTimer = s.nextTimer) : s'.Timed := by
  have hlive : s'.live = s.live := by rw [live, live, hfunctors, htimers]
  refine ⟨?_, ?_⟩
  · refine h.ids.frame hnext ?_ (hlive ▸ h.ids.distinct) (by simp [hlive])
    intro r c conn hfound _
    exact ⟨conn, hconn ▸ hfound, rfl⟩
  · intro r c
    exact (h.tracked r c).frame (by rw [hconn]) (by simp [hlive]) (by simp [hfunctors]) (.inl hloop)

private theorem create_timed {p : RoutePool π} (promise : ResponsePromise)
    (hvalid : s.Valid maxConns)
    (h : s.Timed) (hfresh : s.conn r c = none) (hunsent : promise.sent = false)
    (hopen : promise.outcome = none)
    (hp : p.conns = Function.update (s.pool r).conns c (some ⟨false, true, false, 0, promise⟩)) :
    (s.setPool r p).Timed := by
  have hconn := conn_setPool_update hp
  refine h.stepAt (r := r) (c := c) ?_ ?_ ?_ (fun _ _ => Iff.rfl) (fun _ _ => id) (.inl rfl)
  · refine h.ids.frame rfl ?_ h.ids.distinct (fun _ => id)
    intro r' c' conn hfound hpos
    rw [hconn] at hfound
    split at hfound
    · obtain rfl := Option.some.inj hfound
      exact absurd hpos (Nat.lt_irrefl 0)
    · exact ⟨conn, hfound, rfl⟩
  · have hnone := no_timer_of_absent (h.tracked r c) hfresh
    refine Tracked.quiet hnone ?_
    intro conn hfound
    rw [hconn, if_pos ⟨rfl, rfl⟩] at hfound
    obtain rfl := Option.some.inj hfound
    refine ⟨fun hflight => Bool.false_ne_true (hunsent.symm.trans hflight.2.1), fun _ => .inl hopen,
      ?_⟩
    intro hput
    obtain ⟨conn, hheld, -⟩ := hvalid.held r c (HasPutBack.on hput)
    simp [hfresh] at hheld
  · intro r' c' hne
    rw [hconn, if_neg hne]

theorem send_timed (new : PooledConnection ResponsePromise) (h : s.Timed)
    (hnone : ∀ timer ∈ s.live, ¬ At r c timer) (hid : new.requestTimeoutTimerId = s.nextTimer)
    (hflight : InFlight new) (hoff : ¬ s.loop.On r c)
    (hconn : ∀ r' c', s'.conn r' c' = if r' = r ∧ c' = c then some new else s.conn r' c')
    (hnext : s'.nextTimer = s.nextTimer + 1) (hloop : s'.loop = s.loop)
    (hlive : s'.live.Perm (⟨s.nextTimer, r, c, new.responsePromise.request⟩ :: s.live))
    (hfunctors : ∀ timer, ¬ At r c timer → timer ∈ s'.functors → timer ∈ s.functors) : s'.Timed := by
  refine h.stepAt (r := r) (c := c) ?_ ?_ ?_ ?_ hfunctors (.inl hloop)
  · exact h.ids.send h.tracked hid hconn hnext hlive
  · refine Tracked.send hnone hid hflight ?_ (hloop ▸ hoff) hlive
    rw [hconn, if_pos ⟨rfl, rfl⟩]
  · intro r' c' hne
    rw [hconn, if_neg hne]
  · intro timer hat
    rw [hlive.mem_iff, List.mem_cons]
    refine or_iff_right ?_
    rintro rfl
    exact hat ⟨rfl, rfl⟩

theorem lock_timed {t : θ} (fresh : π) (hvalid : s.Valid maxConns) (h : s.Timed)
    (hfresh : s.conn r fresh = none)
    (horderly : ∀ c, (s.pool r).avail.getLast? = some c → ¬ s.loop.On r c) :
    (s.lockedSend maxConns t r fresh).Timed := by
  rcases lockedSend_cases t fresh (hvalid.pools r) with
    ⟨-, -, hstep⟩ | ⟨-, -, hstep⟩ | ⟨front, c, conn, havail, hconn, hstep⟩
  · rw [hstep]
    refine h.same ?_ rfl rfl rfl rfl
    rw [conn_setThread, conn_setPool]
    exact Function.update_eq_self r s.conn
  · rw [hstep]
    have hcreated := create_timed ⟨s.nextRequest, false, none⟩ hvalid h hfresh rfl rfl
      (p := createdPool fresh ⟨s.nextRequest, false, none⟩ (s.pool r)) rfl
    exact hcreated.same rfl rfl rfl rfl rfl
  · have hoff : ¬ s.loop.On r c := horderly c (by simp [havail])
    have hidle : conn.leased = false := by
      have hvalid' := (hvalid.pools r).valid
      have hnot := hvalid'.disjoint (c := c) (by simp [havail])
      rw [← hvalid'.flag c conn hconn] at hnot
      simpa using hnot
    rw [hstep]
    refine send_timed
      { conn with
        leased := true
        requestTimeoutTimerId := s.nextTimer
        responsePromise := ⟨s.nextRequest, true, none⟩ }
      h (no_timer_of_not_leased (h.tracked r c) hconn hidle hoff) rfl ⟨rfl, rfl, rfl⟩ hoff ?_ rfl rfl
      ?_ ?_
    · intro r' c'
      exact conn_setPool_update rfl r' c'
    · exact (List.perm_append_singleton _ s.functors).append_right s.timers
    · intro timer hat hmem
      rcases List.mem_append.mp hmem with hold | hnew
      · exact hold
      · rw [List.mem_singleton.mp hnew] at hat
        exact absurd ⟨rfl, rfl⟩ hat

theorem establish_timed {conn : PooledConnection ResponsePromise} (h : s.Timed)
    (hidle : s.loop = .idle) (hconn : s.conn r c = some conn) (hleased : conn.leased = true)
    (hunsent : conn.responsePromise.sent = false) : (s.sendOn r c conn true).Timed := by
  have hoff : ¬ s.loop.On r c := by simp [hidle, LoopPhase.On]
  have hopen := ((h.tracked r c).opened conn hconn hleased).resolve_right hoff
  simp only [sendOn, if_true]
  refine send_timed (sentWith s.nextTimer conn) h (no_timer_of_unsent (h.tracked r c) hconn hunsent)
    rfl ⟨hleased, rfl, hopen⟩ hoff ?_ rfl rfl ?_ (fun _ _ => id)
  · exact fun r' c' => conn_setConn_update (sentWith s.nextTimer conn) r' c'
  · show (s.functors ++ (s.timers ++ [_])).Perm _
    rw [← List.append_assoc]
    exact List.perm_append_singleton _ _

theorem runFunctor_timed (h : s.Timed) :
    (s.step maxConns .runFunctor).Timed := by
  cases hfunctors : s.functors with
  | nil => simpa [step, hfunctors] using h
  | cons timer rest =>
      set s' : HttpClient R π θ := { s with functors := rest, timers := s.timers ++ [timer] } with hs'
      have hstep : s.step maxConns .runFunctor = s' := by simp [step, hfunctors, hs']
      have hlive : s'.live.Perm s.live := by
        simp only [live, hs', hfunctors, List.cons_append, ← List.append_assoc]
        exact List.perm_append_singleton timer (rest ++ s.timers)
      rw [hstep]
      refine ⟨?_, ?_⟩
      · refine h.ids.frame rfl ?_ ((hlive.map _).nodup_iff.mpr h.ids.distinct)
          (fun _ hmem => hlive.mem_iff.mp hmem)
        intro r c conn hfound _
        exact ⟨conn, hfound, rfl⟩
      · intro r c
        refine (h.tracked r c).frame rfl (fun _ _ => hlive.mem_iff) ?_ (.inl rfl)
        intro other _ hmem
        rw [hfunctors]
        exact List.mem_cons_of_mem timer hmem

/-- A callback gives a request its result and goes on with the connection; `timers`
are those that are left. -/
theorem notify_timed {outcome : Outcome} {next : LoopPhase R π} {timers : List (RequestTimer R π)}
    {conn : PooledConnection ResponsePromise} (h : s.Timed) (hidle : s.loop = .idle)
    (hconn : s.conn r c = some conn) (hleased : conn.leased = true)
    (hsub : timers.Sublist s.timers)
    (hkeep : ∀ timer ∈ s.timers, ¬ At r c timer → timer ∈ timers)
    (hon : ∀ r' c', next.On r' c' ↔ r' = r ∧ c' = c) (hput : ¬ HasPutBack r c next)
    (hcancel : ∀ timer ∈ s.functors ++ timers, At r c timer →
      Cancelling r c next ∧ timer ∉ s.functors) :
    (({ s with timers := timers } : HttpClient R π θ).notify r c outcome next).Timed := by
  have hoff : ∀ r' c', ¬ s.loop.On r' c' := by simp [hidle, LoopPhase.On]
  have hopen := ((h.tracked r c).opened conn hconn hleased).resolve_right (hoff r c)
  set s₀ : HttpClient R π θ := { s with timers := timers } with hs₀
  have hconn₀ : s₀.conn r c = some conn := hconn
  have hlookup : ∀ r' c', (s₀.setConn r c (settle outcome conn)).conn r' c' =
      if r' = r ∧ c' = c then some (settle outcome conn) else s.conn r' c' :=
    conn_setConn_update (settle outcome conn)
  have hlive : (s.functors ++ timers).Sublist s.live := hsub.append_left s.functors
  rw [notify_open outcome next hconn₀ hopen]
  refine h.stepAt (r := r) (c := c) ?_ ?_ ?_ ?_ (fun _ _ => id) (.inr ?_)
  · refine h.ids.frame rfl ?_ (h.ids.distinct.sublist (hlive.map _)) (fun timer hmem => hlive.subset hmem)
    intro r' c' conn' hfound _
    have hfound' := (hlookup r' c').symm.trans hfound
    split at hfound'
    case isTrue heq =>
      obtain rfl := Option.some.inj hfound'
      exact ⟨conn, by rw [heq.1, heq.2]; exact hconn, rfl⟩
    case isFalse => exact ⟨conn', hfound', rfl⟩
  · have hself : ∀ conn', (s₀.setConn r c (settle outcome conn)).conn r c = some conn' →
        conn' = settle outcome conn := by
      intro conn' hfound
      rw [hlookup, if_pos ⟨rfl, rfl⟩] at hfound
      exact (Option.some.inj hfound).symm
    have hresult : ¬ InFlight (settle outcome conn) := by simp [InFlight, settle]
    refine ⟨?_, ?_, ?_, ?_, fun _ _ hback => absurd hback hput⟩
    · rintro timer hmem hat
      obtain ⟨conn', hfound, hid, hrequest, hsent, -⟩ := (h.tracked r c).owned timer (hlive.subset hmem) hat
      obtain rfl := Option.some.inj (hconn.symm.trans hfound)
      refine ⟨settle outcome conn, ?_, hid, hrequest, hsent, .inr ?_⟩
      · exact (hlookup r c).trans (if_pos ⟨rfl, rfl⟩)
      · have hstop := hcancel timer hmem hat
        rw [← hat.1, ← hat.2] at hstop
        exact hstop
    · intro conn' hfound hflight
      exact absurd (hself conn' hfound ▸ hflight) hresult
    · intro conn' _ _
      exact .inr ((hon r c).mpr ⟨rfl, rfl⟩)
    · intro conn' hfound _
      rw [hself conn' hfound]
      exact hresult
  · intro r' c' hne
    exact (hlookup r' c').trans (if_neg hne)
  · intro timer hat
    refine ⟨fun hmem => hlive.subset hmem, ?_⟩
    intro hmem
    rcases List.mem_append.mp hmem with hin | hin
    · exact List.mem_append_left _ hin
    · exact List.mem_append_right _ (hkeep timer hin hat)
  · intro r' c' hne
    exact ⟨hoff r' c', fun hin => hne ((hon r' c').mp hin)⟩

theorem receive_timed {outcome : Outcome} {next : LoopPhase R π}
    {conn : PooledConnection ResponsePromise} (h : s.Timed) (hidle : s.loop = .idle)
    (hconn : s.conn r c = some conn) (hleased : conn.leased = true)
    (hadded : ∀ timer ∈ s.functors, ¬ At r c timer)
    (hon : ∀ r' c', next.On r' c' ↔ r' = r ∧ c' = c) (hput : ¬ HasPutBack r c next)
    (hcancelling : Cancelling r c next) : (s.notify r c outcome next).Timed := by
  refine notify_timed h hidle hconn hleased (List.Sublist.refl s.timers) (fun _ hmem _ => hmem) hon
    hput ?_
  intro timer _ hat
  exact ⟨hcancelling, fun hmem => hadded timer hmem hat⟩

theorem connectTimeout_timed {conn : PooledConnection ResponsePromise} (h : s.Timed)
    (hidle : s.loop = .idle) (hconn : s.conn r c = some conn) (hleased : conn.leased = true)
    (hunsent : conn.responsePromise.sent = false) :
    (s.notify r c .connectionTimeout (.remove r c)).Timed := by
  refine notify_timed h hidle hconn hleased (List.Sublist.refl s.timers) (fun _ hmem _ => hmem)
    (by simp [LoopPhase.On, eq_comm]) (by simp [HasPutBack]) ?_
  intro timer hmem hat
  exact absurd hat (no_timer_of_unsent (h.tracked r c) hconn hunsent timer hmem)

theorem expire_timed (h : s.Timed) (hidle : s.loop = .idle) (hmem : timer ∈ s.timers) :
    (s.step maxConns (.expire timer)).Timed := by
  have hlive : timer ∈ s.live := List.mem_append_right s.functors hmem
  obtain ⟨conn, hconn, hid, -, -, hstate⟩ :=
    (h.tracked timer.route timer.conn).owned timer hlive ⟨rfl, rfl⟩
  have hflight : InFlight conn := by
    rcases hstate with ⟨hflight, -⟩ | ⟨hcancelling, -⟩
    · exact hflight
    · simp [hidle, Cancelling] at hcancelling
  have hnodup := h.ids.distinct
  refine notify_timed h hidle hconn hflight.1 List.erase_sublist ?_ (by simp [LoopPhase.On, eq_comm])
    (by simp [HasPutBack]) ?_
  · intro other hother hat
    refine (List.mem_erase_of_ne ?_).mpr hother
    rintro rfl
    exact hat ⟨rfl, rfl⟩
  · intro other hother hat
    -- the id of the connection is that of both timers
    exfalso
    have hold : other ∈ s.live := by
      rcases List.mem_append.mp hother with hin | hin
      · exact List.mem_append_left _ hin
      · exact List.mem_append_right _ (List.mem_of_mem_erase hin)
    obtain ⟨conn', hconn', hid', -⟩ := (h.tracked timer.route timer.conn).owned other hold hat
    obtain rfl := Option.some.inj (hconn.symm.trans hconn')
    have hsame : other = timer :=
      List.inj_on_of_nodup_map hnodup hold hlive (hid'.symm.trans hid)
    subst hsame
    have hlist := List.Nodup.of_map _ hnodup
    obtain ⟨-, htimers, hdisjoint⟩ := List.nodup_append.mp hlist
    rcases List.mem_append.mp hother with hin | hin
    · exact hdisjoint other hin other hmem rfl
    · exact htimers.not_mem_erase hin

/-- The loop thread goes on from one connection, the others being none of its
business before and after. -/
theorem off_elsewhere {next : LoopPhase R π} (hon : s.loop.On r c)
    (hnext : ∀ r' c', next.On r' c' → r' = r ∧ c' = c) (r' : R) (c' : π)
    (hne : ¬ (r' = r ∧ c' = c)) : ¬ s.loop.On r' c' ∧ ¬ next.On r' c' :=
  ⟨fun hin => hne (LoopPhase.On.unique hon r' c' hin), fun hin => hne (hnext r' c' hin)⟩

theorem put_timed (hvalid : s.Valid maxConns) (h : s.Timed) (hloop : s.loop = .put r c) :
    (s.step maxConns .put).Timed := by
  have hon : s.loop.On r c := by simp [hloop, LoopPhase.On]
  obtain ⟨conn, hconn, hleased⟩ := hvalid.held r c hon
  obtain ⟨p, hrelease, conn', hconn', -, -, -, hconns⟩ :=
    HttpConnectionPool.release_effect (hvalid.pools r).valid ⟨conn, hconn, hleased hloop⟩
  obtain rfl := Option.some.inj (hconn.symm.trans hconn')
  have hlookup := conn_setPool_update hconns
  simp only [step, hloop, hrelease]
  refine h.stepAt (r := r) (c := c) ?_ ?_ ?_ (fun _ _ => Iff.rfl) (fun _ _ => id) (.inr ?_)
  · refine h.ids.frame rfl ?_ h.ids.distinct (fun _ => id)
    intro r' c' new hfound _
    have hfound' := (hlookup r' c').symm.trans hfound
    split at hfound'
    case isTrue heq =>
      obtain rfl := Option.some.inj hfound'
      exact ⟨conn, by rw [heq.1, heq.2]; exact hconn, rfl⟩
    case isFalse => exact ⟨new, hfound', rfl⟩
  · have hself : ∀ new, (s.setPool r p).conn r c = some new →
        new = { conn with leased := false } := by
      intro new hfound
      rw [hlookup, if_pos ⟨rfl, rfl⟩] at hfound
      exact (Option.some.inj hfound).symm
    refine ⟨?_, ?_, ?_, ?_, ?_⟩
    · rintro timer hmem ⟨rfl, rfl⟩
      obtain ⟨old, hold, hid, hrequest, hsent, hstate⟩ :=
        (h.tracked timer.route timer.conn).owned timer hmem ⟨rfl, rfl⟩
      obtain rfl := Option.some.inj (hconn.symm.trans hold)
      refine ⟨_, (hlookup _ _).trans (if_pos ⟨rfl, rfl⟩), hid, hrequest, hsent, .inr ?_⟩
      rcases hstate with ⟨-, hoff⟩ | ⟨-, hnot⟩
      · exact absurd hon hoff
      · exact ⟨⟨rfl, rfl⟩, hnot⟩
    · intro new hfound hflight
      have := hflight.1
      simp [hself new hfound] at this
    · intro new hfound hflag
      simp [hself new hfound] at hflag
    · intro new hfound _ hflight
      have := hflight.1
      simp [hself new hfound] at this
    · intro new hfound _
      rw [hself new hfound]
  · intro r' c' hne
    exact (hlookup r' c').trans (if_neg hne)
  · exact off_elsewhere hon (fun r' c' hin => ⟨hin.1.symm, hin.2.symm⟩)

/-- The cancel finds the timer of its connection in the store, and no other under
its id. -/
theorem cancel_timed {after : AfterCancel} {conn : PooledConnection ResponsePromise} (h : s.Timed)
    (hloop : s.loop = .cancel r c after) (hconn : s.conn r c = some conn)
    (hpos : 0 < conn.requestTimeoutTimerId) :
    ({ s with
      timers := s.timers.filter fun timer => timer.id ≠ conn.requestTimeoutTimerId
      loop := .clear r c after } : HttpClient R π θ).Timed := by
  have hon : s.loop.On r c := by simp [hloop, LoopPhase.On]
  set timers := s.timers.filter fun timer => timer.id ≠ conn.requestTimeoutTimerId with htimers
  have hsub : (s.functors ++ timers).Sublist s.live := List.filter_sublist.append_left s.functors
  have hnone : ∀ timer ∈ s.functors ++ timers, ¬ At r c timer := by
    rintro timer hmem ⟨rfl, rfl⟩
    obtain ⟨conn', hconn', hid, -, -, hstate⟩ :=
      (h.tracked timer.route timer.conn).owned timer (hsub.subset hmem) ⟨rfl, rfl⟩
    obtain rfl := Option.some.inj (hconn.symm.trans hconn')
    rcases hstate with ⟨-, hoff⟩ | ⟨-, hnot⟩
    · exact hoff hon
    · rcases List.mem_append.mp hmem with hin | hin
      · exact hnot hin
      · simp [htimers, hid] at hin
  have hbefore := h.tracked r c
  refine h.stepAt (r := r) (c := c) ?_ ?_ (fun _ _ _ => rfl) ?_ (fun _ _ => id) (.inr ?_)
  · refine h.ids.frame rfl ?_ (h.ids.distinct.sublist (hsub.map _)) (fun _ hmem => hsub.subset hmem)
    intro r' c' new hfound _
    exact ⟨new, hfound, rfl⟩
  · refine Tracked.quiet hnone ?_
    intro new hfound
    refine ⟨hbefore.closed new hfound hon, fun _ => .inr ⟨rfl, rfl⟩, ?_⟩
    intro hback
    refine hbefore.putBack new hfound ?_
    rw [hloop]
    cases after with
    | wakeup => exact hback
    | remove => exact hback
  · intro timer hat
    refine ⟨fun hmem => hsub.subset hmem, ?_⟩
    intro hmem
    rcases List.mem_append.mp hmem with hin | hin
    · exact List.mem_append_left _ hin
    · refine List.mem_append_right _ (List.mem_filter.mpr ⟨hin, ?_⟩)
      obtain ⟨other, hother, hid, -⟩ :=
        (h.tracked timer.route timer.conn).owned timer hmem ⟨rfl, rfl⟩
      have hne : timer.id ≠ conn.requestTimeoutTimerId := by
        intro heq
        exact hat (h.ids.apart r c conn _ _ other hconn hother hpos (by omega))
      simpa using hne
  · exact off_elsewhere hon (fun r' c' hin => ⟨hin.1.symm, hin.2.symm⟩)

/-- The loop thread leaves `cancel_request_timeout_timer` with no timer and no id
for its connection. -/
theorem afterCancel_timed {after : AfterCancel} {conn : PooledConnection ResponsePromise}
    (h : s.Timed) (hloop : s.loop = .cancel r c after ∨ s.loop = .clear r c after)
    (hconn : s.conn r c = some conn) (hnone : ∀ timer ∈ s.live, ¬ At r c timer) :
    ({ s.setConn r c { conn with requestTimeoutTimerId := 0 } with
      loop := afterCancel r c after } : HttpClient R π θ).Timed := by
  have hon : s.loop.On r c := by
    rcases hloop with hloop | hloop <;> simp [hloop, LoopPhase.On]
  have hbefore := h.tracked r c
  have hlookup : ∀ r' c', (s.setConn r c { conn with requestTimeoutTimerId := 0 }).conn r' c' =
      if r' = r ∧ c' = c then some { conn with requestTimeoutTimerId := 0 } else s.conn r' c' :=
    conn_setConn_update _
  refine h.stepAt (r := r) (c := c) ?_ ?_ ?_ (fun _ _ => Iff.rfl) (fun _ _ => id) (.inr ?_)
  · refine h.ids.frame rfl ?_ h.ids.distinct (fun _ => id)
    intro r' c' new hfound hpos
    have hfound' := (hlookup r' c').symm.trans hfound
    split at hfound'
    · obtain rfl := Option.some.inj hfound'
      exact absurd hpos (Nat.lt_irrefl 0)
    · exact ⟨new, hfound', rfl⟩
  · refine Tracked.quiet hnone ?_
    intro new hfound
    have hfound' := (hlookup r c).symm.trans hfound
    rw [if_pos ⟨rfl, rfl⟩] at hfound'
    obtain rfl := Option.some.inj hfound'
    refine ⟨hbefore.closed conn hconn hon, ?_, ?_⟩
    · intro hleased
      cases after with
      | wakeup =>
          have hback : HasPutBack r c s.loop := by
            rcases hloop with hloop | hloop <;> simp [hloop, HasPutBack]
          have hfree := hbefore.putBack conn hconn hback
          exact absurd (hfree.symm.trans hleased) Bool.false_ne_true
      | remove => exact .inr ⟨rfl, rfl⟩
    · intro hback
      cases after <;> exact hback.elim
  · intro r' c' hne
    exact (hlookup r' c').trans (if_neg hne)
  · exact off_elsewhere hon (fun r' c' hin => afterCancel_on hin)

theorem skipCancel_timed {after : AfterCancel} {conn : PooledConnection ResponsePromise}
    (h : s.Timed) (hloop : s.loop = .cancel r c after) (hconn : s.conn r c = some conn)
    (hzero : conn.requestTimeoutTimerId = 0) :
    ({ s with loop := afterCancel r c after } : HttpClient R π θ).Timed := by
  have hnone : ∀ timer ∈ s.live, ¬ At r c timer := by
    intro timer hmem hat
    obtain ⟨conn', hconn', hid, -⟩ := (h.tracked r c).owned timer hmem hat
    obtain rfl := Option.some.inj (hconn.symm.trans hconn')
    have hpos := h.ids.positive timer hmem
    omega
  have hsame : { conn with requestTimeoutTimerId := 0 } = conn := by rw [← hzero]
  refine (afterCancel_timed h (.inl hloop) hconn hnone).same ?_ rfl rfl rfl rfl
  funext r' c'
  show s.conn r' c' = (s.setConn r c { conn with requestTimeoutTimerId := 0 }).conn r' c'
  rw [conn_setConn_update, hsame]
  split
  case isTrue heq => rw [heq.1, heq.2, hconn]
  case isFalse => rfl

theorem wakeup_timed {chosen : Option θ} (h : s.Timed) (hloop : s.loop = .wakeup r) :
    (s.step maxConns (.wakeup chosen)).Timed := by
  obtain ⟨hpool, hfunctors, htimers, hnext⟩ := wakeupPool_frame r chosen s
  have hconn : (s.wakeupPool r chosen).conn = s.conn := by
    unfold HttpClient.conn
    rw [hpool]
  have hidle : ({ s with loop := .idle } : HttpClient R π θ).Timed := by
    refine ⟨h.ids.frame rfl (fun _ _ conn hfound _ => ⟨conn, hfound, rfl⟩) h.ids.distinct
      (fun _ => id), ?_⟩
    intro r' c'
    refine (h.tracked r' c').frame rfl (fun _ _ => Iff.rfl) (fun _ _ => id) (.inr ?_)
    exact ⟨by simp [hloop, LoopPhase.On], by simp [LoopPhase.On]⟩
  simp only [step, hloop]
  exact hidle.same hconn hfunctors htimers rfl hnext

private theorem remove_timed (hvalid : s.Valid maxConns) (h : s.Timed)
    (hloop : s.loop = .remove r c) :
    (s.step maxConns .remove).Timed := by
  have hon : s.loop.On r c := by simp [hloop, LoopPhase.On]
  obtain ⟨conn, hconn, -⟩ := hvalid.held r c hon
  obtain ⟨p, hremove, -, -, hconns⟩ :=
    HttpConnectionPool.remove_effect (hvalid.pools r).valid ⟨conn, hconn⟩
  have hlookup := conn_setPool_update hconns
  have hnone := no_timer_of_on (h.tracked r c) hon (by simp [hloop, Cancelling])
  simp only [step, hloop, hremove]
  refine h.stepAt (r := r) (c := c) ?_ ?_ ?_ (fun _ _ => Iff.rfl) (fun _ _ => id) (.inr ?_)
  · refine h.ids.frame rfl ?_ h.ids.distinct (fun _ => id)
    intro r' c' new hfound _
    have hfound' := (hlookup r' c').symm.trans hfound
    split at hfound'
    · exact absurd hfound' (by simp)
    · exact ⟨new, hfound', rfl⟩
  · refine Tracked.quiet hnone ?_
    intro new hfound
    have hfound' := (hlookup r c).symm.trans hfound
    simp at hfound'
  · intro r' c' hne
    exact (hlookup r' c').trans (if_neg hne)
  · exact off_elsewhere hon (fun r' c' hin => hin.elim)

private theorem resetIdle_timed {conn : PooledConnection ResponsePromise} (h : s.Timed)
    (hidle : s.loop = .idle) (hconn : s.conn r c = some conn) (hfree : conn.leased = false) :
    ({ s with loop := .remove r c } : HttpClient R π θ).Timed := by
  have hoff : ∀ r' c', ¬ s.loop.On r' c' := by simp [hidle, LoopPhase.On]
  have hnone := no_timer_of_not_leased (h.tracked r c) hconn hfree (hoff r c)
  refine h.stepAt (r := r) (c := c) ?_ ?_ (fun _ _ _ => rfl) (fun _ _ => Iff.rfl) (fun _ _ => id)
    (.inr ?_)
  · exact h.ids.frame rfl (fun _ _ new hfound _ => ⟨new, hfound, rfl⟩) h.ids.distinct (fun _ => id)
  · refine Tracked.quiet hnone ?_
    intro new hfound
    obtain rfl := Option.some.inj (hconn.symm.trans hfound)
    refine ⟨fun hflight => Bool.false_ne_true (hfree.symm.trans hflight.1), fun _ => .inr ⟨rfl, rfl⟩,
      fun hback => hback.elim⟩
  · intro r' c' hne
    exact ⟨hoff r' c', fun hin => hne ⟨hin.1.symm, hin.2.symm⟩⟩

private theorem step_timed (e : ClientEvent R π θ) (hvalid : s.Valid maxConns) (h : s.Timed)
    (hok : s.Allowed e) (horderly : s.Orderly e) : (s.step maxConns e).Timed := by
  obtain ⟨-, hok⟩ := hok
  cases e with
  | call t r => exact h.same rfl rfl rfl rfl rfl
  | unresolved t => exact h.same rfl rfl rfl rfl rfl
  | lock t fresh =>
      obtain ⟨r, ht, hfresh⟩ := hok
      simp only [step, ht]
      exact lock_timed fresh hvalid h hfresh (fun c hlast => horderly r c ht hlast)
  | enterWait t =>
      obtain ⟨r, ht⟩ := hok
      simp only [step, ht]
      exact h.same rfl rfl rfl rfl rfl
  | wake t timedOut =>
      obtain ⟨r, notified, ht⟩ := hok
      simp only [step, ht, wakeFrom]
      split
      · exact h.same rfl rfl rfl rfl rfl
      · split
        · exact h.same rfl rfl rfl rfl rfl
        · exact h.same rfl rfl rfl rfl rfl
  | establish r c =>
      obtain ⟨hidle, conn, hconn, hleased, hunsent⟩ := hok
      simp only [step, hconn]
      exact establish_timed h hidle hconn hleased hunsent
  | runFunctor => exact runFunctor_timed h
  | receive r c =>
      obtain ⟨hidle, conn, hconn, hleased, -⟩ := hok
      exact receive_timed h hidle hconn hleased horderly (by simp [LoopPhase.On, eq_comm])
        (by simp [HasPutBack]) ⟨rfl, rfl⟩
  | put =>
      obtain ⟨r, c, hloop⟩ := hok
      exact put_timed hvalid h hloop
  | cancel =>
      obtain ⟨r, c, after, hloop⟩ := hok
      obtain ⟨conn, hconn, -⟩ := hvalid.held r c (by simp [hloop, LoopPhase.On])
      simp only [step, hloop, cancelRequestTimeoutTimer, hconn]
      split
      case isTrue hpos => exact cancel_timed h hloop hconn hpos
      case isFalse hzero => exact skipCancel_timed h hloop hconn (by omega)
  | clear =>
      obtain ⟨r, c, after, hloop⟩ := hok
      have hon : s.loop.On r c := by simp [hloop, LoopPhase.On]
      obtain ⟨conn, hconn, -⟩ := hvalid.held r c hon
      simp only [step, hloop, hconn]
      exact afterCancel_timed h (.inr hloop) hconn
        (no_timer_of_on (h.tracked r c) hon (by simp [hloop, Cancelling]))
  | wakeup chosen =>
      obtain ⟨r, hloop, -⟩ := hok
      exact wakeup_timed h hloop
  | remove =>
      obtain ⟨r, c, hloop⟩ := hok
      exact remove_timed hvalid h hloop
  | expire timer => exact expire_timed h hok.1 hok.2
  | connectTimeout r c =>
      obtain ⟨hidle, conn, hconn, hleased, hunsent⟩ := hok
      exact connectTimeout_timed h hidle hconn hleased hunsent
  | reset r c =>
      obtain ⟨hidle, conn, hconn, -⟩ := hok
      simp only [step, hconn]
      split
      case isTrue hleased =>
        exact receive_timed h hidle hconn hleased horderly (by simp [LoopPhase.On, eq_comm])
          (by simp [HasPutBack]) ⟨rfl, rfl⟩
      case isFalse hfree => exact resetIdle_timed h hidle hconn (by simpa using hfree)

theorem Timed.ownTimers (h : s.Timed) : s.OwnTimers := by
  refine ⟨?_, ?_⟩
  · intro r c conn hconn hflight
    obtain ⟨timer, hmem, hat⟩ := (h.tracked r c).covered conn hconn hflight
    obtain ⟨conn', hconn', hid, hrequest, -⟩ := (h.tracked r c).owned timer hmem hat
    obtain rfl := Option.some.inj (hconn.symm.trans hconn')
    refine ⟨timer, ?_, hrequest.symm⟩
    have hnodup := List.Nodup.of_map _ h.ids.distinct
    apply List.perm_singleton.mp
    apply (List.perm_ext_iff_of_nodup (hnodup.filter _) (List.nodup_singleton timer)).mpr
    intro other
    rw [List.mem_filter, List.mem_singleton, decide_eq_true_eq]
    constructor
    · rintro ⟨hother, hat'⟩
      obtain ⟨conn', hconn', hid', -⟩ := (h.tracked r c).owned other hother hat'
      obtain rfl := Option.some.inj (hconn.symm.trans hconn')
      exact List.inj_on_of_nodup_map h.ids.distinct hother hmem (hid'.symm.trans hid)
    · rintro rfl
      exact ⟨hmem, hat⟩
  · rintro timer ⟨-, hidle, hmem⟩
    obtain ⟨conn, hconn, -, hrequest, -, hstate⟩ := (h.tracked timer.route timer.conn).owned timer
      (List.mem_append_right s.functors hmem) ⟨rfl, rfl⟩
    refine ⟨conn, hconn, ?_, hrequest⟩
    rcases hstate with ⟨hflight, -⟩ | ⟨hcancelling, -⟩
    · exact hflight
    · simp [hidle, Cancelling] at hcancelling

/-- In every interleaving of orderly steps each request in flight has one live
timer, set for it, and requests time out by their own timers only. -/
theorem own_timers {events : List (ClientEvent R π θ)}
    (hrun : Admissible (step maxConns) (fun s e => s.Allowed e ∧ s.Orderly e) init events) :
    (run (step maxConns) (init : HttpClient R π θ) events).OwnTimers := by
  have hstep : ∀ (s : HttpClient R π θ) (e : ClientEvent R π θ), s.Valid maxConns ∧ s.Timed →
      s.Allowed e ∧ s.Orderly e → (s.step maxConns e).Valid maxConns ∧ (s.step maxConns e).Timed := by
    rintro s e ⟨hvalid, htimed⟩ ⟨hok, horderly⟩
    exact ⟨step_valid s e hvalid hok, step_timed e hvalid htimed hok horderly⟩
  exact (run_invariant hstep ⟨init_valid, init_timed⟩ hrun).2.ownTimers

/-- A request on a new connection, and its response up to the point where the
connection is available again. -/
def availableAgain : List (ClientEvent Unit Nat Nat) :=
  [.call 0 (), .lock 0 10, .establish () 10, .receive () 10, .put]

/-- The second request comes when the first is through. -/
def oneByOne : List (ClientEvent Unit Nat Nat) :=
  availableAgain ++ [.cancel, .clear, .wakeup none, .call 1 (), .lock 1 11]

/-- The second request takes the connection before the timer of the first has been
cancelled. -/
def slippedIn : List (ClientEvent Unit Nat Nat) := availableAgain ++ [.call 1 (), .lock 1 11]

def firstTimer : RequestTimer Unit Nat := ⟨1, (), 10, 0⟩

private theorem oneByOne_orderly : Admissible (step 1) (fun s e => s.Allowed e ∧ s.Orderly e)
    (init : HttpClient Unit Nat Nat) oneByOne := by
  refine ⟨⟨⟨nofun, rfl⟩, trivial⟩, ⟨⟨nofun, (), rfl, rfl⟩, ?_⟩,
    ⟨⟨nofun, rfl, _, rfl, rfl, rfl⟩, trivial⟩, ⟨⟨nofun, rfl, _, rfl, rfl, rfl⟩, nofun⟩,
    ⟨⟨nofun, (), 10, rfl⟩, trivial⟩, ⟨⟨nofun, (), 10, _, rfl⟩, trivial⟩,
    ⟨⟨nofun, (), 10, _, rfl⟩, trivial⟩, ⟨⟨nofun, (), rfl, nofun⟩, trivial⟩,
    ⟨⟨nofun, rfl⟩, trivial⟩, ⟨⟨nofun, (), rfl, rfl⟩, ?_⟩, trivial⟩
  · exact fun _ _ _ _ => id
  · exact fun _ _ _ _ => id

theorem own_timers_oneByOne :
    ∃ timer, (run (step 1) (init : HttpClient Unit Nat Nat) oneByOne).live.filter (At () 10) = [timer]
      ∧ timer.request = 1 :=
  (own_timers oneByOne_orderly).1 () 10 _ rfl ⟨rfl, rfl, rfl⟩

/-- A request that slips in is left with two live timers; the cancel that comes then
finds neither, and the timer of the first request resolves the second. -/
theorem slipped_in_not_own :
    Admissible (step 1) Allowed (init : HttpClient Unit Nat Nat)
      (slippedIn ++ [.cancel, .clear, .wakeup none, .expire firstTimer]) ∧
    ¬ (run (step 1) (init : HttpClient Unit Nat Nat) slippedIn).OwnTimers ∧
    ((run (step 1) (init : HttpClient Unit Nat Nat)
      (slippedIn ++ [.cancel, .clear, .wakeup none, .expire firstTimer])).conn () 10).map
        PooledConnection.responsePromise = some ⟨1, true, some .requestTimeout⟩ := by
  refine ⟨?_, ?_, rfl⟩
  · exact ⟨⟨nofun, rfl⟩, ⟨nofun, (), rfl, rfl⟩, ⟨nofun, rfl, _, rfl, rfl, rfl⟩,
      ⟨nofun, rfl, _, rfl, rfl, rfl⟩, ⟨nofun, (), 10, rfl⟩, ⟨nofun, rfl⟩, ⟨nofun, (), rfl, rfl⟩,
      ⟨nofun, (), 10, _, rfl⟩, ⟨nofun, (), 10, _, rfl⟩, ⟨nofun, (), rfl, nofun⟩,
      ⟨nofun, rfl, List.mem_singleton.mpr rfl⟩, trivial⟩
  · rintro ⟨hone, -⟩
    obtain ⟨timer, hfilter, -⟩ := hone () 10 _ rfl ⟨rfl, rfl, rfl⟩
    have hlength : 2 = 1 := congrArg List.length hfilter
    omega

end Angel.Http.HttpClient
