import Angel.Http.Requests

/-!
The steps of `http_client` one by one: what `send` does under the mutex, what the
callbacks of the loop thread do, and the invariant of pools and loop thread that
every step keeps.
-/

namespace Angel.Http.HttpClient

-- the three types come with their decidable equality throughout
set_option linter.unusedSectionVars false

variable {R π θ : Type} [DecidableEq R] [DecidableEq π] [DecidableEq θ]

variable {maxConns : Nat} {s : HttpClient R π θ} {r r' : R} {c c' : π} {t : θ}

@[simp] theorem pool_setThread (phase : ThreadPhase R) : (s.setThread t phase).pool = s.pool := rfl

@[simp] theorem conn_setThread (phase : ThreadPhase R) : (s.setThread t phase).conn = s.conn := rfl

@[simp] theorem pool_setPool (p : RoutePool π) :
    (s.setPool r p).pool = Function.update s.pool r p := by
  funext r'
  by_cases h : r' = r
  · subst h
    simp [pool, setPool]
  · simp [pool, setPool, h]

@[simp] theorem conn_setPool (p : RoutePool π) :
    (s.setPool r p).conn = Function.update s.conn r p.conns := by
  funext r' c
  by_cases h : r' = r
  · subst h
    simp [HttpClient.conn]
  · simp [HttpClient.conn, h]

@[simp] theorem conn_setConn (conn : PooledConnection ResponsePromise) :
    (s.setConn r c conn).conn = Function.update s.conn r (Function.update (s.conn r) c (some conn)) := by
  rw [setConn, conn_setPool]
  rfl

@[simp] theorem pool_setConn (conn : PooledConnection ResponsePromise) :
    (s.setConn r c conn).pool = Function.update s.pool r
      { s.pool r with conns := Function.update (s.pool r).conns c (some conn) } := by
  rw [setConn, pool_setPool]

theorem notify_open {conn : PooledConnection ResponsePromise} (outcome : Outcome)
    (next : LoopPhase R π) (hconn : s.conn r c = some conn)
    (hopen : conn.responsePromise.outcome = none) :
    s.notify r c outcome next = { s.setConn r c (settle outcome conn) with loop := next } := by
  simp [notify, setValue, hconn, hopen]

theorem notify_cases (r : R) (c : π) (outcome : Outcome) (next : LoopPhase R π)
    (s : HttpClient R π θ) :
    s.notify r c outcome next = { s with loop := .aborted } ∨
    ∃ conn, s.conn r c = some conn ∧
      s.notify r c outcome next = { s.setConn r c (settle outcome conn) with loop := next } := by
  cases hconn : s.conn r c with
  | none =>
      apply Or.inl
      simp [notify, setValue, hconn]
  | some conn =>
      cases hopen : conn.responsePromise.outcome with
      | some old =>
          apply Or.inl
          simp [notify, setValue, hconn, hopen]
      | none => exact Or.inr ⟨conn, rfl, notify_open outcome next hconn hopen⟩

/-- A pool as `send` leaves it: valid, and no connection marked as new. -/
structure PoolReady (maxConns : Nat) (p : RoutePool π) : Prop where
  valid : p.Valid maxConns
  started : ∀ c conn, p.conns c = some conn → conn.create = false

theorem PoolReady.init : PoolReady maxConns (HttpConnectionPool.init : RoutePool π) :=
  ⟨HttpConnectionPool.init_valid, by simp [HttpConnectionPool.init]⟩

theorem PoolReady.update {p : RoutePool π} {old new : PooledConnection ResponsePromise}
    (h : PoolReady maxConns p) (hold : p.conns c = some old) (hleased : new.leased = old.leased)
    (hremoving : new.removing = old.removing) (hcreate : new.create = false) :
    PoolReady maxConns { p with conns := Function.update p.conns c (some new) } := by
  refine ⟨h.valid.update hold hleased hremoving, ?_⟩
  intro d conn hconn
  by_cases hd : d = c
  · subst hd
    simp only [Function.update_self, Option.some.injEq] at hconn
    exact hconn ▸ hcreate
  · simp only [Function.update_of_ne hd] at hconn
    exact h.started d conn hconn

theorem PoolReady.release {p p' : RoutePool π} (h : PoolReady maxConns p)
    (hok : ∃ conn, p.conns c = some conn ∧ conn.leased = true)
    (hrelease : p.releaseConnection c = some p') :
    PoolReady maxConns p' ∧ p.Effect p' (.release c) := by
  obtain ⟨p'', hrelease', heffect⟩ := HttpConnectionPool.release_effect h.valid hok
  obtain rfl := Option.some.inj (hrelease'.symm.trans hrelease)
  have hallowed : p.Allowed maxConns (.release c) := hok
  refine ⟨⟨HttpConnectionPool.effect_valid h.valid hallowed hrelease heffect, ?_⟩, heffect⟩
  obtain ⟨conn, hconn, -, -, -, hconns⟩ := heffect
  intro d rec hrec
  rw [hconns] at hrec
  by_cases hd : d = c
  · subst hd
    rw [Function.update_self, Option.some.injEq] at hrec
    exact hrec ▸ h.started d conn hconn
  · rw [Function.update_of_ne hd] at hrec
    exact h.started d rec hrec

theorem PoolReady.remove {p p' : RoutePool π} (h : PoolReady maxConns p)
    (hok : ∃ conn, p.conns c = some conn) (hremove : p.removeConnection c = some p') :
    PoolReady maxConns p' ∧ p.Effect p' (.remove c) := by
  obtain ⟨p'', hremove', heffect⟩ := HttpConnectionPool.remove_effect h.valid hok
  obtain rfl := Option.some.inj (hremove'.symm.trans hremove)
  have hallowed : p.Allowed maxConns (.remove c) := hok
  refine ⟨⟨HttpConnectionPool.effect_valid h.valid hallowed hremove heffect, ?_⟩, heffect⟩
  obtain ⟨-, -, hconns⟩ := heffect
  intro d rec hrec
  rw [hconns] at hrec
  by_cases hd : d = c
  · simp [hd] at hrec
  · rw [Function.update_of_ne hd] at hrec
    exact h.started d rec hrec

/-- The pool with a new connection, as `send` leaves it. -/
def createdPool (fresh : π) (promise : ResponsePromise) (p : RoutePool π) : RoutePool π :=
  ⟨p.avail, p.leased ++ [fresh],
    Function.update p.conns fresh (some ⟨false, true, false, 0, promise⟩)⟩

/-- The pool with `c` taken out of `avail` for a request, as `send` leaves it. -/
def leasedPool (front : List π) (c : π) (conn : PooledConnection ResponsePromise) (timer : Nat)
    (promise : ResponsePromise) (p : RoutePool π) : RoutePool π :=
  ⟨front, p.leased ++ [c], Function.update p.conns c
    (some { conn with leased := true, requestTimeoutTimerId := timer, responsePromise := promise })⟩

/-- The client in `send(request)`, with the pool that has its connection at the
back. -/
def backState (r : R) (p : RoutePool π) (s : HttpClient R π θ) : HttpClient R π θ :=
  { s.setPool r p with nextRequest := s.nextRequest + 1 }

private theorem useBack_create {p : RoutePool π} {conn : PooledConnection ResponsePromise}
    (hback : p.leased.getLast? = some c) (hconn : p.conns c = some conn) (hnew : conn.create = true) :
    (s.backState r p).useBack r = s.backState r
      { p with conns := Function.update p.conns c (some { conn with create := false }) } := by
  have hpool : (s.backState r p).pool r = p := by simp [backState, pool, setPool]
  simp [useBack, HttpClient.conn, hpool, hback, hconn, hnew, setConn]
  simp [backState, setPool]

private theorem useBack_send {p : RoutePool π} {conn : PooledConnection ResponsePromise}
    (hback : p.leased.getLast? = some c) (hconn : p.conns c = some conn) (hold : conn.create = false) :
    (s.backState r p).useBack r =
      { s.backState r
          { p with conns := Function.update p.conns c (some (sentWith s.nextTimer conn)) } with
        functors := s.functors ++ [⟨s.nextTimer, r, c, conn.responsePromise.request⟩]
        nextTimer := s.nextTimer + 1 } := by
  have hpool : (s.backState r p).pool r = p := by simp [backState, pool, setPool]
  simp [useBack, HttpClient.conn, hpool, hback, hconn, hold, sendOn, setConn]
  simp [backState, setPool]

/-- What `send` does under the mutex: it goes to wait for a connection, makes one,
or takes the last of `avail` and sets a timer for its request. -/
theorem lockedSend_cases (t : θ) (fresh : π) (hready : PoolReady maxConns (s.pool r)) :
    ((s.pool r).avail = [] ∧ maxConns ≤ (s.pool r).activeConns ∧
      s.lockedSend maxConns t r fresh = (s.setPool r (s.pool r)).setThread t (.unlocked r)) ∨
    ((s.pool r).avail = [] ∧ (s.pool r).activeConns < maxConns ∧
      s.lockedSend maxConns t r fresh =
        ({ s.setPool r (createdPool fresh ⟨s.nextRequest, false, none⟩ (s.pool r)) with
            nextRequest := s.nextRequest + 1 } : HttpClient R π θ).setThread t .idle) ∨
    ∃ front c conn, (s.pool r).avail = front ++ [c] ∧ s.conn r c = some conn ∧
      s.lockedSend maxConns t r fresh =
        ({ s.setPool r (leasedPool front c conn s.nextTimer ⟨s.nextRequest, true, none⟩ (s.pool r))
            with
            functors := s.functors ++ [⟨s.nextTimer, r, c, s.nextRequest⟩]
            nextTimer := s.nextTimer + 1
            nextRequest := s.nextRequest + 1 } : HttpClient R π θ).setThread t .idle := by
  by_cases havail : (s.pool r).avail = []
  · by_cases hfull : (s.pool r).activeConns < maxConns
    · refine .inr (.inl ⟨havail, hfull, ?_⟩)
      have hback := useBack_create (s := s) (r := r) (c := fresh)
        (p := (s.pool r).createConnection fresh ⟨s.nextRequest, false, none⟩)
        (by simp [HttpConnectionPool.createConnection]) (Function.update_self ..) rfl
      simp only [lockedSend, havail, if_true, hfull]
      exact congrArg (setThread t .idle) (hback.trans (by
        simp [backState, HttpConnectionPool.createConnection, createdPool]))
    · refine .inl ⟨havail, Nat.le_of_not_lt hfull, ?_⟩
      simp [lockedSend, havail, hfull]
  · obtain ⟨p, hlease, c, conn, hconn, hfront, hleased, hconns⟩ :=
      HttpConnectionPool.lease_effect (⟨s.nextRequest, false, none⟩ : ResponsePromise) hready.valid
        havail
    refine .inr (.inr ⟨p.avail, c, conn, hfront, hconn, ?_⟩)
    have hfound : p.conns c = some { conn with
        leased := true
        responsePromise := ⟨s.nextRequest, false, none⟩ } := by
      rw [hconns, Function.update_self]
    have hback := useBack_send (s := s) (r := r) (by simp [hleased]) hfound
      (hready.started c conn hconn)
    simp only [lockedSend, if_neg havail, hlease]
    exact congrArg (setThread t .idle) (hback.trans (by
      simp [backState, leasedPool, sentWith, hleased, hconns]))

theorem PoolReady.created {p : RoutePool π} (promise : ResponsePromise) (h : PoolReady maxConns p)
    (havail : p.avail = []) (hfull : p.activeConns < maxConns) (hfresh : p.conns c = none) :
    PoolReady maxConns (createdPool c promise p) := by
  have hvalid := HttpConnectionPool.create_valid h.valid
    (show p.Allowed maxConns (.create c promise) from ⟨havail, hfull, hfresh⟩)
  refine ⟨?_, ?_⟩
  · have hupdate := hvalid.update (c := c) (Function.update_self ..)
      (show (⟨false, true, false, 0, promise⟩ : PooledConnection ResponsePromise).leased = _ from rfl)
      rfl
    simpa [createdPool, HttpConnectionPool.createConnection] using hupdate
  · intro d conn hconn
    by_cases hd : d = c
    · subst hd
      simp only [createdPool, Function.update_self, Option.some.injEq] at hconn
      simp [← hconn]
    · simp only [createdPool, Function.update_of_ne hd] at hconn
      exact h.started d conn hconn

theorem PoolReady.leased {p : RoutePool π} {front : List π} (promise : ResponsePromise) (timer : Nat)
    {conn : PooledConnection ResponsePromise} (h : PoolReady maxConns p)
    (havail : p.avail = front ++ [c]) (hconn : p.conns c = some conn) :
    PoolReady maxConns (leasedPool front c conn timer promise p) := by
  refine ⟨h.valid.moved hconn ?_ rfl rfl (by simp [leasedPool]) ?_, ?_⟩
  · simp only [leasedPool, havail, List.append_assoc]
    exact (List.perm_append_comm).append_left front
  · intro d hd
    simp [leasedPool, hd]
  · intro d rec hrec
    by_cases hd : d = c
    · subst hd
      simp only [leasedPool, Function.update_self, Option.some.injEq] at hrec
      rw [← hrec]
      exact h.started d conn hconn
    · simp only [leasedPool, Function.update_of_ne hd] at hrec
      exact h.started d rec hrec

/-- What holds in every state: the pools are ready, and what the loop thread works
on is there, leased until it is put back. -/
structure Valid (maxConns : Nat) (s : HttpClient R π θ) : Prop where
  pools : ∀ r, PoolReady maxConns (s.pool r)
  held : ∀ r c, s.loop.On r c →
    ∃ conn, s.conn r c = some conn ∧ (s.loop = .put r c → conn.leased = true)

theorem init_valid : (init : HttpClient R π θ).Valid maxConns :=
  ⟨fun _ => PoolReady.init, by simp [init, LoopPhase.On]⟩

theorem LoopPhase.On.unique {next : LoopPhase R π} (h : next.On r c) (r' : R) (c' : π)
    (h' : next.On r' c') : r' = r ∧ c' = c := by
  cases next with
  | idle => exact h.elim
  | put => exact ⟨h'.1.symm.trans h.1, h'.2.symm.trans h.2⟩
  | cancel => exact ⟨h'.1.symm.trans h.1, h'.2.symm.trans h.2⟩
  | clear => exact ⟨h'.1.symm.trans h.1, h'.2.symm.trans h.2⟩
  | wakeup => exact h.elim
  | remove => exact ⟨h'.1.symm.trans h.1, h'.2.symm.trans h.2⟩
  | aborted => exact h.elim

/-- The connections of one state live on in another, the leased ones leased. -/
def Keeps (s s' : HttpClient R π θ) : Prop :=
  ∀ r c conn, s.conn r c = some conn →
    ∃ conn', s'.conn r c = some conn' ∧ (conn.leased = true → conn'.leased = true)

theorem Valid.keeps {s' : HttpClient R π θ} (h : s.Valid maxConns)
    (hpools : ∀ r, PoolReady maxConns (s'.pool r)) (hloop : s'.loop = s.loop) (hkeeps : s.Keeps s') :
    s'.Valid maxConns := by
  refine ⟨hpools, ?_⟩
  intro r c hon
  rw [hloop] at hon ⊢
  obtain ⟨conn, hconn, hleased⟩ := h.held r c hon
  obtain ⟨conn', hconn', hkept⟩ := hkeeps r c conn hconn
  exact ⟨conn', hconn', fun hput => hkept (hleased hput)⟩

theorem Valid.setPool {p : RoutePool π} (h : s.Valid maxConns) (hp : PoolReady maxConns p) :
    ∀ r', PoolReady maxConns ((s.setPool r p).pool r') := by
  intro r'
  rw [pool_setPool]
  by_cases hr : r' = r
  · subst hr
    rw [Function.update_self]
    exact hp
  · rw [Function.update_of_ne hr]
    exact h.pools r'

theorem Valid.setConn {old new : PooledConnection ResponsePromise} (h : s.Valid maxConns)
    (hold : s.conn r c = some old) (hleased : new.leased = old.leased)
    (hremoving : new.removing = old.removing) (hcreate : new.create = old.create) :
    ∀ r', PoolReady maxConns ((s.setConn r c new).pool r') :=
  h.setPool ((h.pools r).update hold hleased hremoving
    (hcreate.trans ((h.pools r).started c old hold)))

private theorem setPool_keeps {p : RoutePool π} {new : PooledConnection ResponsePromise}
    (hconns : p.conns = Function.update (s.pool r).conns c (some new))
    (hold : ∀ conn, s.conn r c = some conn → conn.leased = true → new.leased = true) :
    s.Keeps (s.setPool r p) := by
  intro r' c' conn hconn
  rw [conn_setPool]
  by_cases hr : r' = r
  · subst hr
    rw [Function.update_self, hconns]
    by_cases hc : c' = c
    · subst hc
      exact ⟨new, Function.update_self .., hold conn hconn⟩
    · exact ⟨conn, by rw [Function.update_of_ne hc]; exact hconn, id⟩
  · exact ⟨conn, by rw [Function.update_of_ne hr]; exact hconn, id⟩

/-- A step of a user thread: the loop thread stays where it is, and every connection
with it. -/
theorem lock_valid (fresh : π) (h : s.Valid maxConns) (hfresh : s.conn r fresh = none) :
    (s.lockedSend maxConns t r fresh).Valid maxConns ∧
    (s.lockedSend maxConns t r fresh).loop = s.loop := by
  rcases lockedSend_cases t fresh (h.pools r) with
    ⟨-, -, hstep⟩ | ⟨havail, hfull, hstep⟩ | ⟨front, c, conn, havail, hconn, hstep⟩
  · rw [hstep]
    refine ⟨h.keeps (h.setPool (h.pools r)) rfl ?_, rfl⟩
    intro r' c' conn hconn
    refine ⟨conn, ?_, id⟩
    rw [conn_setThread, conn_setPool]
    by_cases hr : r' = r
    · subst hr
      rw [Function.update_self]
      exact hconn
    · rw [Function.update_of_ne hr]
      exact hconn
  · rw [hstep]
    have hready := PoolReady.created ⟨s.nextRequest, false, none⟩ (h.pools r) havail hfull hfresh
    refine ⟨h.keeps (h.setPool hready) rfl ?_, rfl⟩
    exact setPool_keeps rfl (fun _ _ _ => rfl)
  · rw [hstep]
    have hready := PoolReady.leased ⟨s.nextRequest, true, none⟩ s.nextTimer (h.pools r) havail hconn
    refine ⟨h.keeps (h.setPool hready) rfl ?_, rfl⟩
    exact setPool_keeps rfl (fun _ _ _ => rfl)

/-- A callback that satisfies a promise and goes on to work on its connection. -/
theorem notify_valid {outcome : Outcome} {next : LoopPhase R π} (h : s.Valid maxConns)
    (hnext : ∀ r' c', next.On r' c' → r' = r ∧ c' = c)
    (hput : ∀ conn, s.conn r c = some conn → next = .put r c → conn.leased = true) :
    (s.notify r c outcome next).Valid maxConns := by
  rcases notify_cases r c outcome next s with hstep | ⟨conn, hconn, hstep⟩
  · rw [hstep]
    exact ⟨h.pools, by simp [LoopPhase.On]⟩
  · rw [hstep]
    refine ⟨h.setConn hconn rfl rfl rfl, ?_⟩
    intro r' c' hon
    obtain ⟨rfl, rfl⟩ := hnext r' c' hon
    refine ⟨settle outcome conn, ?_, fun heq => hput conn hconn heq⟩
    show (s.setConn r' c' (settle outcome conn)).conn r' c' = some (settle outcome conn)
    rw [conn_setConn, Function.update_self, Function.update_self]

theorem afterCancel_on {after : AfterCancel} {r' : R} {c' : π}
    (hon : (afterCancel r c after).On r' c') : r' = r ∧ c' = c := by
  cases after with
  | wakeup => exact hon.elim
  | remove => exact ⟨hon.1.symm, hon.2.symm⟩

theorem Valid.goesOn (next : LoopPhase R π) {conn : PooledConnection ResponsePromise}
    (h : s.Valid maxConns) (hconn : s.conn r c = some conn)
    (hnext : ∀ r' c', next.On r' c' → r' = r ∧ c' = c) (hput : next ≠ .put r c) :
    ({ s with loop := next } : HttpClient R π θ).Valid maxConns := by
  refine ⟨h.pools, ?_⟩
  intro r' c' hon
  obtain ⟨rfl, rfl⟩ := hnext r' c' hon
  exact ⟨conn, hconn, fun heq => absurd heq hput⟩

theorem Valid.threads {s' : HttpClient R π θ} (h : s.Valid maxConns) (hpool : s'.pool = s.pool)
    (hloop : s'.loop = s.loop) : s'.Valid maxConns := by
  refine h.keeps ?_ hloop ?_
  · rw [hpool]
    exact h.pools
  · intro r c conn hconn
    refine ⟨conn, ?_, id⟩
    rw [HttpClient.conn, hpool]
    exact hconn

theorem put_valid (h : s.Valid maxConns) (hloop : s.loop = .put r c) :
    (s.step maxConns .put).Valid maxConns := by
  obtain ⟨conn, hconn, hleased⟩ := h.held r c (by simp [hloop, LoopPhase.On])
  simp only [step, hloop]
  split
  · exact ⟨h.pools, by simp [LoopPhase.On]⟩
  case h_2 p hrelease =>
    obtain ⟨hready, heffect⟩ := (h.pools r).release ⟨conn, hconn, hleased hloop⟩ hrelease
    obtain ⟨conn', hconn', -, -, -, hconns⟩ := heffect
    refine ⟨h.setPool hready, ?_⟩
    rintro r' c' ⟨rfl, rfl⟩
    refine ⟨{ conn' with leased := false }, ?_, by simp⟩
    show (s.setPool r p).conn r c = some { conn' with leased := false }
    rw [conn_setPool, Function.update_self, hconns, Function.update_self]

theorem cancel_valid {after : AfterCancel} (h : s.Valid maxConns) (hloop : s.loop = .cancel r c after) :
    (s.step maxConns .cancel).Valid maxConns := by
  obtain ⟨conn, hconn, -⟩ := h.held r c (by simp [hloop, LoopPhase.On])
  simp only [step, hloop, cancelRequestTimeoutTimer, hconn]
  split
  · have hclear := h.goesOn (.clear r c after) hconn (LoopPhase.On.unique ⟨rfl, rfl⟩) nofun
    exact ⟨h.pools, hclear.held⟩
  · refine h.goesOn _ hconn (fun r' c' hon => afterCancel_on hon) ?_
    cases after <;> simp [afterCancel]

theorem clear_valid {after : AfterCancel} (h : s.Valid maxConns) (hloop : s.loop = .clear r c after) :
    (s.step maxConns .clear).Valid maxConns := by
  obtain ⟨conn, hconn, -⟩ := h.held r c (by simp [hloop, LoopPhase.On])
  simp only [step, hloop, hconn]
  refine ⟨h.setConn hconn rfl rfl rfl, ?_⟩
  intro r' c' hon
  obtain ⟨rfl, rfl⟩ := afterCancel_on hon
  refine ⟨{ conn with requestTimeoutTimerId := 0 }, ?_, ?_⟩
  · show (s.setConn r' c' _).conn r' c' = _
    rw [conn_setConn, Function.update_self, Function.update_self]
  · cases after <;> simp [afterCancel]

theorem wakeupPool_frame (r : R) (chosen : Option θ) (s : HttpClient R π θ) :
    (s.wakeupPool r chosen).pool = s.pool ∧ (s.wakeupPool r chosen).functors = s.functors ∧
    (s.wakeupPool r chosen).timers = s.timers ∧ (s.wakeupPool r chosen).nextTimer = s.nextTimer := by
  unfold wakeupPool
  split
  · cases chosen <;> exact ⟨rfl, rfl, rfl, rfl⟩
  · exact ⟨rfl, rfl, rfl, rfl⟩

private theorem remove_valid (h : s.Valid maxConns) (hloop : s.loop = .remove r c) :
    (s.step maxConns .remove).Valid maxConns := by
  obtain ⟨conn, hconn, -⟩ := h.held r c (by simp [hloop, LoopPhase.On])
  simp only [step, hloop]
  split
  · exact ⟨h.pools, by simp [LoopPhase.On]⟩
  case h_2 p hremove =>
    obtain ⟨hready, -⟩ := (h.pools r).remove ⟨conn, hconn⟩ hremove
    exact ⟨h.setPool hready, by simp [LoopPhase.On]⟩

theorem step_valid (s : HttpClient R π θ) (e : ClientEvent R π θ) (h : s.Valid maxConns)
    (hok : s.Allowed e) : (s.step maxConns e).Valid maxConns := by
  obtain ⟨-, hok⟩ := hok
  cases e with
  | call t r => exact h.threads rfl rfl
  | unresolved t => exact h.threads rfl rfl
  | lock t fresh =>
      obtain ⟨r, ht, hfresh⟩ := hok
      simp only [step, ht]
      exact (lock_valid fresh h hfresh).1
  | enterWait t =>
      obtain ⟨r, ht⟩ := hok
      simp only [step, ht]
      exact h.threads rfl rfl
  | wake t timedOut =>
      obtain ⟨r, notified, ht⟩ := hok
      simp only [step, ht, wakeFrom]
      split
      · exact h.threads rfl rfl
      · split
        · exact h.threads rfl rfl
        · exact h.threads rfl rfl
  | establish r c =>
      obtain ⟨hidle, conn, hconn, -, -⟩ := hok
      simp only [step, hconn, sendOn, if_true]
      refine ⟨h.setConn hconn rfl rfl rfl, ?_⟩
      intro r' c' hon
      have hloop : ((s.setConn r c (sentWith s.nextTimer conn)).loop).On r' c' := hon
      simp [setConn, HttpClient.setPool, hidle, LoopPhase.On] at hloop
  | runFunctor =>
      simp only [step]
      split
      · exact h
      · exact ⟨h.pools, h.held⟩
  | receive r c =>
      obtain ⟨-, conn, hconn, hleased, -⟩ := hok
      refine notify_valid h (LoopPhase.On.unique ⟨rfl, rfl⟩) ?_
      intro conn' hconn' _
      obtain rfl := Option.some.inj (hconn.symm.trans hconn')
      exact hleased
  | put =>
      obtain ⟨r, c, hloop⟩ := hok
      exact put_valid h hloop
  | cancel =>
      obtain ⟨r, c, after, hloop⟩ := hok
      exact cancel_valid h hloop
  | clear =>
      obtain ⟨r, c, after, hloop⟩ := hok
      exact clear_valid h hloop
  | wakeup chosen =>
      obtain ⟨r, hloop, -⟩ := hok
      simp only [step, hloop]
      refine ⟨?_, by simp [LoopPhase.On]⟩
      intro r'
      show PoolReady maxConns ((s.wakeupPool r chosen).pool r')
      rw [(wakeupPool_frame r chosen s).1]
      exact h.pools r'
  | remove =>
      obtain ⟨r, c, hloop⟩ := hok
      exact remove_valid h hloop
  | expire timer =>
      have hvalid : ({ s with timers := s.timers.erase timer } : HttpClient R π θ).Valid maxConns :=
        ⟨h.pools, h.held⟩
      exact notify_valid hvalid (LoopPhase.On.unique ⟨rfl, rfl⟩) (by simp)
  | connectTimeout r c => exact notify_valid h (LoopPhase.On.unique ⟨rfl, rfl⟩) (by simp)
  | reset r c =>
      obtain ⟨-, conn, hconn, -⟩ := hok
      simp only [step, hconn]
      split
      · exact notify_valid h (LoopPhase.On.unique ⟨rfl, rfl⟩) (by simp)
      · exact h.goesOn _ hconn (LoopPhase.On.unique ⟨rfl, rfl⟩) (by simp)

end Angel.Http.HttpClient
