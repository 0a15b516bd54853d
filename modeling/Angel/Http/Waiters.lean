import Angel.Http.RequestSteps

/-!
Threads that wait for a connection in `http_connection_pool::wait_for`. One flag
stands for all of them, it is set after `router_mutex` has been given up, and of the
steps that make room in a pool only the end of `receive` calls `wakeup`. A waiter is
stranded where its pool has room, nobody has notified it and no `wakeup` is on its
way.
-/

namespace Angel.Http.HttpClient

open Lib

-- the three types come with their decidable equality throughout
set_option linter.unusedSectionVars false

variable {R π θ : Type} [DecidableEq R] [DecidableEq π] [DecidableEq θ]
  {maxConns : Nat} {s s' : HttpClient R π θ} {r : R} {c : π} {t : θ}

/-- A connection of the route is available, or one more may be made. -/
def Capacity (maxConns : Nat) (s : HttpClient R π θ) (r : R) : Prop :=
  (s.pool r).avail ≠ [] ∨ (s.pool r).activeConns < maxConns

/-- The loop thread is on its way to `wakeup` on the pool of the route. -/
def WakeupDue (s : HttpClient R π θ) (r : R) : Prop :=
  match s.loop with
  | .put r' _ => r' = r
  | .cancel r' _ .wakeup => r' = r
  | .clear r' _ .wakeup => r' = r
  | .wakeup r' => r' = r
  | _ => False

/-- A thread is in `pending_cv.wait_for` and has not been notified. -/
def Waits (s : HttpClient R π θ) (t : θ) (r : R) : Prop := s.threads t = .blocked r false

def Stranded (maxConns : Nat) (s : HttpClient R π θ) : Prop :=
  ∃ t r, s.Waits t r ∧ s.Capacity maxConns r ∧ ¬ s.WakeupDue r

/-- A waiter of the route is where it has to be: there is no room, or a `wakeup` is
due. -/
def Settled (maxConns : Nat) (s : HttpClient R π θ) (r : R) : Prop :=
  s.Capacity maxConns r → s.WakeupDue r

/-- The steps that strand nobody. A thread starts to wait, or goes back to it with
the flag set again, only where it is settled; `wakeup` on a pool with room notifies
the one thread that waits; and a connection is removed when no thread waits. -/
def Safe (maxConns : Nat) (s : HttpClient R π θ) : ClientEvent R π θ → Prop
  | .enterWait t => ∀ r, s.threads t = .unlocked r → s.Settled maxConns r
  | .wake t false => ∀ r notified, s.threads t = .blocked r notified → s.pending r = true →
      s.Settled maxConns r
  | .wakeup chosen => ∀ r, s.loop = .wakeup r → s.Capacity maxConns r →
      ∀ t, s.Waits t r → chosen = some t
  | .remove => ∀ r c, s.loop = .remove r c → ∀ t, ¬ s.Waits t r
  | _ => True

theorem not_stranded_iff :
    ¬ s.Stranded maxConns ↔ ∀ t r, s.Waits t r → s.Settled maxConns r := by
  constructor
  · intro h t r hwaits hroom
    by_contra hdue
    exact h ⟨t, r, hwaits, hroom, hdue⟩
  · rintro h ⟨t, r, hwaits, hroom, hdue⟩
    exact hdue (h t r hwaits hroom)

/-- Nobody is stranded by a step that adds no waiter and unsettles no route. -/
theorem not_stranded_of (h : ¬ s.Stranded maxConns)
    (hwaits : ∀ t r, s'.Waits t r → s.Waits t r)
    (hsettled : ∀ r, s.Settled maxConns r → s'.Settled maxConns r) : ¬ s'.Stranded maxConns := by
  rw [not_stranded_iff] at h ⊢
  intro t r ht
  exact hsettled r (h t r (hwaits t r ht))

theorem settled_of (hvectors : ∀ r, (s'.pool r).avail = (s.pool r).avail ∧
      (s'.pool r).leased = (s.pool r).leased)
    (hdue : ∀ r, s.WakeupDue r → s'.WakeupDue r) (h : s.Settled maxConns r) :
    s'.Settled maxConns r := by
  intro hroom
  obtain ⟨havail, hleased⟩ := hvectors r
  simp only [Capacity, HttpConnectionPool.activeConns, havail, hleased] at hroom
  exact hdue r (h hroom)

theorem vectors_setConn (conn : PooledConnection ResponsePromise) (r' : R) :
    ((s.setConn r c conn).pool r').avail = (s.pool r').avail ∧
    ((s.setConn r c conn).pool r').leased = (s.pool r').leased := by
  rw [pool_setConn]
  by_cases h : r' = r
  · subst h
    rw [Function.update_self]
    exact ⟨rfl, rfl⟩
  · rw [Function.update_of_ne h]
    exact ⟨rfl, rfl⟩

theorem waits_setThread {phase : ThreadPhase R} (hphase : ∀ r, phase ≠ .blocked r false)
    {t' : θ} (h : (s.setThread t phase).Waits t' r) : s.Waits t' r := by
  by_cases ht : t' = t
  · subst ht
    simp only [Waits, setThread, Function.update_self] at h
    exact absurd h (hphase r)
  · simpa only [Waits, setThread, Function.update_of_ne ht] using h

theorem waits_blocked {t' : θ} {r' : R} :
    (s.setThread t (.blocked r false)).Waits t' r' ↔ (t' = t ∧ r' = r) ∨ t' ≠ t ∧ s.Waits t' r' := by
  by_cases ht : t' = t
  · subst ht
    simp [Waits, setThread, eq_comm]
  · simp [Waits, setThread, ht]

theorem notify_not_stranded {outcome : Outcome} {next : LoopPhase R π} (hidle : s.loop = .idle)
    (h : ¬ s.Stranded maxConns) : ¬ (s.notify r c outcome next).Stranded maxConns := by
  have hnone : ∀ r', ¬ s.WakeupDue r' := by simp [WakeupDue, hidle]
  rcases notify_cases r c outcome next s with hstep | ⟨conn, -, hstep⟩
  · rw [hstep]
    refine not_stranded_of h (fun _ _ => id) (fun r' => settled_of (fun _ => ⟨rfl, rfl⟩) ?_)
    exact fun r' hdue => absurd hdue (hnone r')
  · rw [hstep]
    refine not_stranded_of h (fun _ _ => id) (fun r' => settled_of (vectors_setConn _) ?_)
    exact fun r' hdue => absurd hdue (hnone r')

theorem lock_not_stranded (fresh : π) (hvalid : s.Valid maxConns) (h : ¬ s.Stranded maxConns) :
    ¬ (s.lockedSend maxConns t r fresh).Stranded maxConns := by
  have hroom : ∀ {p : RoutePool π} {r' : R}, s.Settled maxConns r' → s.Capacity maxConns r →
      (s.setPool r p).Settled maxConns r' := by
    intro p r' hsettled hroom hroom'
    by_cases hr : r' = r
    · subst hr
      exact hsettled hroom
    · refine hsettled ?_
      simpa [Capacity, hr] using hroom'
  rcases lockedSend_cases t fresh (hvalid.pools r) with
    ⟨-, -, hstep⟩ | ⟨-, hfull, hstep⟩ | ⟨front, c, conn, havail, -, hstep⟩
  · rw [hstep]
    refine not_stranded_of h (fun t' r' hwaits => waits_setThread (by simp) hwaits) ?_
    refine fun r' => settled_of ?_ (fun _ => id)
    intro r'
    rw [pool_setThread, pool_setPool, Function.update_eq_self]
    exact ⟨rfl, rfl⟩
  · rw [hstep]
    refine not_stranded_of h (fun t' r' hwaits => waits_setThread (by simp) hwaits) ?_
    exact fun r' hsettled => hroom hsettled (.inr hfull)
  · rw [hstep]
    refine not_stranded_of h (fun t' r' hwaits => waits_setThread (by simp) hwaits) ?_
    exact fun r' hsettled => hroom hsettled (.inl (by simp [havail]))

theorem put_not_stranded (hvalid : s.Valid maxConns) (hloop : s.loop = .put r c)
    (h : ¬ s.Stranded maxConns) : ¬ (s.step maxConns .put).Stranded maxConns := by
  obtain ⟨conn, hconn, hleased⟩ := hvalid.held r c (by simp [hloop, LoopPhase.On])
  obtain ⟨p, hrelease, -⟩ := HttpConnectionPool.release_effect (hvalid.pools r).valid
    ⟨conn, hconn, hleased hloop⟩
  simp only [step, hloop, hrelease]
  refine not_stranded_of h (fun _ _ => id) ?_
  intro r' hsettled hroom
  by_cases hr : r' = r
  · subst hr
    rfl
  · have hroom' : (s.setPool r p).Capacity maxConns r' := hroom
    have hdue : s.WakeupDue r' := hsettled (by simpa [Capacity, hr] using hroom')
    simp only [WakeupDue, hloop] at hdue
    exact absurd hdue.symm hr

theorem cancel_not_stranded {after : AfterCancel} (hvalid : s.Valid maxConns)
    (hloop : s.loop = .cancel r c after) (h : ¬ s.Stranded maxConns) :
    ¬ (s.step maxConns .cancel).Stranded maxConns := by
  obtain ⟨conn, hconn, -⟩ := hvalid.held r c (by simp [hloop, LoopPhase.On])
  simp only [step, hloop, cancelRequestTimeoutTimer, hconn]
  split
  · refine not_stranded_of h (fun _ _ => id) (fun r' => settled_of (fun _ => ⟨rfl, rfl⟩) ?_)
    cases after <;> simp [WakeupDue, hloop]
  · refine not_stranded_of h (fun _ _ => id) (fun r' => settled_of (fun _ => ⟨rfl, rfl⟩) ?_)
    cases after <;> simp [WakeupDue, hloop, afterCancel]

theorem clear_not_stranded {after : AfterCancel} (hvalid : s.Valid maxConns)
    (hloop : s.loop = .clear r c after) (h : ¬ s.Stranded maxConns) :
    ¬ (s.step maxConns .clear).Stranded maxConns := by
  obtain ⟨conn, hconn, -⟩ := hvalid.held r c (by simp [hloop, LoopPhase.On])
  simp only [step, hloop, hconn]
  refine not_stranded_of h (fun _ _ => id) (fun r' => settled_of (vectors_setConn _) ?_)
  cases after <;> simp [WakeupDue, hloop, afterCancel]

/-- Behind `wakeup` nothing is due any more, and whoever waits and was not picked
is stranded where there is room. -/
theorem wakeup_stranded_iff {chosen : Option θ} (hloop : s.loop = .wakeup r)
    (hchosen : match chosen with
      | none => s.pending r = true → ∀ t, s.threads t ≠ .blocked r false
      | some t => s.pending r = true ∧ s.threads t = .blocked r false)
    (h : ¬ s.Stranded maxConns) :
    ¬ (s.step maxConns (.wakeup chosen)).Stranded maxConns ↔
      (s.Capacity maxConns r → ∀ t, s.Waits t r → chosen = some t) := by
  rw [not_stranded_iff] at h ⊢
  set s' := s.step maxConns (.wakeup chosen) with hs'
  have hstep : s' = { s.wakeupPool r chosen with loop := .idle } := by simp [hs', step, hloop]
  have hpool : s'.pool = s.pool := by
    rw [hstep]
    exact (wakeupPool_frame r chosen s).1
  have hroom : ∀ r', s'.Capacity maxConns r' ↔ s.Capacity maxConns r' := by
    simp [Capacity, hpool]
  have hdue : ∀ r', ¬ s'.WakeupDue r' := by simp [hstep, WakeupDue]
  have hwaits : ∀ t' r', s'.Waits t' r' ↔ s.Waits t' r' ∧ chosen ≠ some t' := by
    intro t' r'
    cases chosen with
    | none =>
        have hthreads : s'.threads = s.threads := by
          rw [hstep]
          unfold wakeupPool
          split <;> rfl
        simp [Waits, hthreads]
    | some t =>
        have hthreads : s'.threads = Function.update s.threads t (.blocked r true) := by
          simp [hstep, wakeupPool, hchosen.1, setThread]
        by_cases ht : t' = t
        · subst ht
          simp [Waits, hthreads]
        · simp [Waits, hthreads, ht, Ne.symm ht]
  constructor
  · intro hcalm hcap t' ht'
    by_contra hnot
    exact hdue r (hcalm t' r ((hwaits t' r).mpr ⟨ht', hnot⟩) ((hroom r).mpr hcap))
  · intro hpicked t' r' ht' hcap
    obtain ⟨hwait, hnot⟩ := (hwaits t' r').mp ht'
    have hcap' := (hroom r').mp hcap
    have hdue' := h t' r' hwait hcap'
    simp only [WakeupDue, hloop] at hdue'
    subst hdue'
    exact absurd (hpicked hcap' t' hwait) hnot

theorem remove_stranded_iff (hvalid : s.Valid maxConns) (hloop : s.loop = .remove r c)
    (h : ¬ s.Stranded maxConns) :
    ¬ (s.step maxConns .remove).Stranded maxConns ↔ ∀ t, ¬ s.Waits t r := by
  obtain ⟨conn, hconn, -⟩ := hvalid.held r c (by simp [hloop, LoopPhase.On])
  have hpool := (hvalid.pools r).valid
  obtain ⟨p, hremove, havail, hleased, -⟩ := HttpConnectionPool.remove_effect hpool ⟨conn, hconn⟩
  have hstep : s.step maxConns .remove = { s.setPool r p with loop := .idle } := by
    simp [step, hloop, hremove]
  have hless : p.activeConns < maxConns := by
    have hmem := (hpool.live c).mp (by simp [show (s.pool r).conns c = some conn from hconn])
    have hbound := hpool.bound
    have hlen₁ := havail.length_eq
    have hlen₂ := hleased.length_eq
    rw [List.length_erase] at hlen₁ hlen₂
    simp only [HttpConnectionPool.activeConns] at hbound ⊢
    rcases List.mem_append.mp hmem with hin | hin
    · have hpos := List.length_pos_of_mem hin
      rw [if_pos hin] at hlen₁
      split at hlen₂ <;> omega
    · have hpos := List.length_pos_of_mem hin
      rw [if_pos hin] at hlen₂
      split at hlen₁ <;> omega
  rw [not_stranded_iff] at h ⊢
  rw [hstep]
  constructor
  · intro hcalm t ht
    have hdue := hcalm t r ht (.inr (by
      show ((s.setPool r p).pool r).activeConns < maxConns
      rw [pool_setPool, Function.update_self]
      exact hless))
    exact hdue
  · intro hnone t r' ht hroom
    have hr : r' ≠ r := by
      rintro rfl
      exact hnone t ht
    have hroom' : (s.setPool r p).Capacity maxConns r' := hroom
    have hdue := h t r' ht (by simpa [Capacity, hr] using hroom')
    simp [WakeupDue, hloop] at hdue

private theorem enterWait_stranded_iff (ht : s.threads t = .unlocked r)
    (h : ¬ s.Stranded maxConns) :
    ¬ (s.step maxConns (.enterWait t)).Stranded maxConns ↔ s.Settled maxConns r := by
  rw [not_stranded_iff] at h ⊢
  simp only [step, ht]
  constructor
  · intro hcalm
    exact hcalm t r (waits_blocked.mpr (.inl ⟨rfl, rfl⟩))
  · intro hsettled t' r' hwaits
    rcases waits_blocked.mp hwaits with ⟨-, rfl⟩ | ⟨-, hold⟩
    · exact hsettled
    · exact h t' r' hold

private theorem wake_stranded_iff {notified : Bool} (ht : s.threads t = .blocked r notified)
    (h : ¬ s.Stranded maxConns) :
    ¬ (s.step maxConns (.wake t false)).Stranded maxConns ↔
      (s.pending r = true → s.Settled maxConns r) := by
  simp only [step, ht, wakeFrom, Bool.false_eq_true, if_false]
  by_cases hpending : s.pending r = true
  · rw [if_pos hpending]
    rw [not_stranded_iff] at h ⊢
    constructor
    · intro hcalm _
      exact hcalm t r (waits_blocked.mpr (.inl ⟨rfl, rfl⟩))
    · intro hsettled t' r' hwaits
      rcases waits_blocked.mp hwaits with ⟨-, rfl⟩ | ⟨-, hold⟩
      · exact hsettled hpending
      · exact h t' r' hold
  · rw [if_neg hpending]
    refine iff_of_true ?_ (fun hset => absurd hset hpending)
    exact not_stranded_of h (fun t' r' hwaits => waits_setThread (by simp) hwaits) (fun _ => id)

private theorem step_stranded_iff (e : ClientEvent R π θ) (hvalid : s.Valid maxConns)
    (hok : s.Allowed e)
    (h : ¬ s.Stranded maxConns) :
    ¬ (s.step maxConns e).Stranded maxConns ↔ s.Safe maxConns e := by
  obtain ⟨-, hok⟩ := hok
  cases e with
  | call t r =>
      refine iff_of_true ?_ trivial
      exact not_stranded_of h (fun t' r' hwaits => waits_setThread (by simp) hwaits) (fun _ => id)
  | unresolved t =>
      refine iff_of_true ?_ trivial
      exact not_stranded_of h (fun t' r' hwaits => waits_setThread (by simp) hwaits) (fun _ => id)
  | lock t fresh =>
      obtain ⟨r, ht, -⟩ := hok
      refine iff_of_true ?_ trivial
      simp only [step, ht]
      exact lock_not_stranded fresh hvalid h
  | enterWait t =>
      obtain ⟨r, ht⟩ := hok
      rw [enterWait_stranded_iff ht h]
      simp [Safe, ht]
  | wake t timedOut =>
      obtain ⟨r, notified, ht⟩ := hok
      cases timedOut with
      | false =>
          rw [wake_stranded_iff ht h]
          simp [Safe, ht]
      | true =>
          refine iff_of_true ?_ trivial
          simp only [step, ht, wakeFrom, if_true]
          exact not_stranded_of h (fun t' r' hwaits => waits_setThread (by simp) hwaits)
            (fun _ => id)
  | establish r c =>
      obtain ⟨-, conn, hconn, -⟩ := hok
      refine iff_of_true ?_ trivial
      simp only [step, hconn, sendOn, if_true]
      exact not_stranded_of h (fun _ _ => id)
        (fun r' => settled_of (vectors_setConn _) (fun _ => id))
  | runFunctor =>
      refine iff_of_true ?_ trivial
      simp only [step]
      split
      · exact h
      · exact not_stranded_of h (fun _ _ => id) (fun _ => id)
  | receive r c => exact iff_of_true (notify_not_stranded hok.1 h) trivial
  | put =>
      obtain ⟨r, c, hloop⟩ := hok
      exact iff_of_true (put_not_stranded hvalid hloop h) trivial
  | cancel =>
      obtain ⟨r, c, after, hloop⟩ := hok
      exact iff_of_true (cancel_not_stranded hvalid hloop h) trivial
  | clear =>
      obtain ⟨r, c, after, hloop⟩ := hok
      exact iff_of_true (clear_not_stranded hvalid hloop h) trivial
  | wakeup chosen =>
      obtain ⟨r, hloop, hchosen⟩ := hok
      rw [wakeup_stranded_iff hloop hchosen h]
      simp [Safe, hloop]
  | remove =>
      obtain ⟨r, c, hloop⟩ := hok
      rw [remove_stranded_iff hvalid hloop h]
      simp [Safe, hloop]
  | expire timer =>
      refine iff_of_true ?_ trivial
      refine notify_not_stranded hok.1 ?_
      exact not_stranded_of h (fun _ _ => id) (fun _ => id)
  | connectTimeout r c => exact iff_of_true (notify_not_stranded hok.1 h) trivial
  | reset r c =>
      obtain ⟨hidle, conn, hconn, -⟩ := hok
      refine iff_of_true ?_ trivial
      simp only [step, hconn]
      split
      · exact notify_not_stranded hidle h
      · refine not_stranded_of h (fun _ _ => id) (fun r' => settled_of (fun _ => ⟨rfl, rfl⟩) ?_)
        simp [WakeupDue, hidle]

/-- A run strands nobody, in any of its states, exactly when all its steps are
safe. -/
theorem run_stranded_iff {events : List (ClientEvent R π θ)} (hvalid : s.Valid maxConns)
    (h : ¬ s.Stranded maxConns) (hrun : Admissible (step maxConns) Allowed s events) :
    (∀ n, ¬ (run (step maxConns) s (events.take n)).Stranded maxConns) ↔
      Admissible (step maxConns) (Safe maxConns) s events := by
  induction events generalizing s with
  | nil => simpa [Admissible] using h
  | cons e events ih =>
      obtain ⟨hok, hrest⟩ := hrun
      have hvalid' := step_valid s e hvalid hok
      constructor
      · intro hcalm
        have hfirst := hcalm 1
        simp only [List.take_succ_cons, List.take_zero, run_cons, run_nil] at hfirst
        refine ⟨(step_stranded_iff e hvalid hok h).mp hfirst, (ih hvalid' hfirst hrest).mp ?_⟩
        intro n
        exact hcalm (n + 1)
      · rintro ⟨hsafe, hlater⟩ n
        have hfirst := (step_stranded_iff e hvalid hok h).mpr hsafe
        cases n with
        | zero => exact h
        | succ n => exact (ih hvalid' hfirst hrest).mpr hlater n

/-- No thread waits in vain in any state of an interleaving exactly when its steps
are safe. -/
theorem never_stranded_iff {events : List (ClientEvent R π θ)}
    (hrun : Admissible (step maxConns) Allowed init events) :
    (∀ n, ¬ (run (step maxConns) init (events.take n)).Stranded maxConns) ↔
      Admissible (step maxConns) (Safe maxConns) init events := by
  apply run_stranded_iff init_valid ?_ hrun
  rintro ⟨t, r, hwaits, -⟩
  simp [Waits, init] at hwaits

/-- Two threads and one connection: the second thread finds the pool exhausted. -/
def exhausted : List (ClientEvent Unit Nat Nat) :=
  [.call 0 (), .lock 0 10, .call 1 (), .lock 1 11, .establish () 10]

/-- The response to the first request, up to the `wakeup`. -/
def answered : List (ClientEvent Unit Nat Nat) := [.receive () 10, .put, .cancel, .clear]

def earlyWaiter : List (ClientEvent Unit Nat Nat) :=
  exhausted ++ [.enterWait 1] ++ answered ++ [.wakeup (some 1)]

def lateWaiter : List (ClientEvent Unit Nat Nat) :=
  exhausted ++ answered ++ [.wakeup none, .enterWait 1]

theorem exhausted_admissible :
    Admissible (step 1) Allowed (init : HttpClient Unit Nat Nat) exhausted :=
  ⟨⟨nofun, rfl⟩, ⟨nofun, (), rfl, rfl⟩, ⟨nofun, rfl⟩, ⟨nofun, (), rfl, rfl⟩,
    ⟨nofun, rfl, _, rfl, rfl, rfl⟩, trivial⟩

private theorem earlyWaiter_admissible :
    Admissible (step 1) Allowed (init : HttpClient Unit Nat Nat) earlyWaiter := by
  simp only [earlyWaiter, List.append_assoc]
  refine admissible_append.mpr ⟨exhausted_admissible, ?_⟩
  exact ⟨⟨nofun, (), rfl⟩, ⟨nofun, rfl, _, rfl, rfl, rfl⟩, ⟨nofun, (), 10, rfl⟩,
    ⟨nofun, (), 10, _, rfl⟩, ⟨nofun, (), 10, _, rfl⟩, ⟨nofun, (), rfl, rfl, rfl⟩, trivial⟩

/-- A thread that waits before the response comes is notified by it. -/
theorem never_stranded_early :
    Admissible (step 1) Allowed (init : HttpClient Unit Nat Nat) earlyWaiter ∧
    ∀ n, ¬ (run (step 1) (init : HttpClient Unit Nat Nat) (earlyWaiter.take n)).Stranded 1 := by
  refine ⟨earlyWaiter_admissible, ?_⟩
  apply (never_stranded_iff earlyWaiter_admissible).mpr
  refine ⟨trivial, trivial, trivial, trivial, trivial, ?_, trivial, trivial, trivial, trivial, ?_,
    trivial⟩
  · rintro ⟨⟩ - (hroom | hroom)
    · exact absurd rfl hroom
    · exact absurd hroom (Nat.lt_irrefl 1)
  · rintro ⟨⟩ - - t ht
    -- only the second thread has come to wait
    match t with
    | 0 => exact nomatch ht
    | 1 => rfl
    | t + 2 => exact nomatch ht

/-- A thread that starts to wait after the `wakeup` waits beside an available
connection, with nothing to come that would wake it. -/
theorem late_waiter_stranded :
    Admissible (step 1) Allowed (init : HttpClient Unit Nat Nat) lateWaiter ∧
    (run (step 1) (init : HttpClient Unit Nat Nat) lateWaiter).Stranded 1 := by
  refine ⟨?_, 1, (), rfl, .inl nofun, id⟩
  simp only [lateWaiter, List.append_assoc]
  refine admissible_append.mpr ⟨exhausted_admissible, ?_⟩
  exact ⟨⟨nofun, rfl, _, rfl, rfl, rfl⟩, ⟨nofun, (), 10, rfl⟩, ⟨nofun, (), 10, _, rfl⟩,
    ⟨nofun, (), 10, _, rfl⟩, ⟨nofun, (), rfl, nofun⟩, ⟨nofun, (), rfl⟩, trivial⟩

end Angel.Http.HttpClient
