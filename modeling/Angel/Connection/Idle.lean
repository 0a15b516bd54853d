import Angel.Connection.Ttl

/-!
What the idle timers come to over whole runs of a loop: each is the timer of one connection, set for
the end of its time to live. None closes a connection that was active since, and behind a `tick` no
connection is overdue.
-/

namespace Angel.Ttl.Loop

open Lib

variable {s : Loop} {conn : ConnId} {e : Event}

/-- The task of the timer of a connection. -/
structure Fits (s : Loop) (conn : ConnId) (task : TimerTask Callback) : Prop where
  id : task.id = (s.conns conn).ttlTimerId
  once : task.interval = 0
  expire : task.expire = s.active conn + (s.conns conn).ttlMs

theorem Fits.transfer {s' : Loop} {task : TimerTask Callback} (h : s.Fits conn task)
    (hconn : s'.conns conn = s.conns conn) (hactive : s'.active conn = s.active conn) :
    s'.Fits conn task :=
  ⟨by rw [hconn, h.id], h.once, by rw [hconn, hactive, h.expire]⟩

/-- The timer whose id an open connection has is among those of the loop. -/
def Stored (s : Loop) (conn : ConnId) : Prop :=
  (s.conns conn).state ≠ .closed → 0 < (s.conns conn).ttlTimerId →
    ∃ task ∈ s.timers.timer.timerSet, task.timerCb = .ttl conn

/-- What holds of the timers and the connections also between the two halves of a step. -/
structure Sound (s : Loop) : Prop where
  timers : s.timers.Valid
  used : ∀ id ∈ s.timers.added, id < s.timerId
  positive : 0 < s.timerId
  known : ∀ conn, (s.conns conn).ttlTimerId < s.timerId
  owner : ∀ task ∈ s.timers.timer.timerSet, ∀ conn,
    task.id = (s.conns conn).ttlTimerId → task.timerCb = .ttl conn
  fits : ∀ task ∈ s.timers.timer.timerSet, ∀ conn, task.timerCb = .ttl conn → s.Fits conn task
  called : ∀ now cur, s.timers.phase = .calling now cur → ∀ conn,
    (cur.id = (s.conns conn).ttlTimerId → cur.timerCb = .ttl conn) ∧
      (cur.timerCb = .ttl conn → cur.interval = 0)
  armed : ∀ conn, (s.conns conn).state = .connected → 0 < (s.conns conn).ttlMs →
    0 < (s.conns conn).ttlTimerId
  expired : ∀ idle ∈ s.expired, idle.lastActive + idle.ttlMs ≤ idle.now
  clock : InTime s.now
  bounded : ∀ conn, InTime (s.conns conn).ttlMs

structure Valid (s : Loop) : Prop extends Sound s where
  stored : ∀ conn, s.Stored conn

theorem InTime.add {now ms : Int} (hnow : InTime now) (hms : InTime ms) :
    Timer.int64 (now + ms) = now + ms := by
  obtain ⟨hnow, hnow'⟩ := hnow
  obtain ⟨hms, hms'⟩ := hms
  apply Timer.int64_eq <;> omega

theorem init_valid {now : Int} (hnow : InTime now) : Valid (init now) where
  timers := Timer.State.init_valid
  used := nofun
  positive := Nat.one_pos
  known _ := Nat.one_pos
  owner := nofun
  fits := nofun
  called := nofun
  armed _ _ h := by simp [init, Conn.create] at h
  expired := nofun
  clock := hnow
  bounded _ := ⟨le_rfl, by simp [init, Conn.create]⟩
  stored _ _ h := by simp [init, Conn.create] at h

/-- A new timer in place of the one the connection had. -/
def rearm (s : Loop) (conn : ConnId) (ms : Int) : Loop :=
  { s with
    timers := (s.timers.step (.cancel (s.conns conn).ttlTimerId)).step
      (.add ⟨s.timerId, Timer.int64 (s.now + ms), 0, .ttl conn⟩)
    timerId := s.timerId + 1
    conns := Function.update s.conns conn ⟨(s.conns conn).state, ms, s.timerId⟩
    active := Function.update s.active conn s.now }

/-- A connection without its timer. -/
def release (s : Loop) (conn : ConnId) (state : Connection.State) : Loop :=
  { s with
    timers := s.timers.step (.cancel (s.conns conn).ttlTimerId)
    conns := Function.update s.conns conn ⟨state, (s.conns conn).ttlMs, 0⟩ }

theorem setTtl_eq {ms : Int} (hms : 0 < ms) : (s.setTtl conn ms).touch conn = s.rearm conn ms := by
  have hnot : ¬ ms ≤ 0 := Int.not_le.mpr hms
  simp [setTtl, hnot, touch, setTtlTimer, addTimer, cancelTimer, set, rearm]

theorem updateTtlTimer_eq (hid : 0 < (s.conns conn).ttlTimerId) :
    (s.updateTtlTimer conn).touch conn = s.rearm conn (s.conns conn).ttlMs := by
  simp [updateTtlTimer, hid, touch, setTtlTimer, addTimer, cancelTimer, set, rearm]

theorem handleClose_eq {isForced drained : Bool} (hopen : (s.conns conn).state ≠ .closed) :
    s.handleClose conn isForced drained =
      s.release conn (if !isForced && !drained then .closing else .closed) := by
  obtain hzero | hid := Nat.eq_zero_or_pos (s.conns conn).ttlTimerId
  · simp [handleClose, hopen, release, set, hzero, Timer.State.step, Timer.cancelTimer]
  · simp [handleClose, hopen, release, set, hid, cancelTimer]

theorem mem_step_cancel (h : s.timers.Valid) {task : TimerTask Callback} {id : Nat} :
    task ∈ (s.timers.step (.cancel id)).timer.timerSet ↔
      task ∈ s.timers.timer.timerSet ∧ task.id ≠ id := by
  obtain rfl | hne := eq_or_ne id 0
  · refine ⟨fun hmem => ⟨hmem, ?_⟩, And.left⟩
    intro hzero
    exact h.nonzero (hzero ▸ h.stored task hmem)
  · simp only [Timer.State.step, Timer.cancelTimer, hne, if_false]
    exact Timer.mem_cancelTimerInLoop h.consistent

theorem mem_step_add {t : Timer.State Callback} {task new : TimerTask Callback} :
    task ∈ (t.step (.add new)).timer.timerSet ↔ task = new ∨ task ∈ t.timer.timerSet :=
  Timer.mem_addTimerInLoop

theorem Sound.fresh (h : Sound s) : s.timerId ∉ s.timers.added := by
  intro hmem
  exact Nat.lt_irrefl _ (h.used _ hmem)

theorem Sound.below (h : Sound s) {task : TimerTask Callback}
    (hmem : task ∈ s.timers.timer.timerSet) : task.id < s.timerId :=
  h.used _ (h.timers.stored task hmem)

theorem Sound.add_allowed (h : Sound s) (hcall : s.timers.Callable) {expire interval : Int}
    {cb : Callback} : s.timers.Allowed (.add ⟨s.timerId, expire, interval, cb⟩) :=
  ⟨hcall, h.fresh, Nat.pos_iff_ne_zero.mp h.positive⟩

theorem addTimer_sound (h : Sound s) (hcall : s.timers.Callable) (timeout interval : Int) :
    Sound (s.addTimer timeout interval .user) where
  timers := Timer.State.step_valid _ _ h.timers (h.add_allowed hcall)
  used := by
    intro id hmem
    obtain rfl | hold := List.mem_cons.mp hmem
    · exact Nat.lt_succ_self _
    · exact Nat.lt_succ_of_lt (h.used id hold)
  positive := Nat.succ_pos _
  known conn := Nat.lt_succ_of_lt (h.known conn)
  owner task hmem conn hid := by
    obtain rfl | hold := mem_step_add.mp hmem
    · exact absurd hid.symm (Nat.ne_of_lt (h.known conn))
    · exact h.owner task hold conn hid
  fits task hmem conn hcb := by
    obtain rfl | hold := mem_step_add.mp hmem
    · exact nomatch hcb
    · exact (h.fits task hold conn hcb).transfer rfl rfl
  called := h.called
  armed := h.armed
  expired := h.expired
  clock := h.clock
  bounded := h.bounded

theorem cancel_sound (h : Sound s) (hcall : s.timers.Callable) (id : Nat) :
    Sound (s.cancelTimer id) where
  timers := Timer.State.step_valid s.timers (.cancel id) h.timers hcall
  used := h.used
  positive := h.positive
  known := h.known
  owner task hmem := h.owner task ((mem_step_cancel h.timers).mp hmem).1
  fits task hmem conn hcb :=
    (h.fits task ((mem_step_cancel h.timers).mp hmem).1 conn hcb).transfer rfl rfl
  called := h.called
  armed := h.armed
  expired := h.expired
  clock := h.clock
  bounded := h.bounded

theorem rearm_sound (h : Sound s) (hcall : s.timers.Callable) (conn : ConnId) {ms : Int}
    (hms : InTime ms) : Sound (s.rearm conn ms) where
  timers := by
    have hcancel := Timer.State.step_valid s.timers (.cancel (s.conns conn).ttlTimerId) h.timers hcall
    exact Timer.State.step_valid _ (.add _) hcancel (h.add_allowed hcall)
  used := by
    intro id hmem
    obtain rfl | hold := List.mem_cons.mp hmem
    · exact Nat.lt_succ_self _
    · exact Nat.lt_succ_of_lt (h.used id hold)
  positive := Nat.succ_pos _
  known other := by
    obtain rfl | hne := eq_or_ne other conn
    · simp [rearm]
    · simpa [rearm, hne] using Nat.lt_succ_of_lt (h.known other)
  owner task hmem other hid := by
    obtain rfl | hold := mem_step_add.mp hmem
    · obtain rfl | hne := eq_or_ne other conn
      · rfl
      · simp only [rearm, Function.update_of_ne hne] at hid
        exact absurd hid.symm (Nat.ne_of_lt (h.known other))
    · have hkept := ((mem_step_cancel h.timers).mp hold).1
      obtain rfl | hne := eq_or_ne other conn
      · simp only [rearm, Function.update_self] at hid
        exact absurd hid (Nat.ne_of_lt (h.below hkept))
      · simp only [rearm, Function.update_of_ne hne] at hid
        exact h.owner task hkept other hid
  fits task hmem other hcb := by
    obtain rfl | hold := mem_step_add.mp hmem
    · obtain rfl : conn = other := by simpa using hcb
      exact ⟨by simp [rearm], rfl, by simp [rearm, h.clock.add hms]⟩
    · obtain ⟨hkept, hid⟩ := (mem_step_cancel h.timers).mp hold
      have hfits := h.fits task hkept other hcb
      have hne : other ≠ conn := by
        rintro rfl
        exact hid hfits.id
      exact hfits.transfer (by simp [rearm, hne]) (by simp [rearm, hne])
  called now cur hphase other := by
    have hcur := h.called now cur hphase other
    obtain rfl | hne := eq_or_ne other conn
    · refine ⟨fun hid => ?_, hcur.2⟩
      simp only [rearm, Function.update_self] at hid
      have hbelow := h.used _ (h.timers.detached now cur hphase).1
      exact absurd hid (Nat.ne_of_lt hbelow)
    · simpa [rearm, hne] using hcur
  armed other := by
    obtain rfl | hne := eq_or_ne other conn
    · simpa [rearm] using fun _ _ => h.positive
    · simpa [rearm, hne] using h.armed other
  expired := h.expired
  clock := h.clock
  bounded other := by
    obtain rfl | hne := eq_or_ne other conn
    · simpa [rearm] using hms
    · simpa [rearm, hne] using h.bounded other

theorem rearm_stored (h : Sound s) (ms : Int) {other : ConnId}
    (hstored : other ≠ conn → s.Stored other) : (s.rearm conn ms).Stored other := by
  obtain rfl | hne := eq_or_ne other conn
  · exact fun _ _ => ⟨_, mem_step_add.mpr (.inl rfl), rfl⟩
  · intro hopen hid
    simp only [rearm, Function.update_of_ne hne] at hopen hid
    obtain ⟨task, hmem, hcb⟩ := hstored hne hopen hid
    refine ⟨task, mem_step_add.mpr (.inr ((mem_step_cancel h.timers).mpr ⟨hmem, ?_⟩)), hcb⟩
    -- a task of the cancelled id is one of `conn`
    intro hcancelled
    have hconn := h.owner task hmem conn hcancelled
    exact hne (by simpa [hcb] using hconn)

private theorem release_sound (h : Sound s) (hcall : s.timers.Callable) (conn : ConnId)
    {state : Connection.State} (hstate : state ≠ .connected) : Sound (s.release conn state) where
  timers := Timer.State.step_valid s.timers (.cancel _) h.timers hcall
  used := h.used
  positive := h.positive
  known other := by
    obtain rfl | hne := eq_or_ne other conn
    · simpa [release] using h.positive
    · simpa [release, hne] using h.known other
  owner task hmem other hid := by
    have hkept := ((mem_step_cancel h.timers).mp hmem).1
    obtain rfl | hne := eq_or_ne other conn
    · simp only [release, Function.update_self] at hid
      exact absurd (hid ▸ h.timers.stored task hkept) h.timers.nonzero
    · simp only [release, Function.update_of_ne hne] at hid
      exact h.owner task hkept other hid
  fits task hmem other hcb := by
    obtain ⟨hkept, hid⟩ := (mem_step_cancel h.timers).mp hmem
    have hfits := h.fits task hkept other hcb
    have hne : other ≠ conn := by
      rintro rfl
      exact hid hfits.id
    exact hfits.transfer (by simp [release, hne]) rfl
  called now cur hphase other := by
    have hcur := h.called now cur hphase other
    obtain rfl | hne := eq_or_ne other conn
    · refine ⟨fun hid => ?_, hcur.2⟩
      simp only [release, Function.update_self] at hid
      exact absurd (hid ▸ (h.timers.detached now cur hphase).1) h.timers.nonzero
    · simpa [release, hne] using hcur
  armed other := by
    obtain rfl | hne := eq_or_ne other conn
    · simp [release, hstate]
    · simpa [release, hne] using h.armed other
  expired := h.expired
  clock := h.clock
  bounded other := by
    obtain rfl | hne := eq_or_ne other conn
    · simpa [release] using h.bounded other
    · simpa [release, hne] using h.bounded other

private theorem release_stored (h : Sound s) {state : Connection.State} {other : ConnId}
    (hstored : other ≠ conn → s.Stored other) : (s.release conn state).Stored other := by
  obtain rfl | hne := eq_or_ne other conn
  · intro _ hid
    simp [release] at hid
  · intro hopen hid
    simp only [release, Function.update_of_ne hne] at hopen hid
    obtain ⟨task, hmem, hcb⟩ := hstored hne hopen hid
    refine ⟨task, (mem_step_cancel h.timers).mpr ⟨hmem, ?_⟩, hcb⟩
    intro hcancelled
    have hconn := h.owner task hmem conn hcancelled
    exact hne (by simpa [hcb] using hconn)

theorem handleClose_valid (h : Sound s) (hcall : s.timers.Callable) (isForced drained : Bool)
    (hstored : ∀ other ≠ conn, s.Stored other) : Valid (s.handleClose conn isForced drained) := by
  obtain hclosed | hopen := eq_or_ne (s.conns conn).state .closed
  · have hsame : s.handleClose conn isForced drained = s := by simp [handleClose, hclosed]
    refine ⟨hsame.symm ▸ h, ?_⟩
    intro other
    rw [hsame]
    obtain rfl | hne := eq_or_ne other conn
    · exact fun hopen => absurd hclosed hopen
    · exact hstored other hne
  · rw [handleClose_eq hopen]
    refine ⟨release_sound h hcall conn ?_, fun other => release_stored h (hstored other)⟩
    split <;> simp

/-- A pass ends the loop of `tick`, or it takes out the first timer and calls it. -/
theorem next_cases (h : Sound s) {now : Int} (hphase : s.timers.phase = .ticking now)
    (drained : Bool) :
    (s.step (.next drained) = { s with timers := { s.timers with phase := .outside } } ∧
      ∀ task ∈ s.timers.timer.timerSet, now < task.expire) ∨
    ∃ cur rest, s.timers.timer.timerSet = cur :: rest ∧ cur.expire ≤ now ∧
      (s.timers.step .next).timer.timerSet = rest ∧
      (s.timers.step .next).phase = .calling now cur ∧
      (s.timers.step .next).added = s.timers.added ∧
      s.step (.next drained) =
        callback { s with timers := s.timers.step .next } now drained cur.timerCb := by
  obtain ⟨hstep, hlate⟩ | ⟨cur, rest, hset, hdue, hstep⟩ :=
    Timer.State.step_next_cases h.timers hphase
  · exact .inl ⟨by simp [step, hstep], hlate⟩
  · refine .inr ⟨cur, rest, hset, hdue, ?_⟩
    simp [step, hstep]

theorem detached_sound (h : Sound s) {now : Int} {cur : TimerTask Callback}
    {rest : List (TimerTask Callback)} (hphase : s.timers.phase = .ticking now)
    (hset : s.timers.timer.timerSet = cur :: rest)
    (hrest : (s.timers.step .next).timer.timerSet = rest)
    (hcalling : (s.timers.step .next).phase = .calling now cur)
    (hadded : (s.timers.step .next).added = s.timers.added) :
    Sound { s with timers := s.timers.step .next } := by
  have hkept : ∀ task ∈ (s.timers.step .next).timer.timerSet, task ∈ s.timers.timer.timerSet := by
    simp +contextual [hrest, hset]
  have hcur : cur ∈ s.timers.timer.timerSet := by simp [hset]
  exact {
    timers := Timer.State.step_valid s.timers .next h.timers ⟨now, hphase⟩
    used := by simpa [hadded] using h.used
    positive := h.positive
    known := h.known
    owner := fun task hmem => h.owner task (hkept task hmem)
    fits := fun task hmem conn hcb => (h.fits task (hkept task hmem) conn hcb).transfer rfl rfl
    called := by
      intro now' cur' hphase' conn
      simp only [hcalling, Timer.Phase.calling.injEq] at hphase'
      obtain ⟨-, rfl⟩ := hphase'
      exact ⟨h.owner cur hcur conn, fun hcb => (h.fits cur hcur conn hcb).once⟩
    armed := h.armed
    expired := h.expired
    clock := h.clock
    bounded := h.bounded }

@[simp] theorem handleClose_timers_phase (isForced drained : Bool) :
    (s.handleClose conn isForced drained).timers.phase = s.timers.phase := by
  obtain hclosed | hopen := eq_or_ne (s.conns conn).state .closed
  · simp [handleClose, hclosed]
  · rw [handleClose_eq hopen]
    rfl

@[simp] theorem callback_phase (now : Int) (drained : Bool) (cb : Callback) :
    (s.callback now drained cb).timers.phase = s.timers.phase := by
  cases cb <;> simp [callback]

private theorem callable_calling {t : Timer.State Callback} {now : Int} {cur : TimerTask Callback}
    (h : t.phase = .calling now cur) : t.Callable := by
  simp [Timer.State.Callable, h]

theorem next_valid (h : Valid s) {now : Int} (hphase : s.timers.phase = .ticking now)
    (drained : Bool) : Valid (s.step (.next drained)) := by
  obtain ⟨hstep, -⟩ | ⟨cur, rest, hset, hdue, hrest, hcalling, hadded, hstep⟩ :=
    next_cases h.toSound hphase drained
  · rw [hstep]
    have ht := h.timers
    exact {
      timers := ⟨ht.consistent, ht.stored, ht.nonzero, nofun, nofun⟩
      used := h.used
      positive := h.positive
      known := h.known
      owner := h.owner
      fits := fun task hmem conn hcb => (h.fits task hmem conn hcb).transfer rfl rfl
      called := nofun
      armed := h.armed
      expired := h.expired
      clock := h.clock
      bounded := h.bounded
      stored := h.stored }
  · rw [hstep]
    have hsound := detached_sound h.toSound hphase hset hrest hcalling hadded
    -- a connection keeps its timer unless that is the one called
    have hstored : ∀ other, cur.timerCb ≠ .ttl other →
        Stored { s with timers := s.timers.step .next } other := by
      intro other hne hopen hid
      obtain ⟨task, hmem, hcb⟩ := h.stored other hopen hid
      rw [hset] at hmem
      obtain rfl | hin := List.mem_cons.mp hmem
      · exact absurd hcb hne
      · exact ⟨task, hrest ▸ hin, hcb⟩
    cases hcb : cur.timerCb with
    | user => exact ⟨hsound, fun other => hstored other (by simp [hcb])⟩
    | ttl conn =>
        have hexpire := (h.fits cur (by simp [hset]) conn hcb).expire
        have hidle : s.active conn + (s.conns conn).ttlMs ≤ now := hexpire ▸ hdue
        refine handleClose_valid ?_ (callable_calling hcalling) false drained ?_
        · refine { hsound with fits := ?_, expired := ?_ }
          · intro task hmem other hother
            exact (hsound.fits task hmem other hother).transfer rfl rfl
          · simpa [or_imp, forall_and] using ⟨h.expired, hidle⟩
        · intro other hne
          exact hstored other (by simpa [hcb] using hne.symm)

theorem ret_valid (h : Valid s) {now : Int} {cur : TimerTask Callback}
    (hphase : s.timers.phase = .calling now cur) : Valid (s.step .ret) := by
  have hstep := Timer.State.step_ret_eq hphase
  -- what comes back is a timer of the user
  have hmem : ∀ task ∈ (s.timers.step .ret).timer.timerSet,
      task ∈ s.timers.timer.timerSet ∨ task.id = cur.id ∧ task.timerCb = cur.timerCb ∧
        0 < cur.interval := by
    intro task htask
    rw [hstep] at htask
    unfold Timer.renew at htask
    split at htask
    case isTrue hinterval =>
      obtain rfl | hold := Timer.mem_addTimerInLoop.mp htask
      · exact .inr ⟨rfl, rfl, hinterval⟩
      · exact .inl hold
    case isFalse => exact .inl htask
  have hkept : ∀ task ∈ s.timers.timer.timerSet, task ∈ (s.timers.step .ret).timer.timerSet := by
    intro task htask
    rw [hstep]
    unfold Timer.renew
    split
    · exact Timer.mem_addTimerInLoop.mpr (.inr htask)
    · exact htask
  exact {
    timers := Timer.State.step_valid s.timers .ret h.timers ⟨now, cur, hphase⟩
    used := by simpa [step, hstep] using h.used
    positive := h.positive
    known := h.known
    owner := by
      intro task htask conn hid
      obtain hold | ⟨hcur, hcb, -⟩ := hmem task htask
      · exact h.owner task hold conn hid
      · exact hcb ▸ (h.called now cur hphase conn).1 (hcur ▸ hid)
    fits := by
      intro task htask conn hcb
      obtain hold | ⟨-, hcur, hinterval⟩ := hmem task htask
      · exact (h.fits task hold conn hcb).transfer rfl rfl
      · have honce := (h.called now cur hphase conn).2 (hcur ▸ hcb)
        exact absurd honce (Int.ne_of_gt hinterval)
    called := by
      intro now' cur' hphase'
      simp [step, hstep] at hphase'
    armed := h.armed
    expired := h.expired
    clock := h.clock
    bounded := h.bounded
    stored := by
      intro conn hopen hid
      obtain ⟨task, htask, hcb⟩ := h.stored conn hopen hid
      exact ⟨task, hkept task htask, hcb⟩ }

theorem active_valid (h : Valid s) (hcall : s.timers.Callable) (conn : ConnId) :
    Valid ((s.updateTtlTimer conn).touch conn) := by
  obtain hzero | hid := Nat.eq_zero_or_pos (s.conns conn).ttlTimerId
  · have hsame : s.updateTtlTimer conn = s := by simp [updateTtlTimer, hzero]
    rw [hsame]
    refine { h with fits := ?_, stored := h.stored }
    intro task hmem other hcb
    have hfits := h.fits task hmem other hcb
    -- no timer is one of `conn`
    have hne : other ≠ conn := by
      rintro rfl
      exact h.timers.nonzero (hzero ▸ hfits.id ▸ h.timers.stored task hmem)
    exact hfits.transfer rfl (by simp [touch, hne])
  · rw [updateTtlTimer_eq hid]
    exact ⟨rearm_sound h.toSound hcall conn (h.bounded conn), fun other =>
      rearm_stored h.toSound _ fun _ => h.stored other⟩

private theorem cancel_valid (h : Valid s) {id : Nat} (hcall : s.timers.Callable)
    (huser : ∀ task ∈ s.timers.timer.timerSet, task.id = id → task.timerCb = .user) :
    Valid (s.cancelTimer id) := by
  refine ⟨cancel_sound h.toSound hcall id, ?_⟩
  intro conn hopen hid
  obtain ⟨task, hmem, hcb⟩ := h.stored conn hopen hid
  refine ⟨task, (mem_step_cancel h.timers).mpr ⟨hmem, ?_⟩, hcb⟩
  intro hcancelled
  exact nomatch hcb.symm.trans (huser task hmem hcancelled)

private theorem addTimer_valid (h : Valid s) (hcall : s.timers.Callable) (timeout interval : Int) :
    Valid (s.addTimer timeout interval .user) := by
  refine ⟨addTimer_sound h.toSound hcall timeout interval, ?_⟩
  intro conn hopen hid
  obtain ⟨task, hmem, hcb⟩ := h.stored conn hopen hid
  exact ⟨task, mem_step_add.mpr (.inr hmem), hcb⟩

theorem step_valid (s : Loop) (e : Event) (h : Valid s) (hok : s.Allowed e) : Valid (s.step e) := by
  cases e with
  | setTtl conn ms =>
      obtain hms | hms := Int.lt_or_le 0 ms
      · simp only [step, hms, if_true, setTtl_eq]
        exact ⟨rearm_sound h.toSound hok.1 conn ⟨hms.le, hok.2⟩, fun other =>
          rearm_stored h.toSound ms fun _ => h.stored other⟩
      · simpa [step, setTtl, hms, Int.not_lt.mpr hms] using h
  | active conn => exact active_valid h hok conn
  | close conn drained => exact handleClose_valid h.toSound hok false drained fun other _ => h.stored other
  | terminate conn => exact handleClose_valid h.toSound hok true false fun other _ => h.stored other
  | runAfter timeout => exact addTimer_valid h hok timeout 0
  | runEvery interval => exact addTimer_valid h hok interval interval
  | cancel id => exact cancel_valid h hok.1 hok.2
  | advance now =>
      exact { h with
        fits := fun task hmem conn hcb => (h.fits task hmem conn hcb).transfer rfl rfl
        clock := hok.2 }
  | tick =>
      have ht := Timer.State.step_valid s.timers (.tick s.now) h.timers hok
      exact { h with
        timers := ht
        fits := fun task hmem conn hcb => (h.fits task hmem conn hcb).transfer rfl rfl
        called := nofun
        stored := h.stored }
  | next drained =>
      obtain ⟨now, hphase⟩ := hok
      exact next_valid h hphase drained
  | ret =>
      obtain ⟨now, cur, hphase⟩ := hok
      exact ret_valid h hphase

def Reachable (s : Loop) : Prop :=
  ∃ start events, InTime start ∧ Admissible step Allowed (init start) events ∧
    s = run step (init start) events

theorem Reachable.valid (h : s.Reachable) : Valid s := by
  obtain ⟨start, events, hstart, hrun, rfl⟩ := h
  exact run_invariant step_valid (init_valid hstart) hrun

/-- A timer closes only connections that were idle for their whole time to live, and when `tick`
is through, every connection that has a time to live was active within it. -/
theorem idle_closed (h : s.Reachable) :
    (∀ idle ∈ s.expired, idle.lastActive + idle.ttlMs ≤ idle.now) ∧
    ∀ now drained, s.timers.phase = .ticking now →
      (s.step (.next drained)).timers.phase = .outside →
      ∀ conn, (s.conns conn).state = .connected → 0 < (s.conns conn).ttlMs →
        now < s.active conn + (s.conns conn).ttlMs := by
  have hvalid := h.valid
  refine ⟨hvalid.expired, ?_⟩
  intro now drained hphase hend conn hconn hms
  obtain ⟨-, hlate⟩ | ⟨cur, rest, -, -, -, hcalling, -, hstep⟩ :=
    next_cases hvalid.toSound hphase drained
  · have hid := hvalid.armed conn hconn hms
    obtain ⟨task, hmem, hcb⟩ := hvalid.stored conn (by simp [hconn]) hid
    exact (hvalid.fits task hmem conn hcb).expire ▸ hlate task hmem
  · rw [hstep] at hend
    simp [callback_phase, hcalling] at hend

/-- Of two connections one is active in time. -/
def twoIdle : List Event :=
  [.setTtl 0 100, .setTtl 1 100, .advance 60, .active 1, .advance 120, .tick, .next true, .ret]

theorem twoIdle_admissible : Admissible step Allowed (init 0) twoIdle := by
  refine ⟨⟨trivial, by decide⟩, ⟨trivial, by decide⟩, ?_, trivial, ?_, rfl, ⟨120, rfl⟩,
    ⟨120, _, rfl⟩, trivial⟩
  · exact ⟨Int.le_of_lt (show (0 : Int) < 60 by decide), by decide, by decide⟩
  · exact ⟨Int.le_of_lt (show (60 : Int) < 120 by decide), by decide, by decide⟩

theorem idle_closed_two :
    (∃ idle ∈ (run step (init 0) twoIdle).expired, idle.conn = 0 ∧
      idle.lastActive + idle.ttlMs ≤ idle.now) ∧
    120 < (run step (init 0) twoIdle).active 1 + ((run step (init 0) twoIdle).conns 1).ttlMs := by
  have hreach : (run step (init 0) twoIdle).Reachable :=
    ⟨0, twoIdle, ⟨le_rfl, by decide⟩, twoIdle_admissible, rfl⟩
  obtain ⟨hexpired, hlate⟩ := idle_closed hreach
  have hmem : ⟨0, 0, 100, 120⟩ ∈ (run step (init 0) twoIdle).expired := by decide
  exact ⟨⟨_, hmem, rfl, hexpired _ hmem⟩, hlate 120 true rfl rfl 1 (by decide) (by decide)⟩

def Kept (s : Loop) (e : Event) : Prop :=
  s.Allowed e ∧
    match e with
    | .setTtl conn _ => (s.conns conn).state ≠ .closed
    | _ => True

/-- A closed connection has no timer, which would keep it in memory. -/
def Untimed (s : Loop) : Prop :=
  ∀ conn, (s.conns conn).state = .closed → (s.conns conn).ttlTimerId = 0

private theorem rearm_untimed (h : Untimed s) (hopen : (s.conns conn).state ≠ .closed) (ms : Int) :
    Untimed (s.rearm conn ms) := by
  intro other
  obtain rfl | hne := eq_or_ne other conn
  · simp [rearm, hopen]
  · simpa [rearm, hne] using h other

private theorem handleClose_untimed (h : Untimed s) (conn : ConnId) (isForced drained : Bool) :
    Untimed (s.handleClose conn isForced drained) := by
  obtain hclosed | hopen := eq_or_ne (s.conns conn).state .closed
  · simpa [handleClose, hclosed] using h
  · rw [handleClose_eq hopen]
    intro other
    obtain rfl | hne := eq_or_ne other conn
    · simp [release]
    · simpa [release, hne] using h other

private theorem step_untimed (s : Loop) (e : Event) (h : Untimed s) (hok : s.Kept e) :
    Untimed (s.step e) := by
  cases e with
  | setTtl conn ms =>
      obtain hms | hms := Int.lt_or_le 0 ms
      · simp only [step, hms, if_true, setTtl_eq]
        exact rearm_untimed h hok.2 ms
      · simpa [step, setTtl, hms, Int.not_lt.mpr hms] using h
  | active conn =>
      obtain hzero | hid := Nat.eq_zero_or_pos (s.conns conn).ttlTimerId
      · simpa [step, updateTtlTimer, hzero, touch, Untimed] using h
      · simp only [step, updateTtlTimer_eq hid]
        exact rearm_untimed h (fun hclosed => Nat.ne_of_gt hid (h conn hclosed)) _
  | close conn drained => exact handleClose_untimed h conn false drained
  | terminate conn => exact handleClose_untimed h conn true false
  | runAfter timeout => exact h
  | runEvery interval => exact h
  | cancel id => exact h
  | advance now => exact h
  | tick => exact h
  | next drained =>
      simp only [step]
      split
      case h_1 now cur _ =>
        cases cur.timerCb with
        | ttl conn =>
            refine handleClose_untimed ?_ conn false drained
            exact h
        | user => exact h
      case h_2 => exact h
  | ret => exact h

private theorem kept_invariant {start : Int} {events : List Event} (hstart : InTime start)
    (hrun : Admissible step Kept (init start) events) :
    Valid (run step (init start) events) ∧ Untimed (run step (init start) events) := by
  have hstep : ∀ (s : Loop) (e : Event), Valid s ∧ Untimed s → Kept s e →
      Valid (s.step e) ∧ Untimed (s.step e) := fun s e h hok =>
    ⟨step_valid s e h.1 hok.1, step_untimed s e h.2 hok⟩
  have hinit : Valid (init start) ∧ Untimed (init start) := ⟨init_valid hstart, nofun⟩
  exact run_invariant hstep hinit hrun

theorem Sound.countP_le_one (h : Sound s) (conn : ConnId) :
    (s.timers.timer.timerSet.countP fun task => task.timerCb = .ttl conn) ≤ 1 := by
  calc (s.timers.timer.timerSet.countP fun task => task.timerCb = .ttl conn)
      ≤ s.timers.timer.timerSet.countP fun task => task.id = (s.conns conn).ttlTimerId := by
        apply List.countP_mono_left
        intro task hmem hcb
        simpa using (h.fits task hmem conn (by simpa using hcb)).id
    _ = (s.timers.timer.timerSet.map TimerTask.id).count (s.conns conn).ttlTimerId := by
        simp [List.count, List.countP_map, Function.comp_def, beq_eq_decide]
    _ ≤ 1 := List.nodup_iff_count_le_one.mp h.timers.consistent.unique _

/-- While a connection has the id of a timer, the loop has exactly one timer of it, and else none;
a closed connection has none. -/
theorem closed_untimed {start : Int} {events : List Event} (hstart : InTime start)
    (hrun : Admissible step Kept (init start) events) (conn : ConnId) :
    let s := run step (init start) events
    (s.timers.timer.timerSet.countP fun task => task.timerCb = .ttl conn) =
        (if (s.conns conn).ttlTimerId = 0 then 0 else 1) ∧
      ((s.conns conn).state = .closed → (s.conns conn).ttlTimerId = 0) := by
  intro s
  obtain ⟨hvalid, huntimed⟩ := kept_invariant hstart hrun
  refine ⟨?_, huntimed conn⟩
  split
  case isTrue hzero =>
    apply List.countP_eq_zero.mpr
    intro task hmem hcb
    have hfits := hvalid.fits task hmem conn (by simpa using hcb)
    exact hvalid.timers.nonzero (hzero ▸ hfits.id ▸ hvalid.timers.stored task hmem)
  case isFalse hid =>
    have hopen : (s.conns conn).state ≠ .closed := fun hclosed => hid (huntimed conn hclosed)
    obtain ⟨task, hmem, hcb⟩ := hvalid.stored conn hopen (Nat.pos_of_ne_zero hid)
    have hpos : 0 < s.timers.timer.timerSet.countP fun task => task.timerCb = .ttl conn :=
      List.countP_pos_iff.mpr ⟨task, hmem, by simpa using hcb⟩
    exact Nat.le_antisymm (hvalid.toSound.countP_le_one conn) hpos

private theorem twoIdle_kept : Admissible step Kept (init 0) twoIdle := by
  obtain ⟨hfirst, hsecond, hadvance, hactive, hlater, htick, hnext, hret, -⟩ := twoIdle_admissible
  exact ⟨⟨hfirst, nofun⟩, ⟨hsecond, nofun⟩, ⟨hadvance, trivial⟩, ⟨hactive, trivial⟩,
    ⟨hlater, trivial⟩, ⟨htick, trivial⟩, ⟨hnext, trivial⟩, ⟨hret, trivial⟩, trivial⟩

theorem closed_untimed_two :
    let s := run step (init 0) twoIdle
    (s.conns 0).state = .closed ∧ (s.conns 0).ttlTimerId = 0 ∧
      (s.timers.timer.timerSet.countP fun task => task.timerCb = .ttl 1) = 1 := by
  have hclosed := closed_untimed ⟨le_rfl, by decide⟩ twoIdle_kept 0
  have hopen := closed_untimed ⟨le_rfl, by decide⟩ twoIdle_kept 1
  exact ⟨by decide, hclosed.2 (by decide), hopen.1.trans (by decide)⟩

/-- A closed connection that is given a time to live has a timer all the same. -/
example :
    let s := run step (init 0) [.close 0 true, .setTtl 0 100]
    (s.conns 0).state = .closed ∧ (s.conns 0).ttlTimerId = 1 := by
  decide

/-- A connection that is closed with data left to be sent has no timer any more. -/
example :
    let s := run step (init 0) [.setTtl 0 100, .close 0 false, .active 0]
    (s.conns 0).state = .closing ∧ (s.conns 0).ttlTimerId = 0 := by
  decide

end Angel.Ttl.Loop
