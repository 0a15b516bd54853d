import Angel.Timer.Store

/-!
Runs of a timer: the calls made on it from outside and from the callbacks of
`tick`, in any order. In every state of every run the two containers are in step,
and a cancelled id stays silent unless the cancel comes from the callback of that
very interval timer.
-/

namespace Angel.Timer.State

open Lib

variable {κ : Type} {s : State κ} {id : Nat} {now : Int} {cur : TimerTask κ}

/-- What holds between two events of a run: the store is consistent, the ids it
holds have been added, and a task is in no container while its callback runs. -/
structure Valid (s : State κ) : Prop where
  consistent : s.timer.Consistent
  stored : ∀ task ∈ s.timer.timerSet, task.id ∈ s.added
  nonzero : 0 ∉ s.added
  detached : ∀ now cur, s.phase = .calling now cur →
    cur.id ∈ s.added ∧ ∀ task ∈ s.timer.timerSet, task.id ≠ cur.id
  defined : s.phase ≠ .undefined

theorem init_valid : (init : State κ).Valid where
  consistent := init_consistent
  stored := by simp [init, Timer.init]
  nonzero := by simp [init]
  detached := by simp [init]
  defined := by simp [init]

theorem step_next_cases (h : s.Valid) (hphase : s.phase = .ticking now) :
    (s.step .next = { s with phase := .outside } ∧
      ∀ task ∈ s.timer.timerSet, now < task.expire) ∨
    ∃ cur rest, s.timer.timerSet = cur :: rest ∧ cur.expire ≤ now ∧
      s.step .next = { s with
        timer := ⟨rest, Function.update s.timer.timerMap cur.id none⟩
        phase := .calling now cur
        invoked := s.invoked ++ [cur] } := by
  rcases detach_cases now h.consistent with ⟨hdone, hlate⟩ | ⟨cur, rest, hset, hdue, hcall⟩
  · exact .inl ⟨by simp [step, hphase, hdone], hlate⟩
  · exact .inr ⟨cur, rest, hset, hdue, by simp [step, hphase, hcall]⟩

theorem step_ret_eq (hphase : s.phase = .calling now cur) :
    s.step .ret = { s with timer := s.timer.renew cur, phase := .ticking now } := by
  simp [step, hphase]

theorem renew_mem {t : Timer κ} {task : TimerTask κ} (hmem : task ∈ (t.renew cur).timerSet) :
    task ∈ t.timerSet ∨ 0 < cur.interval ∧ task.id = cur.id := by
  unfold renew at hmem
  split at hmem
  case isTrue hinterval =>
    rcases mem_addTimerInLoop.mp hmem with rfl | hin
    · exact .inr ⟨hinterval, rfl⟩
    · exact .inl hin
  case isFalse => exact .inl hmem

private theorem renew_consistent {t : Timer κ} (h : t.Consistent)
    (hfresh : ∀ task ∈ t.timerSet, task.id ≠ cur.id) : (t.renew cur).Consistent := by
  unfold renew
  split
  · exact addTimerInLoop_consistent h hfresh
  · exact h

theorem mem_cancelTimer {t : Timer κ} {task : TimerTask κ} (h : t.Consistent)
    (hmem : task ∈ (t.cancelTimer id).timerSet) : task ∈ t.timerSet := by
  unfold cancelTimer at hmem
  split at hmem
  · exact hmem
  · exact ((mem_cancelTimerInLoop h).mp hmem).1

theorem step_valid (s : State κ) (e : Event κ) (h : s.Valid) (hok : s.Allowed e) :
    (s.step e).Valid := by
  cases e with
  | add task =>
      obtain ⟨-, hfresh, hzero⟩ := hok
      have hids : ∀ old ∈ s.timer.timerSet, old.id ≠ task.id := by
        rintro old hold heq
        exact hfresh (heq ▸ h.stored old hold)
      refine ⟨addTimerInLoop_consistent h.consistent hids, ?_, ?_, ?_, h.defined⟩
      · intro new hnew
        rcases mem_addTimerInLoop.mp hnew with rfl | hold
        · exact List.mem_cons_self
        · exact List.mem_cons_of_mem _ (h.stored new hold)
      · simp only [step, List.mem_cons, not_or]
        exact ⟨hzero.symm, h.nonzero⟩
      · intro now cur hphase
        obtain ⟨hadded, hout⟩ := h.detached now cur hphase
        refine ⟨List.mem_cons_of_mem _ hadded, ?_⟩
        intro new hnew
        rcases mem_addTimerInLoop.mp hnew with rfl | hold
        · rintro heq
          exact hfresh (heq ▸ hadded)
        · exact hout new hold
  | cancel id =>
      refine ⟨cancelTimer_consistent h.consistent id, ?_, h.nonzero, ?_, h.defined⟩
      · intro task hmem
        exact h.stored task (mem_cancelTimer h.consistent hmem)
      · intro now cur hphase
        obtain ⟨hadded, hout⟩ := h.detached now cur hphase
        refine ⟨hadded, ?_⟩
        intro task hmem
        exact hout task (mem_cancelTimer h.consistent hmem)
  | tick now => exact ⟨h.consistent, h.stored, h.nonzero, by simp [step], by simp [step]⟩
  | next =>
      obtain ⟨now, hphase⟩ := hok
      rcases step_next_cases h hphase with ⟨hstep, -⟩ | ⟨cur, rest, hset, -, hstep⟩
      · rw [hstep]
        exact ⟨h.consistent, h.stored, h.nonzero, by simp, by simp⟩
      · have hgone := erase_consistent [] h.consistent hset
        have hunique := h.consistent.unique
        simp only [hset, List.map_cons, List.nodup_cons, List.mem_map, not_exists, not_and]
          at hunique
        rw [hstep]
        refine ⟨hgone, ?_, h.nonzero, ?_, by simp⟩
        · intro task hmem
          exact h.stored task (by simp [hset, hmem])
        · intro now' cur' hcall
          simp only [Phase.calling.injEq] at hcall
          obtain ⟨-, rfl⟩ := hcall
          exact ⟨h.stored cur (by simp [hset]), hunique.1⟩
  | ret =>
      obtain ⟨now, cur, hphase⟩ := hok
      obtain ⟨hadded, hout⟩ := h.detached now cur hphase
      rw [step_ret_eq hphase]
      refine ⟨renew_consistent h.consistent hout, ?_, h.nonzero, by simp, by simp⟩
      intro task hmem
      rcases renew_mem hmem with hold | ⟨-, hid⟩
      · exact h.stored task hold
      · exact hid ▸ hadded

def Reachable (s : State κ) : Prop :=
  ∃ events, Admissible step Allowed init events ∧ s = run step init events

theorem Reachable.valid (h : s.Reachable) : s.Valid := by
  obtain ⟨events, hrun, rfl⟩ := h
  exact run_invariant step_valid init_valid hrun

/-- In every state of every run the set and the map hold the same tasks, each id
once and in the order of expiry, and a cancel of a stored id removes its task from
both and no other. -/
theorem store_consistent (hs : s.Reachable) :
    s.timer.Consistent ∧
    ∀ id task, s.timer.timerMap id = some task →
      ∃ front back, s.timer.timerSet = front ++ task :: back ∧
        s.timer.cancelTimerInLoop id =
          ⟨front ++ back, Function.update s.timer.timerMap id none⟩ := by
  have hconsistent := hs.valid.consistent
  exact ⟨hconsistent, fun id task hstored => cancelTimerInLoop_stored hconsistent hstored⟩

/-- Two one-shot timers of one expiry, the first of which cancels the second from
its callback. -/
def sharedExpiry : List (Event Unit) :=
  [.add ⟨1, 10, 0, ()⟩, .add ⟨2, 10, 0, ()⟩, .tick 12, .next]

theorem sharedExpiry_reachable : (run step init sharedExpiry).Reachable := by
  refine ⟨sharedExpiry, ?_, rfl⟩
  simp [sharedExpiry, Admissible, Allowed, Callable, step, init]

theorem store_consistent_shared :
    (run step init sharedExpiry).timer.timerMap 2 = some ⟨2, 10, 0, ()⟩ ∧
    ∃ front back, (run step init sharedExpiry).timer.timerSet = front ++ ⟨2, 10, 0, ()⟩ :: back ∧
      ((run step init sharedExpiry).timer.cancelTimerInLoop 2).timerSet = front ++ back := by
  have hstored : (run step init sharedExpiry).timer.timerMap 2 = some ⟨2, 10, 0, ()⟩ := rfl
  obtain ⟨-, hcancel⟩ := store_consistent sharedExpiry_reachable
  obtain ⟨front, back, hset, heq⟩ := hcancel 2 _ hstored
  exact ⟨hstored, front, back, hset, congrArg Timer.timerSet heq⟩

/-- The callback of an id is not invoked any more, whatever follows. -/
def Silent (s : State κ) (id : Nat) : Prop :=
  ∀ later, Admissible step Allowed s later → (run step s later).calls id = s.calls id

/-- The loop thread is in the callback of the interval timer of this id. -/
def InOwnCallback (s : State κ) (id : Nat) : Prop :=
  match s.phase with
  | .calling _ cur => cur.id = id ∧ 0 < cur.interval
  | _ => False

/-- Nothing can bring the callback of an id back: the id is used up, no stored task
has it, and no task that has it is renewed. -/
structure Quiet (id : Nat) (s : State κ) : Prop where
  valid : s.Valid
  used : id = 0 ∨ id ∈ s.added
  absent : ∀ task ∈ s.timer.timerSet, task.id ≠ id
  last : ∀ now cur, s.phase = .calling now cur → cur.id = id → ¬ 0 < cur.interval

theorem step_quiet (e : Event κ) (h : s.Quiet id) (hok : s.Allowed e) :
    (s.step e).Quiet id ∧ (s.step e).calls id = s.calls id := by
  have hvalid := step_valid s e h.valid hok
  cases e with
  | add task =>
      obtain ⟨-, hfresh, hzero⟩ := hok
      have hne : task.id ≠ id := by
        rintro rfl
        exact h.used.elim hzero hfresh
      refine ⟨⟨hvalid, h.used.imp_right (List.mem_cons_of_mem _), ?_, h.last⟩, rfl⟩
      intro new hnew
      rcases mem_addTimerInLoop.mp hnew with rfl | hold
      · exact hne
      · exact h.absent new hold
  | cancel other =>
      refine ⟨⟨hvalid, h.used, ?_, h.last⟩, rfl⟩
      intro task hmem
      exact h.absent task (mem_cancelTimer h.valid.consistent hmem)
  | tick now => exact ⟨⟨hvalid, h.used, h.absent, by simp [step]⟩, rfl⟩
  | next =>
      obtain ⟨now, hphase⟩ := hok
      rcases step_next_cases h.valid hphase with ⟨hstep, -⟩ | ⟨cur, rest, hset, -, hstep⟩
      · rw [hstep] at hvalid ⊢
        exact ⟨⟨hvalid, h.used, h.absent, by simp⟩, rfl⟩
      · have hne : cur.id ≠ id := h.absent cur (by simp [hset])
        rw [hstep] at hvalid ⊢
        refine ⟨⟨hvalid, h.used, ?_, ?_⟩, ?_⟩
        · intro task hmem
          exact h.absent task (by simp [hset, hmem])
        · intro now' cur' hcall
          simp only [Phase.calling.injEq] at hcall
          obtain ⟨-, rfl⟩ := hcall
          exact fun heq => absurd heq hne
        · simp [calls, hne]
  | ret =>
      obtain ⟨now, cur, hphase⟩ := hok
      rw [step_ret_eq hphase] at hvalid ⊢
      refine ⟨⟨hvalid, h.used, ?_, by simp⟩, rfl⟩
      intro task hmem
      rcases renew_mem hmem with hold | ⟨hinterval, hid⟩
      · exact h.absent task hold
      · rintro rfl
        exact h.last now cur hphase hid.symm hinterval

theorem Quiet.silent (h : s.Quiet id) : s.Silent id := by
  intro later hlater
  have hstep : ∀ (s' : State κ) (e : Event κ), s'.Quiet id ∧ s'.calls id = s.calls id →
      s'.Allowed e → (s'.step e).Quiet id ∧ (s'.step e).calls id = s.calls id := by
    rintro s' e ⟨hquiet, hsame⟩ hok
    obtain ⟨hquiet', hcalls⟩ := step_quiet e hquiet hok
    exact ⟨hquiet', hcalls.trans hsame⟩
  exact (run_invariant hstep ⟨h, rfl⟩ hlater).2

theorem cancel_quiet (h : s.Valid) (hok : s.Allowed (.cancel id))
    (hused : id = 0 ∨ id ∈ s.added) (hown : ¬ s.InOwnCallback id) :
    (s.step (.cancel id)).Quiet id := by
  refine ⟨step_valid s _ h hok, hused, ?_, ?_⟩
  · intro task hmem
    by_cases hid : id = 0
    · have hstored := h.stored task (mem_cancelTimer h.consistent hmem)
      rintro rfl
      exact h.nonzero (hid ▸ hstored)
    · simp only [step, cancelTimer, hid, if_false] at hmem
      exact ((mem_cancelTimerInLoop h.consistent).mp hmem).2
  · intro now cur hphase hid hinterval
    refine hown ?_
    have : s.phase = .calling now cur := hphase
    simp [InOwnCallback, this, hid, hinterval]

theorem Silent.later {first : List (Event κ)} (h : s.Silent id)
    (hfirst : Admissible step Allowed s first) : (run step s first).Silent id := by
  intro later hlater
  have hall := h (first ++ later) (admissible_append.mpr ⟨hfirst, hlater⟩)
  rw [run_append] at hall
  exact hall.trans (h first hfirst).symm

theorem due_not_silent {rest : List (TimerTask κ)} (h : s.Valid) (hphase : s.phase = .ticking now)
    (hset : s.timer.timerSet = cur :: rest) (hdue : cur.expire ≤ now) : ¬ s.Silent cur.id := by
  intro hsilent
  have hsame := hsilent [.next] ⟨⟨now, hphase⟩, trivial⟩
  rw [run_cons, run_nil] at hsame
  rcases step_next_cases h hphase with ⟨-, hlate⟩ | ⟨first, rest', hset', -, hstep⟩
  · exact absurd (hlate cur (by simp [hset])) (Int.not_lt.mpr hdue)
  · rw [hset] at hset'
    obtain ⟨rfl, -⟩ := List.cons.inj hset'
    simp [hstep, calls] at hsame

/-- A task that is alone in the store is invoked, in this tick or in one to come. -/
theorem alone_not_silent (h : s.Valid) (hphase : s.phase = .ticking now)
    (hset : s.timer.timerSet = [cur]) : ¬ s.Silent cur.id := by
  intro hsilent
  by_cases hdue : cur.expire ≤ now
  · exact due_not_silent h hphase hset hdue hsilent
  · have hdone : s.step .next = { s with phase := .outside } := by
      rcases step_next_cases h hphase with ⟨hstep, -⟩ | ⟨first, rest, hset', hfirst, -⟩
      · exact hstep
      · rw [hset] at hset'
        obtain ⟨rfl, -⟩ := List.cons.inj hset'
        exact absurd hfirst hdue
    have hok : Admissible step Allowed s [.next, .tick cur.expire] := by
      refine ⟨⟨now, hphase⟩, ?_, trivial⟩
      rw [hdone]
      rfl
    have hvalid := run_invariant step_valid h hok
    have hlater := hsilent.later hok
    simp only [run_cons, run_nil, hdone] at hvalid hlater
    exact due_not_silent hvalid rfl hset (Int.le_refl cur.expire) hlater

theorem exists_before (bound : Int) (ts : List (TimerTask κ)) :
    ∃ expire ≤ bound, ∀ task ∈ ts, expire < task.expire := by
  induction ts with
  | nil => exact ⟨bound, Int.le_refl bound, by simp⟩
  | cons t ts ih =>
      obtain ⟨expire, hbound, hbefore⟩ := ih
      refine ⟨min expire (t.expire - 1), by omega, ?_⟩
      intro task hmem
      rcases List.mem_cons.mp hmem with rfl | hin
      · omega
      · have := hbefore task hin
        omega

private theorem emplaceSet_first {task : TimerTask κ} {ts : List (TimerTask κ)}
    (h : ∀ t ∈ ts, task.expire < t.expire) : emplaceSet task ts = task :: ts := by
  cases ts with
  | nil => rfl
  | cons t ts => simp [emplaceSet, h t List.mem_cons_self]

private theorem renew_first {t : Timer κ} {first : TimerTask κ} {ts : List (TimerTask κ)}
    (hset : t.timerSet = first :: ts) (h : first.expire ≤ int64 (cur.expire + cur.interval)) :
    ∃ rest, (t.renew cur).timerSet = first :: rest := by
  unfold renew
  split
  · simp [addTimerInLoop, hset, emplaceSet, Int.not_lt.mpr h]
  · exact ⟨ts, hset⟩

/-- A timer that is added after the cancel of its id is invoked: it may expire
before all others. -/
theorem unused_not_silent [Inhabited κ] (h : s.Valid) (hcallable : s.Callable) (hzero : id ≠ 0)
    (hunused : id ∉ s.added) : ¬ s.Silent id := by
  intro hsilent
  cases hphase : s.phase with
  | outside =>
      obtain ⟨expire, -, hbefore⟩ := exists_before 0 s.timer.timerSet
      set task : TimerTask κ := ⟨id, expire, 0, default⟩ with htask
      have hok : Admissible step Allowed s [.add task, .tick expire] :=
        ⟨⟨hcallable, hunused, hzero⟩, hphase, trivial⟩
      exact due_not_silent (run_invariant step_valid h hok) rfl (emplaceSet_first hbefore)
        (Int.le_refl expire) (hsilent.later hok)
  | calling now cur =>
      obtain ⟨expire, hbound, hbefore⟩ :=
        exists_before (min now (int64 (cur.expire + cur.interval))) s.timer.timerSet
      set task : TimerTask κ := ⟨id, expire, 0, default⟩ with htask
      have hcalling : (s.step (.add task)).phase = .calling now cur := hphase
      have hok : Admissible step Allowed s [.add task, .ret] :=
        ⟨⟨hcallable, hunused, hzero⟩, ⟨now, cur, hcalling⟩, trivial⟩
      have hend : run step s [.add task, .ret] =
          { s.step (.add task) with
            timer := (s.step (.add task)).timer.renew cur
            phase := .ticking now } := step_ret_eq hcalling
      -- the renewed timer goes behind the new one
      obtain ⟨rest, hset⟩ : ∃ rest, ((s.step (.add task)).timer.renew cur).timerSet = task :: rest :=
        renew_first (emplaceSet_first hbefore)
          (show expire ≤ int64 (cur.expire + cur.interval) by omega)
      have hdue : expire ≤ now := by omega
      have hvalid := run_invariant step_valid h hok
      have hlater := hsilent.later hok
      rw [hend] at hvalid hlater
      exact due_not_silent hvalid rfl hset hdue hlater
  | ticking now => simp [Callable, hphase] at hcallable
  | undefined => simp [Callable, hphase] at hcallable

/-- Cancels made in a callback leave the tasks of the other ids, and the callback
where it is. -/
theorem run_cancels (ids : List Nat) (h : s.Valid) (hzero : 0 ∉ ids)
    (hphase : s.phase = .calling now cur) :
    Admissible step Allowed s (ids.map .cancel) ∧
    ∃ timer, run step s (ids.map .cancel) = { s with timer := timer } ∧
      ∀ task ∈ timer.timerSet, task ∈ s.timer.timerSet ∧ task.id ∉ ids := by
  induction ids generalizing s with
  | nil => exact ⟨trivial, s.timer, rfl, by simp⟩
  | cons id ids ih =>
      simp only [List.mem_cons, not_or] at hzero
      have hok : s.Allowed (.cancel id) := by simp [Allowed, Callable, hphase]
      obtain ⟨hrun, timer, hend, hleft⟩ := ih (step_valid s _ h hok) hzero.2 hphase
      refine ⟨⟨hok, hrun⟩, timer, hend, ?_⟩
      intro task hmem
      obtain ⟨hin, hids⟩ := hleft task hmem
      simp only [step, cancelTimer, Ne.symm hzero.1, if_false] at hin
      obtain ⟨hin, hne⟩ := (mem_cancelTimerInLoop h.consistent).mp hin
      refine ⟨hin, ?_⟩
      simp only [List.mem_cons, not_or]
      exact ⟨hne, hids⟩

/-- From the callback of an interval timer a run leads to a state in which this
timer is the only one. -/
theorem exists_renewed (h : s.Valid) (hphase : s.phase = .calling now cur)
    (hinterval : 0 < cur.interval) :
    ∃ first, Admissible step Allowed s first ∧ (run step s first).phase = .ticking now ∧
      (run step s first).timer.timerSet =
        [{ cur with expire := int64 (cur.expire + cur.interval) }] := by
  set ids := s.timer.timerSet.map TimerTask.id with hids
  have hzero : 0 ∉ ids := by
    intro hmem
    obtain ⟨task, htask, hid⟩ := List.mem_map.mp hmem
    exact h.nonzero (hid ▸ h.stored task htask)
  obtain ⟨hcancels, timer, hend, hleft⟩ := run_cancels ids h hzero hphase
  have hempty : timer.timerSet = [] := by
    apply List.eq_nil_iff_forall_not_mem.mpr
    intro task hmem
    obtain ⟨hin, hout⟩ := hleft task hmem
    exact hout (List.mem_map_of_mem hin)
  have hret : run step s (ids.map .cancel ++ [.ret]) =
      { s with timer := timer.renew cur, phase := .ticking now } := by
    rw [run_append, hend]
    exact step_ret_eq hphase
  refine ⟨ids.map .cancel ++ [.ret], admissible_append.mpr ⟨hcancels, ?_, trivial⟩, ?_, ?_⟩
  · rw [hend]
    exact ⟨now, cur, hphase⟩
  · rw [hret]
  · rw [hret]
    simp [renew, hinterval, addTimerInLoop, hempty, emplaceSet]

private theorem ownCallback_not_silent (h : s.Valid) (hown : s.InOwnCallback id) :
    ¬ s.Silent id := by
  intro hsilent
  cases hphase : s.phase with
  | calling now cur =>
      simp only [InOwnCallback, hphase] at hown
      obtain ⟨rfl, hinterval⟩ := hown
      obtain ⟨first, hfirst, hticking, hset⟩ := exists_renewed h hphase hinterval
      exact alone_not_silent (run_invariant step_valid h hfirst) hticking hset
        (hsilent.later hfirst)
  | outside => simp [InOwnCallback, hphase] at hown
  | ticking now => simp [InOwnCallback, hphase] at hown
  | undefined => simp [InOwnCallback, hphase] at hown

/-- A cancel silences its id exactly when the id has been added before (or is 0,
which no timer has) and the cancel is not made in the callback of the interval
timer of that id. -/
theorem cancel_silent_iff [Inhabited κ] (hs : s.Reachable) (hok : s.Allowed (.cancel id)) :
    (s.step (.cancel id)).Silent id ↔ (id = 0 ∨ id ∈ s.added) ∧ ¬ s.InOwnCallback id := by
  have hvalid := hs.valid
  have hvalid' := step_valid s _ hvalid hok
  constructor
  · intro hsilent
    constructor
    · by_contra hunused
      rw [not_or] at hunused
      exact unused_not_silent hvalid' hok hunused.1 hunused.2 hsilent
    · intro hown
      exact ownCallback_not_silent hvalid' hown hsilent
  · rintro ⟨hused, hown⟩
    exact (cancel_quiet hvalid hok hused hown).silent

/-- A periodic timer in its first callback. -/
def ownPeriod : List (Event Unit) := [.add ⟨1, 10, 5, ()⟩, .tick 12, .next]

private theorem ownPeriod_reachable : (run step init ownPeriod).Reachable := by
  refine ⟨ownPeriod, ?_, rfl⟩
  simp [ownPeriod, Admissible, Allowed, Callable, step, init, Timer.init, addTimerInLoop, emplaceSet,
    emplaceMap]

/-- In the callback of another timer of the same expiry the cancel does its work. -/
theorem cancel_silent_shared : ((run step init sharedExpiry).step (.cancel 2)).Silent 2 :=
  (cancel_silent_iff sharedExpiry_reachable trivial).mpr
    ⟨.inr (by decide), by simp [InOwnCallback, sharedExpiry, run, step, init, Timer.init,
      addTimerInLoop, emplaceSet, emplaceMap, detach]⟩

/-- A periodic timer that cancels itself in its callback is invoked again, by the
tick of its next period. -/
theorem cancel_in_callback_not_silent :
    (run step init ownPeriod).Reachable ∧ (run step init ownPeriod).Allowed (.cancel 1) ∧
    1 ∈ (run step init ownPeriod).added ∧
    ¬ ((run step init ownPeriod).step (.cancel 1)).Silent 1 := by
  refine ⟨ownPeriod_reachable, trivial, by decide, ?_⟩
  intro hsilent
  have hsame := hsilent [.ret, .next, .tick 15, .next]
    ⟨⟨12, _, rfl⟩, ⟨12, rfl⟩, rfl, ⟨15, rfl⟩, trivial⟩
  exact absurd hsame (by decide)

end Angel.Timer.State
