import Angel.Timer.Runs

/-!
The passes of the loop in `evloop::run` and the timers: `tick` is called when the wait
reports no event, and only then. A timer that is due when a pass begins has its callback
invoked in that pass or, while there are events in each, in none.
-/

namespace Angel.Timer

open Lib

variable {κ : Type}

namespace Loop

/-- Where the thread is in the body of the loop. -/
inductive Place where
  | top
  /-- at `dispatcher->wait` -/
  | waiting
  /-- over the active channels -/
  | handling
  | ticking
  /-- in `do_functors` -/
  | functors
  deriving DecidableEq, Repr

/-- The loop thread with its timer and what has happened in this pass of the loop: the tasks that were due
when it began with the calls of their callbacks until then, what `wait` has
returned, the clock reading of `tick`, and the tasks that a cancel has removed, also with the
calls until then. -/
structure Thread (κ : Type) where
  place : Place
  timer : State κ
  due : List (TimerTask κ × Nat)
  nevents : Int
  now : Int
  cancelled : List (TimerTask κ × Nat)

inductive Event (κ : Type) where
  /-- a pass begins with `timeout` at a clock reading -/
  | timeout (clock : Int)
  /-- `wait` returns; `now` is the next clock reading -/
  | wait (nevents : Int) (now : Int)
  /-- a call on the timer by a handler, a functor or a callback, or a step of
  `tick` -/
  | timer (e : Timer.Event κ)
  /-- all active channels have been handled -/
  | handled
  /-- `tick` returns -/
  | ticked
  | done

def init : Thread κ where
  place := .top
  timer := State.init
  due := []
  nevents := 0
  now := 0
  cancelled := []

/-- The tasks that are due at `clock`, with the calls of their ids so far. -/
def dueAt (clock : Int) (s : State κ) : List (TimerTask κ × Nat) :=
  (s.timer.timerSet.filter fun task => task.expire ≤ clock).map fun task => (task, s.calls task.id)

/-- The tasks that the event takes out of the store for good, with the calls of their ids so
far. -/
def removed (s : State κ) : Timer.Event κ → List (TimerTask κ × Nat)
  | .cancel id =>
      (s.timer.timerSet.filter fun task => task.id = id).map fun task => (task, s.calls task.id)
  | _ => []

def step (s : Thread κ) : Event κ → Thread κ
  | .timeout clock =>
      { s with place := .waiting, due := dueAt clock s.timer, cancelled := [] }
  | .wait nevents now =>
      if nevents > 0 then { s with place := .handling, nevents := nevents, now := now }
      else if nevents = 0 then
        { s with place := .ticking, timer := s.timer.step (.tick now), nevents := nevents, now := now }
      else { s with place := .functors, nevents := nevents, now := now }
  | .timer e =>
      { s with timer := s.timer.step e, cancelled := removed s.timer e ++ s.cancelled }
  | .handled => { s with place := .functors }
  | .ticked => { s with place := .functors }
  | .done => { s with place := .top }

/-- The calls that user code makes on the timer. -/
def IsCall : Timer.Event κ → Prop
  | .add _ => True
  | .cancel _ => True
  | _ => False

/-- When an event can happen. Other threads make their calls through functors. -/
def Allowed (s : Thread κ) : Event κ → Prop
  | .timeout _ => s.place = .top
  | .wait _ _ => s.place = .waiting
  | .timer e => s.timer.Allowed e ∧
      match s.place with
      | .handling => IsCall e
      | .functors => IsCall e
      | .ticking => s.timer.phase ≠ .outside
      | _ => False
  | .handled => s.place = .handling
  | .ticked => s.place = .ticking ∧ s.timer.phase = .outside
  | .done => s.place = .functors

def Reachable (s : Thread κ) : Prop :=
  ∃ events, Admissible step Allowed init events ∧ s = run step init events

/-- In this pass the callback of the task has been invoked. -/
def Invoked (s : Thread κ) (task : TimerTask κ) (calls : Nat) : Prop := calls < s.timer.calls task.id

variable {s : Thread κ} {task : TimerTask κ} {calls : Nat}

/-- What has become of a task that was due when the pass began. -/
inductive Fate (s : Thread κ) (task : TimerTask κ) (calls : Nat) : Prop where
  | stored (hmem : task ∈ s.timer.timer.timerSet) (hcalls : s.timer.calls task.id = calls)
      (hnot : (task, calls) ∉ s.cancelled)
  | called (hcalled : Invoked s task calls) (hnot : (task, calls) ∉ s.cancelled)
      (hevents : s.nevents = 0) (hdue : task.expire ≤ s.now)
  | cancelled (hquiet : s.timer.Quiet task.id) (hcalls : s.timer.calls task.id = calls)
      (hmem : (task, calls) ∈ s.cancelled)

private theorem timer_step_stored (hvalid : s.timer.Valid) (e : Timer.Event κ)
    (hok : s.timer.Allowed e)
    (htick : ∀ now, s.timer.phase = .ticking now → s.nevents = 0 ∧ now = s.now)
    (hmem : task ∈ s.timer.timer.timerSet) (hcalls : s.timer.calls task.id = calls)
    (hnot : (task, calls) ∉ s.cancelled) : Fate (step s (.timer e)) task calls := by
  cases e with
  | add new =>
      have hin : task ∈ (s.timer.timer.addTimerInLoop new).timerSet :=
        mem_addTimerInLoop.mpr (.inr hmem)
      exact .stored hin hcalls hnot
  | cancel id =>
      rcases eq_or_ne task.id id with rfl | hne
      · have hown : ¬ s.timer.InOwnCallback task.id := by
          unfold State.InOwnCallback
          split
          · rename_i now cur hphase
            rintro ⟨hid, _⟩
            exact (hvalid.detached now cur hphase).2 task hmem hid.symm
          · exact id
        have hquiet := State.cancel_quiet hvalid hok (.inr (hvalid.stored task hmem)) hown
        refine .cancelled hquiet hcalls (List.mem_append_left _ ?_)
        simpa [removed, hcalls] using hmem
      · have hzero : task.id ≠ 0 := fun hzero => hvalid.nonzero (hzero ▸ hvalid.stored task hmem)
        have hin : task ∈ (s.timer.timer.cancelTimer id).timerSet := by
          unfold cancelTimer
          split
          · exact hmem
          · exact (mem_cancelTimerInLoop hvalid.consistent).mpr ⟨hmem, hne⟩
        refine .stored hin hcalls ?_
        simp [step, removed, hne, hnot]
  | tick now => exact .stored hmem hcalls hnot
  | next =>
      obtain ⟨now, hphase⟩ := hok
      obtain ⟨hevents, hnow⟩ := htick now hphase
      rcases State.step_next_cases hvalid hphase with ⟨hstep, _⟩ | ⟨cur, rest, hset, hdue, hstep⟩
      · rw [step, hstep]
        exact .stored hmem hcalls hnot
      · have hunique := hvalid.consistent.unique
        simp only [hset, List.map_cons, List.nodup_cons, List.mem_map, not_exists, not_and]
          at hunique
        rw [hset] at hmem
        rw [step, hstep]
        rcases List.mem_cons.mp hmem with rfl | hmem
        · refine .called ?_ hnot hevents (hnow ▸ hdue)
          simp only [Invoked, State.calls, List.countP_append, List.countP_cons, List.countP_nil,
            decide_true, if_true]
          rw [State.calls] at hcalls
          omega
        · refine .stored hmem ?_ hnot
          have hne : cur.id ≠ task.id := fun hid => hunique.1 task hmem hid.symm
          simpa [State.calls, hne] using hcalls
  | ret =>
      obtain ⟨now, cur, hphase⟩ := hok
      rw [step, State.step_ret_eq hphase]
      refine .stored ?_ hcalls hnot
      simp only [renew]
      split
      · exact mem_addTimerInLoop.mpr (.inr hmem)
      · exact hmem

theorem calls_le_step (s : State κ) (e : Timer.Event κ) (id : Nat) :
    s.calls id ≤ (s.step e).calls id := by
  cases e with
  | next =>
      simp only [State.step]
      split
      · split
        · exact Nat.le_refl _
        · simp only [State.calls, List.countP_append]
          omega
        · exact Nat.le_refl _
      · exact Nat.le_refl _
  | ret =>
      simp only [State.step]
      split <;> exact Nat.le_refl _
  | _ => exact Nat.le_refl _

/-- Each step of the timer leaves the task in the store, has its callback invoked or
removes it for good. -/
theorem fate_step (hvalid : s.timer.Valid) {e : Timer.Event κ} (hok : s.timer.Allowed e)
    (htick : ∀ now, s.timer.phase = .ticking now → s.nevents = 0 ∧ now = s.now)
    (h : Fate s task calls) : Fate (step s (.timer e)) task calls := by
  cases h with
  | stored hmem hcalls hnot => exact timer_step_stored hvalid e hok htick hmem hcalls hnot
  | called hcalled hnot hevents hdue =>
      refine .called (Nat.lt_of_lt_of_le hcalled (calls_le_step s.timer e task.id)) ?_ hevents hdue
      -- a cancel now is one after the call
      have hnew : (task, calls) ∉ removed s.timer e := by
        cases e with
        | cancel id =>
            intro hmem
            obtain ⟨t, -, heq⟩ := List.mem_map.mp hmem
            obtain ⟨rfl, hcalls⟩ := Prod.mk.inj heq
            exact absurd hcalls (Nat.ne_of_gt hcalled)
        | _ => exact List.not_mem_nil
      simp only [step, List.mem_append, not_or]
      exact ⟨hnew, hnot⟩
  | cancelled hquiet hcalls hmem =>
      obtain ⟨hquiet', hsame⟩ := State.step_quiet e hquiet hok
      exact .cancelled hquiet' (hsame.trans hcalls) (List.mem_append_right _ hmem)

/-- A task that is not in the store any more does not come back in this pass. -/
def Settled (s : Thread κ) (task : TimerTask κ) (calls : Nat) : Prop :=
  Invoked s task calls ∨ (task, calls) ∈ s.cancelled

theorem settled_step (e : Timer.Event κ) (h : Settled s task calls) :
    Settled (step s (.timer e)) task calls := by
  rcases h with hinvoked | hmem
  · exact .inl (Nat.lt_of_lt_of_le hinvoked (calls_le_step s.timer e task.id))
  · exact .inr (List.mem_append_right _ hmem)

/-- In a pass that has called `tick`: the loop in `tick` is at its head, or in a
callback, or over. -/
def InTick (s : Thread κ) : Prop :=
  s.nevents = 0 ∧ (s.timer.phase = .outside ∨ s.timer.phase = .ticking s.now ∨
    ∃ cur, s.timer.phase = .calling s.now cur)

/-- `tick` has been called and is over, or is not called in this pass. -/
def Swept (s : Thread κ) : Prop :=
  s.place = .functors ∨ s.place = .ticking ∧ s.timer.phase = .outside

structure Valid (s : Thread κ) : Prop where
  timer : s.timer.Valid
  outside : s.place ≠ .ticking → s.timer.phase = .outside
  ticking : s.place = .ticking → InTick s
  handling : s.place = .handling → s.nevents ≠ 0
  waiting : s.place = .waiting → ∀ task calls, (task, calls) ∈ s.due →
    task ∈ s.timer.timer.timerSet ∧ s.timer.calls task.id = calls ∧ (task, calls) ∉ s.cancelled
  fate : s.place ≠ .top → s.place ≠ .waiting → ∀ task calls, (task, calls) ∈ s.due →
    Fate s task calls
  swept : Swept s → s.nevents = 0 → ∀ task calls, (task, calls) ∈ s.due → task.expire ≤ s.now →
    Settled s task calls

theorem init_valid : Valid (init : Thread κ) where
  timer := State.init_valid
  outside := fun _ => rfl
  ticking := nofun
  handling := nofun
  waiting := nofun
  fate := fun htop => absurd rfl htop
  swept := by simp [Swept, init]

theorem timeout_valid (h : Valid s) (hplace : s.place = .top) (clock : Int) :
    Valid (step s (.timeout clock)) where
  timer := h.timer
  outside := fun _ => h.outside (by simp [hplace])
  ticking := nofun
  handling := nofun
  waiting := by
    intro _ task calls hmem
    simp only [step, dueAt, List.mem_map, List.mem_filter, Prod.mk.injEq] at hmem
    obtain ⟨t, ⟨hin, _⟩, rfl, rfl⟩ := hmem
    exact ⟨hin, rfl, List.not_mem_nil⟩
  fate := fun _ hwaiting => absurd rfl hwaiting
  swept := by simp [Swept, step]

theorem wait_valid (h : Valid s) (hplace : s.place = .waiting) (nevents now : Int) :
    Valid (step s (.wait nevents now)) := by
  have houtside := h.outside (by simp [hplace])
  have hwaiting := h.waiting hplace
  rw [step]
  split
  · rename_i hsome
    constructor
    · exact h.timer
    · exact fun _ => houtside
    · intro hticking
      cases hticking
    · intro _
      simp only
      omega
    · intro hagain
      cases hagain
    · intro _ _ task calls hmem
      obtain ⟨hin, hcalls, hnot⟩ := hwaiting task calls hmem
      exact .stored hin hcalls hnot
    · simp [Swept]
  split
  · rename_i hzero
    have hvalid := State.step_valid s.timer (.tick now) h.timer houtside
    constructor
    · exact hvalid
    · exact fun hother => absurd rfl hother
    · exact fun _ => ⟨hzero, .inr (.inl rfl)⟩
    · intro hhandling
      cases hhandling
    · intro hagain
      cases hagain
    · intro _ _ task calls hmem
      obtain ⟨hin, hcalls, hnot⟩ := hwaiting task calls hmem
      exact .stored hin hcalls hnot
    · simp [Swept, State.step]
  · rename_i hnot
    constructor
    · exact h.timer
    · exact fun _ => houtside
    · intro hticking
      cases hticking
    · intro hhandling
      cases hhandling
    · intro hagain
      cases hagain
    · intro _ _ task calls hmem
      obtain ⟨hin, hcalls, hnot⟩ := hwaiting task calls hmem
      exact .stored hin hcalls hnot
    · exact fun _ hzero => absurd hzero hnot

private theorem isCall_phase {s : State κ} {e : Timer.Event κ} (h : IsCall e) :
    (s.step e).phase = s.phase := by
  cases e <;> first | rfl | cases h

private theorem inTick_step (hvalid : s.timer.Valid) (hin : InTick s) {e : Timer.Event κ}
    (hok : s.timer.Allowed e) (hbusy : s.timer.phase ≠ .outside) :
    InTick (step s (.timer e)) ∧
      ((s.timer.step e).phase = .outside →
        ∀ task ∈ (s.timer.step e).timer.timerSet, s.now < task.expire) := by
  obtain ⟨hevents, hphase⟩ := hin
  have hkept : (s.timer.step e).phase = s.timer.phase →
      InTick (step s (.timer e)) ∧
        ((s.timer.step e).phase = .outside →
          ∀ task ∈ (s.timer.step e).timer.timerSet, s.now < task.expire) := by
    intro hsame
    refine ⟨⟨hevents, ?_⟩, fun hout => absurd (hsame.symm.trans hout) hbusy⟩
    simp only [step, hsame]
    exact hphase
  cases e with
  | add task => exact hkept rfl
  | cancel id => exact hkept rfl
  | tick now => exact absurd hok hbusy
  | next =>
      obtain ⟨now, hticking⟩ := hok
      have hnow : now = s.now := by
        rcases hphase with hout | htick | ⟨cur, hcall⟩
        · exact absurd hout hbusy
        · rw [hticking] at htick
          exact Phase.ticking.inj htick
        · rw [hticking] at hcall
          cases hcall
      rcases State.step_next_cases hvalid hticking with ⟨hstep, hlate⟩ | ⟨cur, rest, _, _, hstep⟩
      · rw [step, hstep]
        exact ⟨⟨hevents, .inl rfl⟩, fun _ => hnow ▸ hlate⟩
      · rw [step, hstep]
        exact ⟨⟨hevents, .inr (.inr ⟨cur, by rw [hnow]⟩)⟩, nofun⟩
  | ret =>
      obtain ⟨now, cur, hcalling⟩ := hok
      have hnow : now = s.now := by
        rcases hphase with hout | htick | ⟨cur', hcall⟩
        · exact absurd hout hbusy
        · rw [hcalling] at htick
          cases htick
        · rw [hcalling] at hcall
          exact (Phase.calling.inj hcall).1
      rw [step, State.step_ret_eq hcalling]
      exact ⟨⟨hevents, .inr (.inl (by rw [hnow]))⟩, nofun⟩

private theorem timer_valid (h : Valid s) {e : Timer.Event κ} (hok : Allowed s (.timer e)) :
    Valid (step s (.timer e)) := by
  obtain ⟨hallowed, hplace⟩ := hok
  have hbusy : s.place = .ticking → s.timer.phase ≠ .outside := by
    intro hticking
    rwa [hticking] at hplace
  have hcall : s.place ≠ .ticking → IsCall e := by
    intro hne
    cases hp : s.place <;> simp_all
  have htick : ∀ now, s.timer.phase = .ticking now → s.nevents = 0 ∧ now = s.now := by
    intro now hphase
    have hticking : s.place = .ticking := by
      by_contra hne
      rw [h.outside hne] at hphase
      cases hphase
    obtain ⟨hevents, hin⟩ := h.ticking hticking
    rw [hphase] at hin
    rcases hin with hout | hsame | ⟨cur, hcalling⟩
    · cases hout
    · exact ⟨hevents, Phase.ticking.inj hsame⟩
    · cases hcalling
  have hfate : ∀ task calls, (task, calls) ∈ s.due → Fate (step s (.timer e)) task calls := by
    intro task calls hmem
    have hnot : s.place ≠ .top ∧ s.place ≠ .waiting := by
      constructor <;> intro hp <;> simp [hp] at hplace
    exact fate_step h.timer hallowed htick (h.fate hnot.1 hnot.2 task calls hmem)
  refine ⟨State.step_valid s.timer e h.timer hallowed, fun hne => ?_, fun hticking => ?_, h.handling,
    fun hwaiting => ?_, fun _ _ => hfate, fun hswept hzero task calls hmem hdue => ?_⟩
  · exact (isCall_phase (hcall hne)).trans (h.outside hne)
  · exact (inTick_step h.timer (h.ticking hticking) hallowed (hbusy hticking)).1
  · have hp : s.place = .waiting := hwaiting
    simp [hp] at hplace
  · rcases hswept with hfunctors | ⟨hticking, hout⟩
    · exact settled_step e (h.swept (.inl hfunctors) hzero task calls hmem hdue)
    · have hlate := (inTick_step h.timer (h.ticking hticking) hallowed (hbusy hticking)).2 hout
      cases hfate task calls hmem with
      | stored hin _ _ => exact absurd (hlate task hin) (Int.not_lt.mpr hdue)
      | called hcalled _ _ _ => exact .inl hcalled
      | cancelled _ _ hcancelled => exact .inr hcancelled

private theorem fate_place (h : Fate s task calls) (place : Place) :
    Fate { s with place := place } task calls := by
  cases h with
  | stored hmem hcalls hnot => exact .stored hmem hcalls hnot
  | called hcalled hnot hevents hdue => exact .called hcalled hnot hevents hdue
  | cancelled hquiet hcalls hmem => exact .cancelled hquiet hcalls hmem

private theorem step_valid (s : Thread κ) (e : Event κ) (h : Valid s) (hok : Allowed s e) :
    Valid (step s e) := by
  cases e with
  | timeout clock => exact timeout_valid h hok clock
  | wait nevents now => exact wait_valid h hok nevents now
  | timer e => exact timer_valid h hok
  | handled =>
      have hplace : s.place = .handling := hok
      have hfate := h.fate (by simp [hplace]) (by simp [hplace])
      exact ⟨h.timer, fun _ => h.outside (by simp [hplace]), nofun, nofun, nofun,
        fun _ _ task calls hmem => fate_place (hfate task calls hmem) .functors,
        fun _ hzero => absurd hzero (h.handling hplace)⟩
  | ticked =>
      obtain ⟨hplace, hout⟩ := hok
      have hfate := h.fate (by simp [hplace]) (by simp [hplace])
      exact ⟨h.timer, fun _ => hout, nofun, nofun, nofun,
        fun _ _ task calls hmem => fate_place (hfate task calls hmem) .functors,
        fun _ => h.swept (.inr ⟨hplace, hout⟩)⟩
  | done =>
      have hplace : s.place = .functors := hok
      exact ⟨h.timer, fun _ => h.outside (by simp [hplace]), nofun, nofun, nofun,
        fun htop => absurd rfl htop, by simp [Swept, step]⟩

theorem Reachable.valid (h : Reachable s) : Valid s := by
  obtain ⟨events, hrun, rfl⟩ := h
  exact run_invariant step_valid init_valid hrun

/-- In the functors of a pass a task that was due when the pass began has had its
callback invoked exactly when the wait reported no event, the clock has not gone
back behind its expiry, and no call has cancelled it while it was in the store. -/
theorem invoked_iff (h : Valid s) (hplace : s.place = .functors) (hmem : (task, calls) ∈ s.due) :
    Invoked s task calls ↔ s.nevents = 0 ∧ task.expire ≤ s.now ∧ (task, calls) ∉ s.cancelled := by
  have hfate := h.fate (by simp [hplace]) (by simp [hplace]) task calls hmem
  constructor
  · intro hinvoked
    cases hfate with
    | stored _ hcalls _ => exact absurd hinvoked (by simp [Invoked, hcalls])
    | called _ hnot hevents hdue => exact ⟨hevents, hdue, hnot⟩
    | cancelled _ hcalls _ => exact absurd hinvoked (by simp [Invoked, hcalls])
  · rintro ⟨hevents, hdue, hnot⟩
    rcases h.swept (.inl hplace) hevents task calls hmem hdue with hinvoked | hcancelled
    · exact hinvoked
    · exact absurd hcancelled hnot

/-- At the end of every pass of every run: all timers that were due when the pass
began have had their callbacks invoked exactly when none was, or the wait reported
no event, the clock has not gone back behind an expiry, and no call cancelled one
of them before its turn. -/
theorem due_timers_invoked_iff (h : Reachable s) (hplace : s.place = .functors) :
    (∀ task calls, (task, calls) ∈ s.due → Invoked s task calls) ↔
      s.due = [] ∨ s.nevents = 0 ∧
        ∀ task calls, (task, calls) ∈ s.due → task.expire ≤ s.now ∧ (task, calls) ∉ s.cancelled := by
  constructor
  · intro hall
    rcases List.eq_nil_or_concat' s.due with hnil | ⟨front, ⟨last, calls⟩, hdue⟩
    · exact .inl hnil
    · have hlast : (last, calls) ∈ s.due := by
        rw [hdue]
        exact List.mem_append_right _ List.mem_cons_self
      have hevents := ((invoked_iff h.valid hplace hlast).mp (hall last calls hlast)).1
      exact .inr ⟨hevents, fun task calls hmem =>
        ((invoked_iff h.valid hplace hmem).mp (hall task calls hmem)).2⟩
  · rintro (hnil | ⟨hevents, hdue⟩) task calls hmem
    · rw [hnil] at hmem
      cases hmem
    · exact (invoked_iff h.valid hplace hmem).mpr ⟨hevents, hdue task calls hmem⟩

/-- A pass in which the wait reports one event and nothing else is done. -/
def busyPass (clock : Int) : List (Event κ) := [.timeout clock, .wait 1 clock, .handled, .done]

/-- However many such passes come, a timer that is due in all of them waits on. -/
theorem busy_passes_starve (clocks : List Int) (h : s.place = .top) :
    Admissible step Allowed s (clocks.flatMap busyPass) ∧
      (run step s (clocks.flatMap busyPass)).timer = s.timer := by
  have hpass : ∀ (s : Thread κ) (clock : Int), s.place = .top →
      Admissible step Allowed s (busyPass clock) ∧
        (run step s (busyPass clock)).place = .top ∧
        (run step s (busyPass clock)).timer = s.timer := by
    intro s clock htop
    exact ⟨⟨htop, rfl, rfl, rfl, trivial⟩, rfl, rfl⟩
  induction clocks generalizing s with
  | nil => exact ⟨trivial, rfl⟩
  | cons clock clocks ih =>
      obtain ⟨hrun, htop, hsame⟩ := hpass s clock h
      obtain ⟨hrest, hend⟩ := ih htop
      rw [List.flatMap_cons, admissible_append, run_append]
      exact ⟨⟨hrun, hrest⟩, hend.trans hsame⟩

/-- A timer for the time 10, added by a functor of a pass at 0, and a pass at 20. -/
def onePass (nevents : Int) (more : List (Event Unit)) : List (Event Unit) :=
  [.timeout 0, .wait 1 0, .handled, .timer (.add ⟨1, 10, 0, ()⟩), .done, .timeout 20,
    .wait nevents 20] ++ more

theorem event_delays_timer :
    Reachable (run step init (onePass 1 [.handled])) ∧
      (run step init (onePass 1 [.handled])).place = .functors ∧
      (⟨1, 10, 0, ()⟩, 0) ∈ (run step init (onePass 1 [.handled])).due ∧
      ¬ Invoked (run step init (onePass 1 [.handled])) ⟨1, 10, 0, ()⟩ 0 := by
  refine ⟨⟨_, ?_, rfl⟩, rfl, by decide, by simp [Invoked]; decide⟩
  simp [onePass, Admissible, Allowed, step, init, State.init, State.Allowed, State.Callable,
    State.step, IsCall]

theorem quiet_pass_invokes_timer :
    Invoked (run step init (onePass 0 [.timer .next, .timer .ret, .timer .next, .ticked]))
      ⟨1, 10, 0, ()⟩ 0 := by
  have hreachable : Reachable
      (run step init (onePass 0 [.timer .next, .timer .ret, .timer .next, .ticked])) := by
    refine ⟨_, ?_, rfl⟩
    exact ⟨rfl, rfl, rfl, ⟨⟨trivial, List.not_mem_nil, by decide⟩, trivial⟩, rfl, rfl, rfl,
      ⟨⟨20, rfl⟩, nofun⟩, ⟨⟨20, _, rfl⟩, nofun⟩, ⟨⟨20, rfl⟩, nofun⟩, ⟨rfl, rfl⟩, trivial⟩
  have hdue : (run step init (onePass 0 [.timer .next, .timer .ret, .timer .next, .ticked])).due =
      [(⟨1, 10, 0, ()⟩, 0)] := rfl
  apply (due_timers_invoked_iff hreachable rfl).mpr
  · refine .inr ⟨rfl, fun task calls hmem => ?_⟩
    rw [hdue] at hmem
    obtain ⟨rfl, rfl⟩ := Prod.mk.inj (List.mem_singleton.mp hmem)
    exact ⟨by decide, List.not_mem_nil⟩
  · rw [hdue]
    exact List.mem_singleton_self _

end Loop

end Angel.Timer
