import Angel.Client.Model

/-!
`connector_t` with `keep_reconnect`. What `connect(2)` and later the socket say are
events, and so are the timers that expire; the members of the connector and the timers
of its loop are the state. `connect` gives up on an error that it sees itself, and only
`check` tries again.
-/

namespace Angel.Client

open Lib

namespace Connecting

/-- `EINPROGRESS`. -/
def inProgressErrno : Int := 115

/-- What `connect(2)` returns, and `errno`. -/
structure Return where
  ret : Int
  errno : Int
  deriving DecidableEq, Repr

/-- The fatal errors of `connect`. -/
def Return.fatal (r : Return) : Bool := r.ret < 0 && r.errno != inProgressErrno

/-- How the last attempt to connect stands. -/
inductive Attempt where
  | none
  | open
  | failed
  | succeeded
  deriving DecidableEq, Repr

structure ConnectorT where
  keepReconnect : Bool
  hasOnconnect : Bool
  connectChannel : Option Pending
  retryTimerId : Nat
  deriving DecidableEq, Repr

/-- A connector until it is destroyed, the retry timers that are pending in its loop,
and the id that the next timer of the loop gets. -/
structure World where
  connector : Option ConnectorT
  timers : List Nat
  timerId : Nat
  attempt : Attempt
  onfails : Nat
  /-- An `Assert` has failed. -/
  fault : Bool
  deriving DecidableEq, Repr

namespace World

def create (keepReconnect hasOnconnect : Bool) : World where
  connector := some
    { keepReconnect := keepReconnect
      hasOnconnect := hasOnconnect
      connectChannel := none
      retryTimerId := 0 }
  timers := []
  timerId := 1
  attempt := .none
  onfails := 0
  fault := false

/-- A timer is taken from the loop. -/
def removeTimer (id : Nat) (w : World) : World := { w with timers := w.timers.filter (· ≠ id) }

def cancelTimer (id : Nat) (w : World) : World := if id = 0 then w else w.removeTimer id

def setChannel (k : ConnectorT) (chl : Option Pending) (w : World) : World :=
  { w with connector := some { k with connectChannel := chl } }

def shutdown (k : ConnectorT) (w : World) : World :=
  let w := if k.keepReconnect then w.cancelTimer k.retryTimerId else w
  w.setChannel k none

def connected (k : ConnectorT) (w : World) : World :=
  if k.hasOnconnect then
    let w := if k.keepReconnect then w.cancelTimer k.retryTimerId else w
    w.setChannel k none
  else w.shutdown k

/-- `connect`. Off the loop, `connected` has to wait for it. -/
def connect (inLoop : Bool) (r : Return) (k : ConnectorT) (w : World) : World :=
  if r.fatal then { w with attempt := .failed, onfails := w.onfails + 1 }
  else if k.connectChannel ≠ none then { w with fault := true }
  else if r.ret = 0 then
    let w := { w with attempt := .succeeded }
    if inLoop then w.connected k else w.setChannel k (some .connected)
  else { w with attempt := .open }.setChannel k (some .check)

def retry (k : ConnectorT) (w : World) : World :=
  { w with
    connector := some { k with connectChannel := none, retryTimerId := w.timerId }
    timers := w.timers ++ [w.timerId]
    timerId := w.timerId + 1 }

/-- `check`, with the error of the socket. -/
def check (err : Int) (k : ConnectorT) (w : World) : World :=
  if err ≠ 0 then
    let w := { w with attempt := .failed }.shutdown k
    if k.keepReconnect then w.retry k else { w with onfails := w.onfails + 1 }
  else { w with attempt := .succeeded }.connected k

/-- The destructor. -/
def destroy (k : ConnectorT) (w : World) : World := { w.shutdown k with connector := none }

end World

/-- What happens to a connector: its owner connects it or destroys it, its socket is
writable, the loop comes to `connected`, a retry timer expires, and others have `n`
timers of the loop. -/
inductive Event where
  | connect (inLoop : Bool) (r : Return)
  | check (err : Int)
  | connected
  | expire (id : Nat) (r : Return)
  | others (n : Nat)
  | destroy
  deriving DecidableEq, Repr

/-- An attempt that fails at once. -/
def Event.failsAtOnce : Event → Bool
  | .connect _ r => r.fatal
  | .expire _ r => r.fatal
  | _ => false

namespace World

def execute (w : World) (k : ConnectorT) : Event → World
  | .connect inLoop r => w.connect inLoop r k
  | .check err => w.check err k
  | .connected => w.connected k
  | .expire id r => (w.removeTimer id).connect true r k
  | .others n => { w with timerId := w.timerId + n }
  | .destroy => w.destroy k

def step (w : World) (e : Event) : World :=
  match w.connector with
  | none => w
  | some k => w.execute k e

/-- When an event can come to a connector: the owner connects once. -/
def Allows (w : World) (k : ConnectorT) : Event → Prop
  | .connect _ _ => w.attempt = .none
  | .check _ => k.connectChannel = some .check
  | .connected => k.connectChannel = some .connected
  | .expire id _ => id ∈ w.timers
  | _ => True

/-- A connector that has been destroyed takes part in nothing. -/
def Possible (w : World) (e : Event) : Prop := ∃ k ∈ w.connector, w.Allows k e

/-- A retry timer is pending after a failed attempt, as long as there is a connector. -/
def KeepsTrying (w : World) : Prop :=
  ∀ k ∈ w.connector, w.attempt = .failed → k.retryTimerId ∈ w.timers

/-- The members of a connector that tries until it succeeds, by how its last attempt
stands. -/
inductive Standing (w : World) : Prop where
  | destroyed (hconnector : w.connector = none) (htimers : w.timers = [])
  | start {k : ConnectorT} (hconnector : w.connector = some k) (hattempt : w.attempt = .none)
      (hchannel : k.connectChannel = none) (htimers : w.timers = [])
  | trying {k : ConnectorT} (hconnector : w.connector = some k) (hattempt : w.attempt = .open)
      (hchannel : k.connectChannel = some .check) (htimers : w.timers = [])
  | retrying {k : ConnectorT} (hconnector : w.connector = some k) (hattempt : w.attempt = .failed)
      (hchannel : k.connectChannel = none) (htimers : w.timers = [k.retryTimerId])
      (hid : 0 < k.retryTimerId)
  | done {k : ConnectorT} (hconnector : w.connector = some k) (hattempt : w.attempt = .succeeded)
      (hchannel : k.connectChannel ≠ some .check) (htimers : w.timers = [])

/-- What holds as long as no attempt has failed at once. -/
structure Valid (w : World) : Prop where
  standing : w.Standing
  keeps : ∀ k ∈ w.connector, k.keepReconnect = true
  next : 0 < w.timerId
  noFault : w.fault = false

variable {w : World} {k : ConnectorT}

theorem Valid.keepsTrying (h : w.Valid) : w.KeepsTrying := by
  intro k hk hfailed
  cases h.standing with
  | destroyed hconnector =>
      rw [hconnector] at hk
      cases hk
  | start _ hattempt => simp [hattempt] at hfailed
  | trying _ hattempt => simp [hattempt] at hfailed
  | done _ hattempt => simp [hattempt] at hfailed
  | retrying hconnector _ _ htimers =>
      obtain rfl := Option.some.inj (hconnector.symm.trans hk)
      rw [htimers]
      exact List.mem_singleton_self _

theorem step_some (hk : w.connector = some k) (e : Event) : w.step e = w.execute k e := by
  rw [step, hk]

theorem create_valid (hasOnconnect : Bool) : (create true hasOnconnect).Valid where
  standing := .start rfl rfl rfl rfl
  keeps := by
    rintro k ⟨⟩
    rfl
  next := Nat.one_pos
  noFault := rfl

@[simp] theorem cancelTimer_nil {id : Nat} (h : w.timers = []) : w.cancelTimer id = w := by
  unfold cancelTimer removeTimer
  split
  · rfl
  · cases w
    simp_all

section Calls

variable (hk : k.keepReconnect = true) (hnext : 0 < w.timerId) (hfault : w.fault = false)

include hk hnext hfault

theorem connected_valid (htimers : w.timers = []) (hattempt : w.attempt = .succeeded) :
    (w.connected k).Valid := by
  have hshape : w.connected k = w.setChannel k none := by
    unfold connected shutdown
    simp [hk, htimers]
  rw [hshape]
  refine ⟨.done rfl hattempt nofun htimers, ?_, hnext, hfault⟩
  rintro k' ⟨⟩
  exact hk

theorem connect_valid (hchannel : k.connectChannel = none) (htimers : w.timers = [])
    (inLoop : Bool) {r : Return} (hr : r.fatal = false) : (w.connect inLoop r k).Valid := by
  simp only [connect, hr, hchannel]
  split
  · contradiction
  split
  · contradiction
  split
  · split
    · exact connected_valid (w := { w with attempt := .succeeded }) hk hnext hfault htimers rfl
    · refine ⟨.done rfl rfl nofun htimers, ?_, hnext, hfault⟩
      rintro k' ⟨⟩
      exact hk
  · refine ⟨.trying rfl rfl rfl htimers, ?_, hnext, hfault⟩
    rintro k' ⟨⟩
    exact hk

theorem check_valid (htimers : w.timers = []) (err : Int) : (w.check err k).Valid := by
  unfold check
  split
  · have hshape : ({ w with attempt := .failed } : World).shutdown k =
        ({ w with attempt := .failed } : World).setChannel k none := by
      unfold shutdown
      rw [if_pos hk, cancelTimer_nil (w := { w with attempt := .failed }) htimers]
    simp only [hshape]
    refine ⟨.retrying rfl rfl rfl ?_ hnext, ?_, Nat.succ_pos _, hfault⟩
    · simp [retry, setChannel, htimers]
    · rintro k' ⟨⟩
      exact hk
  · exact connected_valid (w := { w with attempt := .succeeded }) hk hnext hfault htimers rfl

theorem destroy_valid (htimers : w.timers = [] ∨ w.timers = [k.retryTimerId] ∧ 0 < k.retryTimerId) :
    (w.destroy k).Valid := by
  have hcancelled : (w.cancelTimer k.retryTimerId).timers = [] := by
    rcases htimers with hnone | ⟨hone, hid⟩
    · rw [cancelTimer_nil hnone, hnone]
    · rw [cancelTimer, if_neg (Nat.pos_iff_ne_zero.mp hid), removeTimer, hone]
      simp
  unfold destroy shutdown
  rw [if_pos hk]
  refine ⟨.destroyed rfl hcancelled, nofun, ?_, ?_⟩
  · unfold cancelTimer
    split <;> exact hnext
  · unfold cancelTimer
    split <;> exact hfault

end Calls

theorem connect_gives_up (hconnector : w.connector = some k) (htimers : w.timers = [])
    (inLoop : Bool) {r : Return} (hr : r.fatal = true) :
    ¬ (w.connect inLoop r k).KeepsTrying := by
  intro hkeeps
  rw [connect, if_pos hr] at hkeeps
  have hmem := hkeeps k hconnector rfl
  rw [show ({ w with attempt := .failed, onfails := w.onfails + 1 } : World).timers = [] from
    htimers] at hmem
  cases hmem

/-- Where an attempt can begin there is neither a channel nor another timer. -/
theorem Valid.ready (h : w.Valid) (hk : w.connector = some k) {e : Event}
    (hpossible : w.Allows k e) :
    (∀ inLoop r, e = .connect inLoop r → k.connectChannel = none ∧ w.timers = []) ∧
      ∀ id r, e = .expire id r → k.connectChannel = none ∧ (w.removeTimer id).timers = [] := by
  cases h.standing with
  | destroyed hconnector _ =>
      rw [hk] at hconnector
      cases hconnector
  | start hconnector hattempt hchannel htimers =>
      obtain rfl := Option.some.inj (hk.symm.trans hconnector)
      refine ⟨fun _ _ _ => ⟨hchannel, htimers⟩, ?_⟩
      rintro id r rfl
      simp [Allows, htimers] at hpossible
  | trying hconnector hattempt hchannel htimers =>
      refine ⟨?_, ?_⟩
      · rintro inLoop r rfl
        simp [Allows, hattempt] at hpossible
      · rintro id r rfl
        simp [Allows, htimers] at hpossible
  | retrying hconnector hattempt hchannel htimers hid =>
      obtain rfl := Option.some.inj (hk.symm.trans hconnector)
      refine ⟨?_, ?_⟩
      · rintro inLoop r rfl
        simp [Allows, hattempt] at hpossible
      · rintro id r rfl
        simp only [Allows, htimers, List.mem_singleton] at hpossible
        simp [removeTimer, htimers, hpossible, hchannel]
  | done hconnector hattempt hchannel htimers =>
      refine ⟨?_, ?_⟩
      · rintro inLoop r rfl
        simp [Allows, hattempt] at hpossible
      · rintro id r rfl
        simp [Allows, htimers] at hpossible

theorem Valid.waiting (h : w.Valid) (hk : w.connector = some k) (hchannel : k.connectChannel ≠ none) :
    w.timers = [] ∧ (k.connectChannel = some .connected → w.attempt = .succeeded) := by
  cases h.standing with
  | destroyed hconnector _ =>
      rw [hk] at hconnector
      cases hconnector
  | start hconnector _ hnone _ =>
      obtain rfl := Option.some.inj (hk.symm.trans hconnector)
      exact absurd hnone hchannel
  | trying hconnector _ hcheck htimers =>
      obtain rfl := Option.some.inj (hk.symm.trans hconnector)
      refine ⟨htimers, fun hconnected => ?_⟩
      rw [hcheck] at hconnected
      cases hconnected
  | retrying hconnector _ hnone _ _ =>
      obtain rfl := Option.some.inj (hk.symm.trans hconnector)
      exact absurd hnone hchannel
  | done _ hattempt _ htimers => exact ⟨htimers, fun _ => hattempt⟩

theorem Valid.timers (h : w.Valid) (hk : w.connector = some k) :
    w.timers = [] ∨ w.timers = [k.retryTimerId] ∧ 0 < k.retryTimerId := by
  cases h.standing with
  | retrying hconnector _ _ htimers hid =>
      obtain rfl := Option.some.inj (hk.symm.trans hconnector)
      exact .inr ⟨htimers, hid⟩
  | _ => exact .inl ‹_›

private theorem others_valid (h : w.Valid) (n : Nat) :
    ({ w with timerId := w.timerId + n } : World).Valid where
  standing := by
    cases h.standing with
    | destroyed hconnector htimers => exact .destroyed hconnector htimers
    | start hconnector hattempt hchannel htimers => exact .start hconnector hattempt hchannel htimers
    | trying hconnector hattempt hchannel htimers => exact .trying hconnector hattempt hchannel htimers
    | retrying hconnector hattempt hchannel htimers hid =>
        exact .retrying hconnector hattempt hchannel htimers hid
    | done hconnector hattempt hchannel htimers => exact .done hconnector hattempt hchannel htimers
  keeps := h.keeps
  next := Nat.add_pos_left h.next n
  noFault := h.noFault

private theorem step_valid {e : Event} (h : w.Valid) (hpossible : w.Possible e)
    (hlater : e.failsAtOnce = false) : (w.step e).Valid := by
  obtain ⟨k, hk, hpossible⟩ := hpossible
  have hk : w.connector = some k := hk
  have hkeeps := h.keeps k hk
  obtain ⟨hconnect, hexpire⟩ := h.ready hk hpossible
  rw [step_some hk]
  cases e with
  | connect inLoop r =>
      obtain ⟨hchannel, htimers⟩ := hconnect inLoop r rfl
      exact connect_valid hkeeps h.next h.noFault hchannel htimers inLoop hlater
  | check err =>
      have hchannel : k.connectChannel = some .check := hpossible
      have hwaiting := h.waiting hk (by simp [hchannel])
      exact check_valid hkeeps h.next h.noFault hwaiting.1 err
  | connected =>
      have hchannel : k.connectChannel = some .connected := hpossible
      have hwaiting := h.waiting hk (by simp [hchannel])
      exact connected_valid hkeeps h.next h.noFault hwaiting.1 (hwaiting.2 hchannel)
  | expire id r =>
      obtain ⟨hchannel, htimers⟩ := hexpire id r rfl
      exact connect_valid (w := w.removeTimer id) hkeeps h.next h.noFault hchannel htimers true hlater
  | others n => exact others_valid h n
  | destroy => exact destroy_valid hkeeps h.next h.noFault (h.timers hk)

private theorem step_gives_up {e : Event} (h : w.Valid) (hpossible : w.Possible e)
    (hfatal : e.failsAtOnce = true) : ¬ (w.step e).KeepsTrying := by
  obtain ⟨k, hk, hpossible⟩ := hpossible
  have hk : w.connector = some k := hk
  obtain ⟨hconnect, hexpire⟩ := h.ready hk hpossible
  rw [step_some hk]
  cases e with
  | connect inLoop r => exact connect_gives_up hk (hconnect inLoop r rfl).2 inLoop hfatal
  | expire id r => exact connect_gives_up (w := w.removeTimer id) hk (hexpire id r rfl).2 true hfatal
  | _ => cases hfatal

/-- In every run a retry timer is pending after each failed attempt, until an attempt
succeeds or the connector is destroyed, exactly when no attempt fails at once. -/
theorem keeps_trying_iff (hasOnconnect : Bool) {events : List Event}
    (hrun : Admissible step Possible (create true hasOnconnect) events) :
    Admissible step (fun w e => (w.step e).KeepsTrying) (create true hasOnconnect) events ↔
      Admissible step (fun _ e => e.failsAtOnce = false) (create true hasOnconnect) events := by
  refine admissible_congr (fun w e h hpossible => ?_) (fun w e h hpossible hlater => ?_)
    (create_valid hasOnconnect) hrun
  · constructor
    · intro hkeeps
      by_contra hfatal
      exact step_gives_up h hpossible (Bool.not_eq_false _ ▸ hfatal) hkeeps
    · intro hlater
      exact (step_valid h hpossible hlater).keepsTrying
  · exact step_valid h hpossible hlater

/-- Two attempts that fail later, and one that succeeds at once. -/
def thirdTime : List Event :=
  [.connect true ⟨-1, inProgressErrno⟩, .check 111, .expire 1 ⟨-1, inProgressErrno⟩, .check 110,
    .expire 2 ⟨0, 0⟩]

theorem keeps_trying_third_time :
    Admissible step (fun w e => (w.step e).KeepsTrying) (create true true) thirdTime := by
  have hrun : Admissible step Possible (create true true) thirdTime :=
    ⟨⟨_, rfl, rfl⟩, ⟨_, rfl, rfl⟩, ⟨_, rfl, List.mem_singleton_self 1⟩, ⟨_, rfl, rfl⟩,
      ⟨_, rfl, List.mem_singleton_self 2⟩, trivial⟩
  refine (keeps_trying_iff true hrun).mpr ?_
  exact ⟨rfl, rfl, rfl, rfl, rfl, trivial⟩

/-- The network is unreachable at the first attempt: nothing tries again. -/
theorem keeps_trying_fails :
    Admissible step Possible (create true true) [.connect true ⟨-1, 101⟩] ∧
      ¬ Admissible step (fun w e => (w.step e).KeepsTrying) (create true true)
        [.connect true ⟨-1, 101⟩] := by
  refine ⟨⟨⟨_, rfl, rfl⟩, trivial⟩, ?_⟩
  rintro ⟨hkeeps, _⟩
  have hmem := hkeeps _ rfl rfl
  cases hmem

end World

end Connecting

end Angel.Client
