import Angel.Dns.Records
import Angel.Dns.Unpack
import Angel.Timer.Store

/-!
The life of the queries in `resolver.cc`: they are stored under their ids, sent,
sent again when their timers expire, and notified once, by a response, by an
error reply or by the last timer. All of it runs on the loop thread, so that a
run is a list of whole calls in any order.
-/

namespace Angel

/-- `ExponentialBackoff` of `backoff.h`, with a whole multiplier. -/
structure ExponentialBackoff where
  interval : Nat
  multiplier : Nat
  maxRetries : Nat
  deriving DecidableEq, Repr

/-- `next_back_off`: 0 when the retries are used up. -/
def ExponentialBackoff.nextBackOff (b : ExponentialBackoff) : Nat × ExponentialBackoff :=
  if b.maxRetries = 0 then (0, b)
  else
    (b.interval, { b with interval := b.interval * b.multiplier, maxRetries := b.maxRetries - 1 })

namespace Dns

open Angel.Lib

/-- `get_rcode_str`. -/
def getRcodeStr : Nat → String
  | 1 => "Format Error"
  | 2 => "Server Failure"
  | 3 => "Name Error"
  | 4 => "Not Implemented"
  | 5 => "Refused"
  | _ => "Unknown Error"

def timedOut : String := "Query timed out"

/-- What the promise of a query is set to: a result of records, or the one record
of type `Error` with its text. -/
inductive Outcome where
  | result (records : List Pointer)
  | error (err : String)
  deriving DecidableEq, Repr

def Reply.outcome : Reply → Outcome
  | .result records => .result records
  | .error rcode => .error (getRcodeStr rcode)

/-- A `query_context` in `query_map`; `number` tells the queries and their
promises apart. -/
structure Pending where
  context : QueryContext
  number : Nat
  retransmitTimerId : Nat
  backoff : ExponentialBackoff

/-- The callback of a retransmit timer: `retransmit(id)`. It was set for the query
of this number, which the code does not record. -/
structure Retransmit where
  id : Nat
  number : Nat
  deriving DecidableEq, Repr

/-- The resolver and the retransmit timers of its loop; `started` counts the
queries, `sent` and `notified` are the calls of `send` and of `set_value`. -/
structure Resolver where
  queryMap : Nat → Option Pending
  timer : Timer Retransmit
  timerId : Nat
  started : Nat
  sent : List Nat
  notified : List (Nat × Outcome)

namespace Resolver

def init : Resolver where
  queryMap := fun _ => none
  timer := Timer.init
  timerId := 1
  started := 0
  sent := []
  notified := []

def notify (qc : Pending) (res : Outcome) (s : Resolver) : Resolver :=
  { s with
    timer := s.timer.cancelTimer qc.retransmitTimerId
    notified := s.notified ++ [(qc.number, res)]
    queryMap := Function.update s.queryMap qc.context.id none }

def errNotify (qc : Pending) (err : String) (s : Resolver) : Resolver := s.notify qc (.error err)

/-- `send_query`, once the client is connected. -/
def sendQuery (qc : Pending) (s : Resolver) : Resolver := { s with sent := s.sent ++ [qc.number] }

/-- `set_retransmit_timer` at the clock reading `now` of `run_after`. -/
def setRetransmitTimer (now : Int) (qc : Pending) (s : Resolver) : Resolver :=
  let (after, backoff) := qc.backoff.nextBackOff
  let qc := { qc with backoff := backoff }
  if after = 0 then
    errNotify qc timedOut
      { s with queryMap := Function.update s.queryMap qc.context.id (some qc) }
  else
    let task : TimerTask Retransmit := ⟨s.timerId, now + after, 0, ⟨qc.context.id, qc.number⟩⟩
    let qc := { qc with retransmitTimerId := s.timerId }
    { s with
      timer := s.timer.addTimerInLoop task
      timerId := s.timerId + 1
      queryMap := Function.update s.queryMap qc.context.id (some qc) }

def retransmit (now : Int) (id : Nat) (s : Resolver) : Resolver :=
  match s.queryMap id with
  | none => s
  | some qc => (s.sendQuery qc).setRetransmitTimer now qc

/-- `do_query`, with the backoff that `query` has given the query. The timer id
has no value yet. -/
def doQuery (now : Int) (context : QueryContext) (s : Resolver) : Resolver :=
  let qc : Pending :=
    { context := context
      number := s.started
      retransmitTimerId := 0
      backoff := ⟨1000, 2, 4⟩ }
  let s := { s with
    started := s.started + 1
    queryMap := Function.update s.queryMap context.id (some qc) }
  (s.sendQuery qc).setRetransmitTimer now qc

/-- `unpack`. A datagram on which it fails an assertion or does not return changes
nothing before. -/
def unpack (d : Bytes) (fuel : Nat) (record : Pointer) (s : Resolver) : Resolver :=
  match unpackFrom d fuel (fun id => (s.queryMap id).map Pending.context) record with
  | .error _ => s
  | .ok (_, reply) =>
      match s.queryMap (Sockops.ntohs (u16 d 0)) with
      | none => s
      | some qc => s.notify qc reply.outcome

/-- A pass of `tick`: the first timer, if it is due at `now`; `run_after` in its
callback reads the clock again. -/
def expire (now later : Int) (s : Resolver) : Resolver :=
  match s.timer.detach now with
  | .call cur timer => { s with timer := timer }.retransmit later cur.timerCb.id
  | _ => s

/-- What the loop thread comes to do. -/
inductive Event where
  | doQuery (now : Int) (context : QueryContext)
  | unpack (d : Bytes) (fuel : Nat) (record : Pointer)
  | expire (now later : Int)

def step (s : Resolver) : Event → Resolver
  | .doQuery now context => s.doQuery now context
  | .unpack d fuel record => s.unpack d fuel record
  | .expire now later => s.expire now later

/-- `do_query` draws ids until one is not in `query_map`. -/
def Allowed (s : Resolver) : Event → Prop
  | .doQuery _ context => s.queryMap context.id = none
  | _ => True

def Reachable (s : Resolver) : Prop :=
  ∃ events, Admissible step Allowed init events ∧ s = run step init events

/-- The promise of a query has been set. -/
def Resolved (s : Resolver) (number : Nat) : Prop := ∃ res, (number, res) ∈ s.notified

variable {s : Resolver} {busy : Option Nat} {id : Nat} {qc : Pending}

/-- The entries of `query_map`, with the calls that have been made for their
queries. -/
structure Entries (s : Resolver) : Prop where
  context : ∀ id qc, s.queryMap id = some qc → qc.context.id = id
  started : ∀ id qc, s.queryMap id = some qc → qc.number < s.started
  distinct : ∀ id id' qc qc', s.queryMap id = some qc → s.queryMap id' = some qc' →
    qc.number = qc'.number → id = id'
  pending : ∀ id qc, s.queryMap id = some qc → ¬ s.Resolved qc.number
  backoff : ∀ id qc, s.queryMap id = some qc → 0 < qc.backoff.interval ∧ 0 < qc.backoff.multiplier

/-- The calls of `set_value` and of `send`. -/
structure Calls (s : Resolver) : Prop where
  once : (s.notified.map Prod.fst).Nodup
  past : ∀ n, s.Resolved n → n < s.started
  sends : ∀ n, s.sent.count n ≤ 5
  unsent : ∀ n, s.started ≤ n → s.sent.count n = 0
  timeouts : ∀ n, (n, .error timedOut) ∈ s.notified → s.sent.count n = 5

/-- A timer for the entry at `id`, and as many sends as the backoff has given
times for. -/
structure Armed (s : Resolver) (id : Nat) (qc : Pending) : Prop where
  timer : ∃ task ∈ s.timer.timerSet, task.id = qc.retransmitTimerId ∧
    task.timerCb = ⟨id, qc.number⟩
  count : s.sent.count qc.number + qc.backoff.maxRetries = 4

/-- What holds between two calls, and within one while the query under the id
`busy` has no timer. -/
structure Valid (busy : Option Nat) (s : Resolver) : Prop where
  consistent : s.timer.Consistent
  ids : ∀ task ∈ s.timer.timerSet, 0 < task.id ∧ task.id < s.timerId
  next : 0 < s.timerId
  entries : s.Entries
  calls : s.Calls
  armed : ∀ id qc, s.queryMap id = some qc → busy ≠ some id → s.Armed id qc
  timers : ∀ task ∈ s.timer.timerSet, busy ≠ some task.timerCb.id ∧
    ∃ qc, s.queryMap task.timerCb.id = some qc ∧ qc.retransmitTimerId = task.id ∧
      qc.number = task.timerCb.number

theorem init_valid : init.Valid none where
  consistent := Timer.init_consistent
  ids := by simp [init, Timer.init]
  next := Nat.one_pos
  entries := ⟨by simp [init], by simp [init], by simp [init], by simp [init], by simp [init]⟩
  calls := ⟨List.nodup_nil, by simp [init, Resolved], by simp [init], by simp [init],
    by simp [init]⟩
  armed := by simp [init]
  timers := by simp [init, Timer.init]

theorem mem_cancelTimer_iff {t : Timer Retransmit} {task : TimerTask Retransmit}
    (h : t.Consistent) (hpos : ∀ task ∈ t.timerSet, 0 < task.id) :
    task ∈ (t.cancelTimer id).timerSet ↔ task ∈ t.timerSet ∧ task.id ≠ id := by
  unfold Timer.cancelTimer
  split
  case isTrue hzero =>
    constructor
    · intro hmem
      have := hpos task hmem
      exact ⟨hmem, by omega⟩
    · exact fun hmem => hmem.1
  case isFalse => exact Timer.mem_cancelTimerInLoop h

theorem update_some {m : Nat → Option Pending} {i id' : Nat} {q : Option Pending} {qc' : Pending}
    (h : Function.update m i q id' = some qc') : id' = i ∧ q = some qc' ∨ id' ≠ i ∧ m id' = some qc' := by
  rcases eq_or_ne id' i with rfl | hne
  · rw [Function.update_self] at h
    exact .inl ⟨rfl, h⟩
  · rw [Function.update_of_ne hne] at h
    exact .inr ⟨hne, h⟩

theorem resolved_notify {res : Outcome} {n : Nat} :
    (s.notify qc res).Resolved n ↔ s.Resolved n ∨ n = qc.number := by
  simp only [Resolved, notify, List.mem_append, List.mem_singleton, Prod.mk.injEq]
  constructor
  · rintro ⟨res', hold | ⟨hn, _⟩⟩
    · exact .inl ⟨res', hold⟩
    · exact .inr hn
  · rintro (⟨res', hold⟩ | rfl)
    · exact ⟨res', .inl hold⟩
    · exact ⟨res, .inr ⟨rfl, rfl⟩⟩

private theorem notify_entries (h : s.Entries) (hqc : s.queryMap id = some qc) (res : Outcome) :
    (s.notify qc res).Entries := by
  have hid := h.context id qc hqc
  have hold : ∀ id' qc', (s.notify qc res).queryMap id' = some qc' →
      id' ≠ id ∧ s.queryMap id' = some qc' := by
    intro id' qc' hfind
    rcases update_some hfind with ⟨_, hnone⟩ | ⟨hne, hmap⟩
    · cases hnone
    · exact ⟨hid ▸ hne, hmap⟩
  refine ⟨?_, ?_, ?_, ?_, ?_⟩
  · intro id' qc' hfind
    exact h.context id' qc' (hold id' qc' hfind).2
  · intro id' qc' hfind
    exact h.started id' qc' (hold id' qc' hfind).2
  · intro id₁ id₂ qc₁ qc₂ h₁ h₂
    exact h.distinct id₁ id₂ qc₁ qc₂ (hold id₁ qc₁ h₁).2 (hold id₂ qc₂ h₂).2
  · intro id' qc' hfind hresolved
    obtain ⟨hne, hmap⟩ := hold id' qc' hfind
    rcases resolved_notify.mp hresolved with hbefore | hnow
    · exact h.pending id' qc' hmap hbefore
    · exact hne (h.distinct id' id qc' qc hmap hqc hnow)
  · intro id' qc' hfind
    exact h.backoff id' qc' (hold id' qc' hfind).2

private theorem notify_calls (h : s.Calls) (hentries : s.Entries) (hqc : s.queryMap id = some qc)
    {res : Outcome} (htimeout : res = .error timedOut → s.sent.count qc.number = 5) :
    (s.notify qc res).Calls := by
  refine ⟨?_, ?_, h.sends, h.unsent, ?_⟩
  · have hnew : qc.number ∉ s.notified.map Prod.fst := by
      intro hmem
      obtain ⟨⟨n, res'⟩, hin, rfl⟩ := List.mem_map.mp hmem
      exact hentries.pending id qc hqc ⟨res', hin⟩
    simp only [notify, List.map_append, List.map_cons, List.map_nil]
    rw [List.nodup_append]
    exact ⟨h.once, List.nodup_singleton _, fun a ha b hb => by
      rintro rfl
      exact hnew (List.mem_singleton.mp hb ▸ ha)⟩
  · intro n hresolved
    rcases resolved_notify.mp hresolved with hbefore | rfl
    · exact h.past n hbefore
    · exact hentries.started id qc hqc
  · intro n hmem
    simp only [notify, List.mem_append, List.mem_singleton, Prod.mk.injEq] at hmem
    rcases hmem with hold | ⟨rfl, herr⟩
    · exact h.timeouts n hold
    · exact htimeout herr.symm

/-- The query that is notified is gone with its timer, and the others have
theirs. -/
theorem notify_valid (h : s.Valid busy) (hqc : s.queryMap id = some qc)
    (hbusy : ∀ i, busy = some i → i = id)
    (hown : ∀ task ∈ s.timer.timerSet, task.id = qc.retransmitTimerId → task.timerCb.id = id)
    {res : Outcome} (htimeout : res = .error timedOut → s.sent.count qc.number = 5) :
    (s.notify qc res).Valid none := by
  have hid := h.entries.context id qc hqc
  have hmem : ∀ task, task ∈ (s.notify qc res).timer.timerSet ↔
      task ∈ s.timer.timerSet ∧ task.id ≠ qc.retransmitTimerId := fun task =>
    mem_cancelTimer_iff h.consistent fun task hin => (h.ids task hin).1
  refine ⟨Timer.cancelTimer_consistent h.consistent _, ?_, h.next, notify_entries h.entries hqc res,
    notify_calls h.calls h.entries hqc htimeout, ?_, ?_⟩
  · intro task hin
    exact h.ids task ((hmem task).mp hin).1
  · intro id' qc' hfind _
    rcases update_some hfind with ⟨_, hnone⟩ | ⟨hne, hmap⟩
    · cases hnone
    · have hother : id' ≠ id := hid ▸ hne
      have hfree : busy ≠ some id' := fun hb => hother (hbusy id' hb)
      obtain ⟨⟨task, hin, htid, hcb⟩, hcount⟩ := h.armed id' qc' hmap hfree
      refine ⟨⟨task, (hmem task).mpr ⟨hin, fun hsame => hother ?_⟩, htid, hcb⟩, hcount⟩
      have hcbid := hown task hin hsame
      rw [hcb] at hcbid
      exact hcbid
  · intro task hin
    obtain ⟨hin, hne⟩ := (hmem task).mp hin
    obtain ⟨_, qc', hmap, htid, hnum⟩ := h.timers task hin
    refine ⟨nofun, qc', ?_, htid, hnum⟩
    have hother : task.timerCb.id ≠ qc.context.id := by
      intro hsame
      rw [hsame, hid, hqc] at hmap
      obtain rfl := Option.some.inj hmap
      exact hne htid.symm
    exact (Function.update_of_ne hother _ _).trans hmap

theorem count_append_singleton (sent : List Nat) (n m : Nat) :
    (sent ++ [n]).count m = sent.count m + if n = m then 1 else 0 := by
  rw [List.count_append, List.count_singleton]
  simp only [beq_iff_eq]

theorem sendQuery_valid (h : s.Valid (some id)) (hqc : s.queryMap id = some qc)
    (hcount : s.sent.count qc.number ≤ 4) : (s.sendQuery qc).Valid (some id) := by
  have hother : ∀ n, n ≠ qc.number → (s.sent ++ [qc.number]).count n = s.sent.count n := by
    intro n hne
    rw [count_append_singleton, if_neg (Ne.symm hne)]
    rfl
  have hself : (s.sent ++ [qc.number]).count qc.number = s.sent.count qc.number + 1 := by
    rw [count_append_singleton, if_pos rfl]
  refine ⟨h.consistent, h.ids, h.next, ?_, ⟨h.calls.once, h.calls.past, ?_, ?_, ?_⟩, ?_, h.timers⟩
  · exact ⟨h.entries.context, h.entries.started, h.entries.distinct, h.entries.pending,
      h.entries.backoff⟩
  · intro n
    rcases eq_or_ne n qc.number with rfl | hne
    · exact hself.trans_le (by omega)
    · exact (hother n hne).trans_le (h.calls.sends n)
  · intro n hn
    have hstarted := h.entries.started id qc hqc
    have hn : s.started ≤ n := hn
    have hne : n ≠ qc.number := by omega
    exact (hother n hne).trans (h.calls.unsent n hn)
  · intro n hmem
    have hne : n ≠ qc.number := by
      rintro rfl
      exact h.entries.pending id qc hqc ⟨_, hmem⟩
    exact (hother n hne).trans (h.calls.timeouts n hmem)
  · intro id' qc' hmap hfree
    obtain ⟨htimer, hsent⟩ := h.armed id' qc' hmap hfree
    have hne : qc'.number ≠ qc.number := by
      intro hsame
      obtain rfl := h.entries.distinct id' id qc' qc hmap hqc hsame
      exact hfree rfl
    refine ⟨htimer, ?_⟩
    have hsame : (s.sendQuery qc).sent.count qc'.number = s.sent.count qc'.number := hother _ hne
    rw [hsame]
    exact hsent

private theorem update_entries (h : s.Entries) (hqc : s.queryMap id = some qc) (qc' : Pending)
    (hcontext : qc'.context = qc.context) (hnumber : qc'.number = qc.number)
    (hbackoff : 0 < qc'.backoff.interval ∧ 0 < qc'.backoff.multiplier) (timer : Timer Retransmit)
    (timerId : Nat) :
    { s with
      timer := timer
      timerId := timerId
      queryMap := Function.update s.queryMap id (some qc') }.Entries := by
  have hold : ∀ i q, Function.update s.queryMap id (some qc') i = some q →
      i = id ∧ q = qc' ∨ i ≠ id ∧ s.queryMap i = some q := by
    intro i q hfind
    rcases update_some hfind with ⟨rfl, hsame⟩ | hrest
    · exact .inl ⟨rfl, (Option.some.inj hsame).symm⟩
    · exact .inr hrest
  refine ⟨?_, ?_, ?_, ?_, ?_⟩
  · intro i q hfind
    rcases hold i q hfind with ⟨rfl, rfl⟩ | ⟨_, hmap⟩
    · rw [hcontext]
      exact h.context i qc hqc
    · exact h.context i q hmap
  · intro i q hfind
    rcases hold i q hfind with ⟨rfl, rfl⟩ | ⟨_, hmap⟩
    · rw [hnumber]
      exact h.started i qc hqc
    · exact h.started i q hmap
  · intro i j q r hi hj hsame
    rcases hold i q hi with ⟨rfl, rfl⟩ | ⟨_, hi'⟩
    · rcases hold j r hj with ⟨rfl, _⟩ | ⟨_, hj'⟩
      · rfl
      · exact h.distinct i j qc r hqc hj' (hnumber ▸ hsame)
    · rcases hold j r hj with ⟨rfl, rfl⟩ | ⟨_, hj'⟩
      · exact h.distinct i j q qc hi' hqc (hnumber ▸ hsame)
      · exact h.distinct i j q r hi' hj' hsame
  · intro i q hfind
    rcases hold i q hfind with ⟨rfl, rfl⟩ | ⟨_, hmap⟩
    · rw [hnumber]
      exact h.pending i qc hqc
    · exact h.pending i q hmap
  · intro i q hfind
    rcases hold i q hfind with ⟨rfl, rfl⟩ | ⟨_, hmap⟩
    · exact hbackoff
    · exact h.backoff i q hmap

private theorem addTimer_valid (h : s.Valid (some id)) (hqc : s.queryMap id = some qc)
    (expire : Int)
    {backoff : ExponentialBackoff}
    (hbackoff : 0 < backoff.interval ∧ 0 < backoff.multiplier)
    (hcount : s.sent.count qc.number + backoff.maxRetries = 4) :
    { s with
      timer := s.timer.addTimerInLoop ⟨s.timerId, expire, 0, ⟨id, qc.number⟩⟩
      timerId := s.timerId + 1
      queryMap := Function.update s.queryMap id
        (some { qc with backoff := backoff, retransmitTimerId := s.timerId }) }.Valid none := by
  set task : TimerTask Retransmit := ⟨s.timerId, expire, 0, ⟨id, qc.number⟩⟩ with htask
  have hfresh : ∀ cur ∈ s.timer.timerSet, cur.id ≠ task.id := by
    intro cur hcur
    exact (h.ids cur hcur).2.ne
  refine ⟨Timer.addTimerInLoop_consistent h.consistent hfresh, ?_, Nat.succ_pos _,
    update_entries h.entries hqc { qc with backoff := backoff, retransmitTimerId := s.timerId } rfl
      rfl hbackoff _ _, ⟨h.calls.once, h.calls.past, h.calls.sends,
    h.calls.unsent, h.calls.timeouts⟩, ?_, ?_⟩
  · intro cur hcur
    rcases Timer.mem_addTimerInLoop.mp hcur with rfl | hold
    · exact ⟨h.next, Nat.lt_succ_self _⟩
    · have hids := h.ids cur hold
      exact ⟨hids.1, Nat.lt_succ_of_lt hids.2⟩
  · intro id' qc' hfind _
    rcases update_some hfind with ⟨rfl, hsame⟩ | ⟨hne, hmap⟩
    · obtain rfl := Option.some.inj hsame
      exact ⟨⟨task, Timer.mem_addTimerInLoop.mpr (.inl rfl), rfl, rfl⟩, hcount⟩
    · have hfree : some id ≠ some id' := fun hsame => hne (Option.some.inj hsame).symm
      obtain ⟨⟨cur, hin, hcur⟩, hsent⟩ := h.armed id' qc' hmap hfree
      exact ⟨⟨cur, Timer.mem_addTimerInLoop.mpr (.inr hin), hcur⟩, hsent⟩
  · intro cur hcur
    refine ⟨nofun, ?_⟩
    rcases Timer.mem_addTimerInLoop.mp hcur with rfl | hold
    · exact ⟨_, Function.update_self _ _ _, rfl, rfl⟩
    · obtain ⟨hfree, qc', hmap, hentry⟩ := h.timers cur hold
      have hne : cur.timerCb.id ≠ id := fun hsame => hfree (congrArg some hsame.symm)
      exact ⟨qc', (Function.update_of_ne hne _ _).trans hmap, hentry⟩

/-- The query that has just been sent gets a timer, or is told that it timed
out. -/
theorem setRetransmitTimer_valid (h : s.Valid (some id)) (hqc : s.queryMap id = some qc)
    (now : Int) (hcount : s.sent.count qc.number + qc.backoff.maxRetries = 5)
    (habsent : ∀ task ∈ s.timer.timerSet, task.id ≠ qc.retransmitTimerId) :
    (s.setRetransmitTimer now qc).Valid none := by
  have hid := h.entries.context id qc hqc
  obtain ⟨hinterval, hmultiplier⟩ := h.entries.backoff id qc hqc
  rcases Nat.eq_zero_or_pos qc.backoff.maxRetries with hzero | hpos
  · have hsame : Function.update s.queryMap id (some qc) = s.queryMap :=
      Function.update_eq_self_iff.mpr hqc.symm
    have heq : s.setRetransmitTimer now qc = s.notify qc (.error timedOut) := by
      rw [setRetransmitTimer, ExponentialBackoff.nextBackOff, if_pos hzero]
      simp only [if_true, errNotify, hid, hsame]
    rw [heq]
    apply notify_valid h hqc
    · intro i hi
      exact (Option.some.inj hi).symm
    · intro task htask hsame
      exact absurd hsame (habsent task htask)
    · intro _
      omega
  · have hne : qc.backoff.maxRetries ≠ 0 := by omega
    have hafter : qc.backoff.interval ≠ 0 := by omega
    rw [setRetransmitTimer, ExponentialBackoff.nextBackOff, if_neg hne]
    simp only [if_neg hafter, hid]
    apply addTimer_valid h hqc
    · exact ⟨Nat.mul_pos hinterval hmultiplier, hmultiplier⟩
    · simp only
      omega

private theorem detached_valid (h : s.Valid none) {cur : TimerTask Retransmit}
    {rest : List (TimerTask Retransmit)} (hset : s.timer.timerSet = cur :: rest) :
    { s with timer := ⟨rest, Function.update s.timer.timerMap cur.id none⟩ }.Valid
        (some cur.timerCb.id) ∧ ∀ task ∈ rest, task.id ≠ cur.id := by
  have hin : ∀ task ∈ rest, task ∈ s.timer.timerSet := by
    intro task htask
    rw [hset]
    exact List.mem_cons_of_mem _ htask
  have hunique := h.consistent.unique
  rw [hset, List.map_cons, List.nodup_cons] at hunique
  have habsent : ∀ task ∈ rest, task.id ≠ cur.id := by
    intro task htask hsame
    exact hunique.1 (hsame ▸ List.mem_map_of_mem htask)
  refine ⟨⟨Timer.erase_consistent [] h.consistent hset, fun task htask => h.ids task (hin task htask),
    h.next, ⟨h.entries.context, h.entries.started, h.entries.distinct, h.entries.pending,
    h.entries.backoff⟩, ⟨h.calls.once, h.calls.past, h.calls.sends, h.calls.unsent,
    h.calls.timeouts⟩, ?_, ?_⟩, habsent⟩
  · intro id' qc' hmap hfree
    obtain ⟨⟨task, htask, htid, hcb⟩, hsent⟩ := h.armed id' qc' hmap nofun
    rw [hset] at htask
    rcases List.mem_cons.mp htask with rfl | htask
    · rw [hcb] at hfree
      exact absurd rfl hfree
    · exact ⟨⟨task, htask, htid, hcb⟩, hsent⟩
  · intro task htask
    obtain ⟨_, qc', hmap, htid, hnumber⟩ := h.timers task (hin task htask)
    obtain ⟨_, qc'', hmap', htid', _⟩ := h.timers cur (by rw [hset]; exact List.mem_cons_self)
    refine ⟨fun hsame => ?_, qc', hmap, htid, hnumber⟩
    rw [← Option.some.inj hsame, hmap'] at hmap
    obtain rfl := Option.some.inj hmap
    exact habsent task htask (htid.symm.trans htid')

theorem expire_valid (h : s.Valid none) (now later : Int) : (s.expire now later).Valid none := by
  rcases Timer.detach_cases now h.consistent with ⟨hdone, _⟩ | ⟨cur, rest, hset, _, hcall⟩
  · rw [expire, hdone]
    exact h
  · obtain ⟨hdetached, habsent⟩ := detached_valid h hset
    obtain ⟨_, qc, hqc, htid, _⟩ := h.timers cur (by rw [hset]; exact List.mem_cons_self)
    obtain ⟨_, hsent⟩ := h.armed _ qc hqc nofun
    rw [expire, hcall]
    simp only [retransmit, hqc]
    have hsend := sendQuery_valid hdetached hqc (by
      simp only
      omega)
    apply setRetransmitTimer_valid hsend hqc
    · simp only [sendQuery, count_append_singleton, if_true]
      omega
    · intro task htask hsame
      exact habsent task htask (hsame.trans htid)

private theorem stored_valid (h : s.Valid none) {context : QueryContext}
    (hfree : s.queryMap context.id = none) (timerId : Nat) {backoff : ExponentialBackoff}
    (hbackoff : 0 < backoff.interval ∧ 0 < backoff.multiplier) :
    { s with
      started := s.started + 1
      queryMap := Function.update s.queryMap context.id
        (some ⟨context, s.started, timerId, backoff⟩) }.Valid (some context.id) := by
  have hold : ∀ i q, Function.update s.queryMap context.id
      (some ⟨context, s.started, timerId, backoff⟩) i = some q →
      i = context.id ∧ q = ⟨context, s.started, timerId, backoff⟩ ∨
        i ≠ context.id ∧ s.queryMap i = some q := by
    intro i q hfind
    rcases update_some hfind with ⟨rfl, hsame⟩ | hrest
    · exact .inl ⟨rfl, (Option.some.inj hsame).symm⟩
    · exact .inr hrest
  have hnew : ∀ i q, s.queryMap i = some q → q.number ≠ s.started := by
    intro i q hmap
    exact (h.entries.started i q hmap).ne
  refine ⟨h.consistent, h.ids, h.next, ⟨?_, ?_, ?_, ?_, ?_⟩, ⟨h.calls.once, ?_, h.calls.sends, ?_,
    h.calls.timeouts⟩, ?_, ?_⟩
  · intro i q hfind
    rcases hold i q hfind with ⟨rfl, rfl⟩ | ⟨_, hmap⟩
    · rfl
    · exact h.entries.context i q hmap
  · intro i q hfind
    rcases hold i q hfind with ⟨rfl, rfl⟩ | ⟨_, hmap⟩
    · exact Nat.lt_succ_self _
    · exact Nat.lt_succ_of_lt (h.entries.started i q hmap)
  · intro i j q r hi hj hsame
    rcases hold i q hi with ⟨rfl, rfl⟩ | ⟨_, hi'⟩
    · rcases hold j r hj with ⟨rfl, _⟩ | ⟨_, hj'⟩
      · rfl
      · exact absurd hsame.symm (hnew j r hj')
    · rcases hold j r hj with ⟨rfl, rfl⟩ | ⟨_, hj'⟩
      · exact absurd hsame (hnew i q hi')
      · exact h.entries.distinct i j q r hi' hj' hsame
  · intro i q hfind hresolved
    rcases hold i q hfind with ⟨rfl, rfl⟩ | ⟨_, hmap⟩
    · exact absurd (h.calls.past _ hresolved) (Nat.lt_irrefl _)
    · exact h.entries.pending i q hmap hresolved
  · intro i q hfind
    rcases hold i q hfind with ⟨rfl, rfl⟩ | ⟨_, hmap⟩
    · exact hbackoff
    · exact h.entries.backoff i q hmap
  · intro n hresolved
    exact Nat.lt_succ_of_lt (h.calls.past n hresolved)
  · intro n hn
    exact h.calls.unsent n (Nat.le_of_succ_le hn)
  · intro i q hfind hother
    rcases hold i q hfind with ⟨rfl, _⟩ | ⟨_, hmap⟩
    · exact absurd rfl hother
    · obtain ⟨htimer, hsent⟩ := h.armed i q hmap nofun
      exact ⟨htimer, hsent⟩
  · intro task htask
    obtain ⟨_, q, hmap, hentry⟩ := h.timers task htask
    have hne : task.timerCb.id ≠ context.id := by
      intro hsame
      rw [hsame, hfree] at hmap
      cases hmap
    exact ⟨fun hsame => hne (Option.some.inj hsame).symm, q,
      (Function.update_of_ne hne _ _).trans hmap, hentry⟩

theorem doQuery_valid (h : s.Valid none) (now : Int) {context : QueryContext}
    (hfree : s.queryMap context.id = none) : (s.doQuery now context).Valid none := by
  have hbackoff : 0 < (⟨1000, 2, 4⟩ : ExponentialBackoff).interval ∧
      0 < (⟨1000, 2, 4⟩ : ExponentialBackoff).multiplier := by
    simp
  have hstored := stored_valid h hfree 0 hbackoff
  have hunsent : s.sent.count s.started = 0 := h.calls.unsent _ (Nat.le_refl _)
  have hqc := Function.update_self context.id
    (some (⟨context, s.started, 0, ⟨1000, 2, 4⟩⟩ : Pending)) s.queryMap
  have hsend := sendQuery_valid hstored hqc (by
    simp only
    omega)
  apply setRetransmitTimer_valid hsend hqc
  · simp only [sendQuery, count_append_singleton, if_true]
    omega
  · intro task htask
    exact (h.ids task htask).1.ne'

private theorem getRcodeStr_ne_timedOut (rcode : Nat) : getRcodeStr rcode ≠ timedOut := by
  unfold getRcodeStr
  split <;> decide

private theorem unpack_valid (h : s.Valid none) (d : Bytes) (fuel : Nat) (record : Pointer) :
    (s.unpack d fuel record).Valid none := by
  rw [unpack]
  split
  · exact h
  · rename_i reply _
    cases hqc : s.queryMap (Sockops.ntohs (u16 d 0)) with
    | none => exact h
    | some qc =>
        obtain ⟨⟨task, hin, htid, hcb⟩, _⟩ := h.armed _ qc hqc nofun
        apply notify_valid h hqc nofun
        · intro other hother hsame
          have hone : other = task :=
            h.consistent.task_ext hother hin (hsame.trans htid.symm)
          rw [hone, hcb]
        · intro herr
          cases reply with
          | result records => cases herr
          | error rcode => exact absurd (Outcome.error.inj herr) (getRcodeStr_ne_timedOut rcode)

theorem step_valid (s : Resolver) (e : Event) (h : s.Valid none) (hok : s.Allowed e) :
    (s.step e).Valid none := by
  cases e with
  | doQuery now context => exact doQuery_valid h now hok
  | unpack d fuel record => exact unpack_valid h d fuel record
  | expire now later => exact expire_valid h now later

theorem Reachable.valid (h : s.Reachable) : s.Valid none := by
  obtain ⟨events, hrun, rfl⟩ := h
  exact run_invariant step_valid init_valid hrun

private theorem eq_singleton_of_nodup {α : Type*} {l : List α} {a : α} (hnodup : l.Nodup)
    (h : ∀ b, b ∈ l ↔ b = a) : l = [a] :=
  List.perm_singleton.mp ((List.perm_ext_iff_of_nodup hnodup (List.nodup_singleton a)).mpr
    fun b => (h b).trans List.mem_singleton.symm)

private theorem timers_of_entry (h : s.Valid none) (hqc : s.queryMap id = some qc) :
    ∃ task, s.timer.timerSet.filter (fun task => task.timerCb.id = id) = [task] ∧
      task.id = qc.retransmitTimerId := by
  obtain ⟨⟨task, hin, htid, hcb⟩, _⟩ := h.armed id qc hqc nofun
  refine ⟨task, eq_singleton_of_nodup (h.consistent.unique.of_map _ |>.filter _) fun other => ?_, htid⟩
  simp only [List.mem_filter, decide_eq_true_eq]
  constructor
  · rintro ⟨hother, hid⟩
    obtain ⟨_, qc', hqc', htid', _⟩ := h.timers other hother
    rw [hid, hqc] at hqc'
    obtain rfl := Option.some.inj hqc'
    exact h.consistent.task_ext hother hin (htid'.symm.trans htid.symm)
  · rintro rfl
    exact ⟨hin, by rw [hcb]⟩

/-- In every state that any calls lead to: the promise of a query in `query_map`
is not set and exactly one timer is for its id, the one it would cancel; a promise
is set at most once; a query whose promise is set is in `query_map` no more and no
timer is for it; no query is sent more than five times, and one that timed out has
been sent five times. -/
theorem query_life_cycle (h : s.Reachable) :
    (∀ id qc, s.queryMap id = some qc → ¬ s.Resolved qc.number ∧
      ∃ task, s.timer.timerSet.filter (fun task => task.timerCb.id = id) = [task] ∧
        task.id = qc.retransmitTimerId) ∧
    (s.notified.map Prod.fst).Nodup ∧
    (∀ n, s.Resolved n → (∀ id qc, s.queryMap id = some qc → qc.number ≠ n) ∧
      ∀ task ∈ s.timer.timerSet, task.timerCb.number ≠ n) ∧
    ∀ n, s.sent.count n ≤ 5 ∧ ((n, .error timedOut) ∈ s.notified → s.sent.count n = 5) := by
  have hvalid := h.valid
  refine ⟨fun id qc hqc => ⟨hvalid.entries.pending id qc hqc, timers_of_entry hvalid hqc⟩,
    hvalid.calls.once, fun n hn => ⟨?_, ?_⟩,
    fun n => ⟨hvalid.calls.sends n, hvalid.calls.timeouts n⟩⟩
  · rintro id qc hqc rfl
    exact hvalid.entries.pending id qc hqc hn
  · rintro task htask rfl
    obtain ⟨_, qc, hqc, _, hnumber⟩ := hvalid.timers task htask
    exact hvalid.entries.pending _ qc hqc (hnumber ▸ hn)

/-- A query that nobody answers, at the times of its timers. -/
def unanswered : List Event :=
  [.doQuery 0 addressQuery, .expire 1000 1000, .expire 3000 3000, .expire 7000 7000,
    .expire 15000 15000]

private theorem unanswered_admissible : Admissible step Allowed init unanswered :=
  ⟨rfl, trivial, trivial, trivial, trivial, trivial⟩

theorem query_life_cycle_unanswered :
    (run step init unanswered).notified = [(0, .error timedOut)] ∧
    (run step init unanswered).sent.count 0 = 5 ∧
    ∀ task ∈ (run step init unanswered).timer.timerSet, task.timerCb.number ≠ 0 := by
  obtain ⟨_, _, hresolved, hsent⟩ := query_life_cycle ⟨unanswered, unanswered_admissible, rfl⟩
  have hnotified : (run step init unanswered).notified = [(0, .error timedOut)] := by rfl
  have hmem : (0, .error timedOut) ∈ (run step init unanswered).notified := by
    rw [hnotified]
    exact List.mem_singleton_self _
  exact ⟨hnotified, (hsent 0).2 hmem, (hresolved 0 ⟨_, hmem⟩).2⟩

end Resolver

end Dns

end Angel
