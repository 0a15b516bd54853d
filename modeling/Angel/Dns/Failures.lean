import Angel.Dns.Queries

/-!
How a failed query is told from an answered one. `err_notify` sets the type of its
record to `Error`, which is looked up in the enumeration of the events of a channel,
and not to `ERROR`.
-/

namespace Angel.Dns

open Angel.Lib

/-- `angel::Error`. -/
def eventError : Nat := 0x04

/-- `dns::ERROR`. -/
def typeError : Nat := 128

/-- The record that a pointer of a result leads to, where that is known. -/
def Pointer.base : Pointer → Option RrBase
  | .to record => some record.base
  | _ => none

/-- The records that the future of a query gives: `err_notify` makes one `rr_base`. -/
def Outcome.records : Outcome → List (Option RrBase)
  | .result records => records.map Pointer.base
  | .error err => [some ⟨ascii err, eventError, 0, 0, 0⟩]

/-- A record that is not of the type `ERROR`. -/
def Unmarked (base : Option RrBase) : Prop := ∃ rr ∈ base, rr.type ≠ typeError

section

variable (d : Bytes) (fuel : Nat)

/-- The types of the next `n` records that the server has sent. -/
def sentTypes : (n p : Nat) → List Nat
  | 0, _ => []
  | n + 1, p =>
      match parseRrBase d fuel p with
      | .error _ => []
      | .ok (rr, start) => rr.type :: sentTypes n (start + rr.len)

/-- The cursor behind the question. -/
def answerStart : Option Nat := (parseDname d fuel 12).toOption.map fun r => r.2 + 4

/-- The types of the answers in a datagram. -/
def answerTypes : List Nat :=
  match answerStart d fuel with
  | none => []
  | some p => sentTypes d fuel (Sockops.ntohs (u16 d 6)) p

/-- The first answer is one that the `switch` makes no record of. -/
def FirstUnknown : Prop := ∃ type ∈ (answerTypes d fuel).head?, RrType.ofCode type = none

end

section

variable {d : Bytes} {fuel : Nat}

theorem unmarked_of_known {rr : RrBase} {type : RrType} {rdata : Rdata}
    (h : RrType.ofCode rr.type = some type) : Unmarked (Pointer.base (.to ⟨rr, rdata⟩)) := by
  refine ⟨rr, rfl, ?_⟩
  intro htype
  rw [htype] at h
  cases h

private theorem records_unmarked {n p stop : Nat} {record : Pointer} {res : List Pointer}
    (h : parseAnswerRrsFrom d fuel n p record = .ok (res, stop)) (hrecord : Unmarked record.base) :
    ∀ held ∈ res, Unmarked held.base := by
  induction n generalizing p record res with
  | zero =>
      cases h
      exact nofun
  | succ n ih =>
      obtain ⟨held, cur, rest, hpass, hrest, rfl⟩ := parseAnswerRrsFrom_succ h
      have hheld : Unmarked held.base := by
        obtain ⟨rr, start, _, ⟨_, rfl, _⟩ | ⟨type, rdata, hknown, _, rfl⟩⟩ := answerPass_cases hpass
        · exact hrecord
        · exact unmarked_of_known hknown
      exact List.forall_mem_cons.mpr ⟨hheld, ih hrest hheld⟩

/-- The records have no mark exactly when the first one is made of an answer, or the
pointer leads to such a record as the call found it. -/
theorem records_unmarked_iff {n p stop : Nat} {record : Pointer} {res : List Pointer}
    (h : parseAnswerRrsFrom d fuel n p record = .ok (res, stop)) :
    (∀ held ∈ res, Unmarked held.base) ↔
      ((∃ type ∈ (sentTypes d fuel n p).head?, RrType.ofCode type = none) → Unmarked record.base) := by
  cases n with
  | zero =>
      cases h
      refine iff_of_true nofun ?_
      rintro ⟨type, htype, _⟩
      cases htype
  | succ n =>
      obtain ⟨held, cur, rest, hpass, hrest, rfl⟩ := parseAnswerRrsFrom_succ h
      obtain ⟨rr, start, hbase, hcases⟩ := answerPass_cases hpass
      have hhead : (sentTypes d fuel (n + 1) p).head? = some rr.type := by
        simp only [sentTypes, hbase, List.head?_cons]
      simp only [hhead, Option.mem_def, Option.some.injEq, exists_eq_left']
      rcases hcases with ⟨hunknown, rfl, _⟩ | ⟨type, rdata, hknown, _, rfl⟩
      · rw [imp_iff_right hunknown]
        exact ⟨fun hall => hall _ List.mem_cons_self, records_unmarked h⟩
      · have hheld : Unmarked (Pointer.base (.to ⟨rr, rdata⟩)) := unmarked_of_known hknown
        refine iff_of_true (List.forall_mem_cons.mpr ⟨hheld, records_unmarked hrest hheld⟩) ?_
        rw [hknown]
        exact nofun

end

section

variable {d : Bytes} {fuel : Nat} {queryMap : Nat → Option QueryContext} {record : Pointer}

/-- The header of a response with an error code. -/
def ErrorCode (d : Bytes) : Prop :=
  12 ≤ d.length ∧ (d.getD 2 0) >>> 7 ≠ 0 ∧ (d.getD 3 0) &&& 0x0f ≠ 0

theorem unpackFrom_error {qc : QueryContext} (h : ErrorCode d)
    (hqc : queryMap (Sockops.ntohs (u16 d 0)) = some qc) :
    ∃ rcode, unpackFrom d fuel queryMap record = .ok (qc, .error rcode) := by
  obtain ⟨hlength, hqr, hrcode⟩ := h
  refine ⟨((d.getD 3 0) &&& 0x0f).toNat, ?_⟩
  rw [unpackFrom, if_neg (Nat.not_lt.mpr hlength)]
  simp only [if_neg hqr, hqc, ne_eq, hrcode, not_false_eq_true, if_true]

theorem unpackFrom_ok {qc : QueryContext} {reply : Reply}
    (h : unpackFrom d fuel queryMap record = .ok (qc, reply)) :
    queryMap (Sockops.ntohs (u16 d 0)) = some qc ∧
      (ErrorCode d ∧ (∃ rcode, reply = .error rcode) ∨
        ¬ ErrorCode d ∧ ∃ p stop res, answerStart d fuel = some p ∧
          parseAnswerRrsFrom d fuel (Sockops.ntohs (u16 d 6)) p record = .ok (res, stop) ∧
          reply = .result res) := by
  rw [unpackFrom] at h
  split at h
  · cases h
  next hlength =>
  simp only at h
  split at h
  · cases h
  next hqr =>
  split at h
  · cases h
  next qc' hqc =>
  split at h
  · next hrcode =>
      cases h
      exact ⟨hqc, .inl ⟨⟨Nat.le_of_not_lt hlength, hqr, hrcode⟩, _, rfl⟩⟩
  next hrcode =>
  split at h
  · cases h
  obtain ⟨⟨name, p⟩, hname, h⟩ := bind_eq_ok.mp h
  simp only at h
  split at h
  · cases h
  split at h
  · cases h
  obtain ⟨⟨res, stop⟩, hres, h⟩ := bind_eq_ok.mp h
  simp only at h
  split at h
  · cases h
  cases h
  refine ⟨hqc, .inr ⟨fun herror => hrcode herror.2.2, p + 4, stop, res, ?_, hres, rfl⟩⟩
  rw [answerStart, hname]
  rfl

end

namespace Resolver

/-- The ways in which the query of this number can fail: an error code in a response
to it, and a timer when it has been sent again as often as it may be. -/
def Fails (s : Resolver) : Event → Nat → Prop
  | .doQuery _ _, _ => False
  | .unpack d _ _, number =>
      ErrorCode d ∧ ∃ qc, s.queryMap (Sockops.ntohs (u16 d 0)) = some qc ∧ qc.number = number
  | .expire now _, number =>
      ∃ cur timer qc, s.timer.detach now = .call cur timer ∧
        s.queryMap cur.timerCb.id = some qc ∧ qc.backoff.maxRetries = 0 ∧ qc.number = number

/-- The call sets the promise of the query of this number. -/
def Notifies (s : Resolver) (e : Event) (number : Nat) (res : Outcome) : Prop :=
  (s.step e).notified = s.notified ++ [(number, res)]

/-- The types of the answers that the server has sent. -/
def Event.answerTypes : Event → List Nat
  | .unpack d fuel _ => Dns.answerTypes d fuel
  | _ => []

/-- A failed query gives one record of the type `ERROR`, and an answered one gives such
a record only if the server has sent one. -/
structure Recognised (s : Resolver) (e : Event) : Prop where
  failed : ∀ number, s.Fails e number → ∃ res rr, s.Notifies e number res ∧
    res.records = [some rr] ∧ rr.type = typeError
  answered : ∀ number res, s.Notifies e number res → ¬ s.Fails e number →
    typeError ∉ e.answerTypes → ∀ base ∈ res.records, Unmarked base

/-- An answer that is accepted has a first record that no pass has made. -/
def Strays (s : Resolver) : Event → Prop
  | .unpack d fuel record =>
      FirstUnknown d fuel ∧ ¬ Unmarked record.base ∧ typeError ∉ Dns.answerTypes d fuel ∧
        ∃ qc res, unpackFrom d fuel (fun id => (s.queryMap id).map Pending.context) record =
          .ok (qc, .result res)
  | _ => False

variable {s : Resolver} {e : Event}

theorem setRetransmitTimer_silent {qc : Pending} (now : Int) (hinterval : qc.backoff.interval ≠ 0)
    (hretries : qc.backoff.maxRetries ≠ 0) :
    (s.setRetransmitTimer now qc).notified = s.notified := by
  rw [setRetransmitTimer, ExponentialBackoff.nextBackOff, if_neg hretries]
  simp only [if_neg hinterval]

theorem setRetransmitTimer_times_out {qc : Pending} (now : Int) (hretries : qc.backoff.maxRetries = 0) :
    (s.setRetransmitTimer now qc).notified = s.notified ++ [(qc.number, .error timedOut)] := by
  rw [setRetransmitTimer, ExponentialBackoff.nextBackOff, if_pos hretries]
  rfl

/-- What a call tells the queries: nothing; one that it has failed; or one its answer. -/
inductive Tells (s : Resolver) (e : Event) : Prop where
  | nothing (hfails : ∀ number, ¬ s.Fails e number) (hstrays : ¬ s.Strays e)
      (h : (s.step e).notified = s.notified)
  | failure {number : Nat} {err : String} (hfails : s.Fails e number)
      (h : s.Notifies e number (.error err))
  | answer {number : Nat} {d : Bytes} {fuel : Nat} {record : Pointer} {res : List Pointer}
      (he : e = .unpack d fuel record) (hfails : ∀ number, ¬ s.Fails e number)
      (hok : ∃ qc, unpackFrom d fuel (fun id => (s.queryMap id).map Pending.context) record =
        .ok (qc, .result res))
      (h : s.Notifies e number (.result res))

private theorem tells_unpack (s : Resolver) (d : Bytes) (fuel : Nat) (record : Pointer) :
    Tells s (.unpack d fuel record) := by
  cases hunpack : unpackFrom d fuel (fun id => (s.queryMap id).map Pending.context) record with
  | error refusal =>
      refine .nothing ?_ ?_ ?_
      · rintro number ⟨herror, qc, hqc, _⟩
        have hcontext : (s.queryMap (Sockops.ntohs (u16 d 0))).map Pending.context = some qc.context := by
          rw [hqc]
          rfl
        obtain ⟨rcode, hok⟩ : ∃ rcode, unpackFrom d fuel
            (fun id => (s.queryMap id).map Pending.context) record = .ok (qc.context, .error rcode) :=
          unpackFrom_error herror hcontext
        rw [hunpack] at hok
        cases hok
      · rintro ⟨_, _, _, qc, res, hok⟩
        rw [hunpack] at hok
        cases hok
      · rw [step, unpack, hunpack]
  | ok r =>
      obtain ⟨context, reply⟩ := r
      obtain ⟨hcontext, hcases⟩ := unpackFrom_ok hunpack
      obtain ⟨qc, hqc, rfl⟩ := Option.map_eq_some_iff.mp hcontext
      have hstep : (s.step (.unpack d fuel record)).notified =
          s.notified ++ [(qc.number, reply.outcome)] := by
        rw [step, unpack, hunpack]
        simp only [hqc, notify]
      rcases hcases with ⟨herror, rcode, rfl⟩ | ⟨hno, p, stop, res, _, _, rfl⟩
      · have hnotifies : s.Notifies (.unpack d fuel record) qc.number (.error (getRcodeStr rcode)) :=
          hstep
        exact .failure ⟨herror, qc, hqc, rfl⟩ hnotifies
      · exact .answer rfl (fun number hfails => hno hfails.1) ⟨_, hunpack⟩ hstep

private theorem tells_expire (h : s.Valid none) (now later : Int) :
    Tells s (.expire now later) := by
  rcases Timer.detach_cases now h.consistent with ⟨hdone, _⟩ | ⟨cur, rest, hset, _, hcall⟩
  · refine .nothing ?_ id ?_
    · rintro number ⟨cur, timer, qc, hcall, _⟩
      rw [hdone] at hcall
      cases hcall
    · rw [step, expire, hdone]
  · obtain ⟨_, qc, hqc, _, _⟩ := h.timers cur (by rw [hset]; exact List.mem_cons_self)
    have hinterval := (h.entries.backoff _ qc hqc).1.ne'
    have hstep : s.step (.expire now later) =
        (({ s with timer := ⟨rest, Function.update s.timer.timerMap cur.id none⟩ } : Resolver).sendQuery
          qc).setRetransmitTimer later qc := by
      rw [step, expire, hcall]
      simp only [retransmit, hqc]
    by_cases hretries : qc.backoff.maxRetries = 0
    · have hnotifies : s.Notifies (.expire now later) qc.number (.error timedOut) := by
        rw [Notifies, hstep, setRetransmitTimer_times_out later hretries]
        rfl
      exact .failure ⟨cur, _, qc, hcall, hqc, hretries, rfl⟩ hnotifies
    · refine .nothing ?_ id ?_
      · rintro number ⟨cur', timer', qc', hcall', hqc', hretries', _⟩
        rw [hcall] at hcall'
        cases hcall'
        rw [hqc] at hqc'
        cases hqc'
        exact hretries hretries'
      · rw [hstep, setRetransmitTimer_silent later hinterval hretries]
        rfl

theorem tells (h : s.Valid none) (e : Event) : Tells s e := by
  cases e with
  | doQuery now context =>
      refine .nothing (fun _ => id) id ?_
      rw [step, doQuery]
      exact setRetransmitTimer_silent now (by simp) (by simp)
  | unpack d fuel record => exact tells_unpack s d fuel record
  | expire now later => exact tells_expire h now later

theorem Notifies.unique {number number' : Nat} {res res' : Outcome} (h : s.Notifies e number res)
    (h' : s.Notifies e number' res') : number = number' ∧ res = res' := by
  rw [Notifies, h] at h'
  have hlast := List.append_cancel_left h'
  simp only [List.cons.injEq, Prod.mk.injEq, and_true] at hlast
  exact hlast

theorem not_notifies {number : Nat} {res : Outcome} (h : (s.step e).notified = s.notified) :
    ¬ s.Notifies e number res := by
  intro hnotifies
  rw [Notifies, h] at hnotifies
  have hlength := congrArg List.length hnotifies
  rw [List.length_append, List.length_singleton] at hlength
  omega

theorem not_recognised_failure {number : Nat} {err : String} (hfails : s.Fails e number)
    (h : s.Notifies e number (.error err)) : ¬ s.Recognised e := by
  intro hrecognised
  obtain ⟨res, rr, hnotifies, hrecords, htype⟩ := hrecognised.failed number hfails
  obtain ⟨_, rfl⟩ := h.unique hnotifies
  simp only [Outcome.records, List.cons.injEq, Option.some.injEq, and_true] at hrecords
  rw [← hrecords] at htype
  have hsame : eventError = typeError := htype
  exact absurd hsame (by decide)

private theorem recognised_answer_iff {number : Nat} {d : Bytes} {fuel : Nat} {record : Pointer}
    {res : List Pointer} (hfails : ∀ number, ¬ s.Fails (.unpack d fuel record) number)
    (hok : ∃ qc, unpackFrom d fuel (fun id => (s.queryMap id).map Pending.context) record =
      .ok (qc, .result res))
    (h : s.Notifies (.unpack d fuel record) number (.result res)) :
    s.Recognised (.unpack d fuel record) ↔ ¬ s.Strays (.unpack d fuel record) := by
  obtain ⟨qc, hqc⟩ := hok
  obtain ⟨_, ⟨_, _, hreply⟩ | ⟨_, p, stop, res', hstart, hparse, hreply⟩⟩ := unpackFrom_ok hqc
  · cases hreply
  obtain rfl := Reply.result.inj hreply
  have hfirst : FirstUnknown d fuel ↔ ∃ type ∈ (sentTypes d fuel (Sockops.ntohs (u16 d 6)) p).head?,
      RrType.ofCode type = none := by
    rw [FirstUnknown, Dns.answerTypes, hstart]
  have hunmarked := records_unmarked_iff hparse
  rw [← hfirst] at hunmarked
  have hrecords : (∀ base ∈ (Outcome.result res).records, Unmarked base) ↔
      (FirstUnknown d fuel → Unmarked record.base) := by
    rw [← hunmarked]
    simp only [Outcome.records, List.forall_mem_map]
  constructor
  · rintro hrecognised ⟨hunknown, hmarked, hsent, _⟩
    have hall := hrecognised.answered number _ h (hfails number) hsent
    exact hmarked (hrecords.mp hall hunknown)
  · intro hstrays
    refine ⟨fun number' hfails' => absurd hfails' (hfails number'), ?_⟩
    intro number' outcome hnotifies _ hsent
    obtain ⟨_, rfl⟩ := h.unique hnotifies
    refine hrecords.mpr fun hunknown => ?_
    by_contra hmarked
    exact hstrays ⟨hunknown, hmarked, hsent, qc, res, hqc⟩

private theorem recognised_iff (h : s.Valid none) (e : Event) :
    s.Recognised e ↔ (∀ number, ¬ s.Fails e number) ∧ ¬ s.Strays e := by
  cases tells h e with
  | nothing hfails hstrays hsame =>
      refine iff_of_true ⟨fun number hfail => absurd hfail (hfails number), ?_⟩ ⟨hfails, hstrays⟩
      intro number res hnotifies
      exact absurd hnotifies (not_notifies hsame)
  | failure hfails hnotifies =>
      exact iff_of_false (not_recognised_failure hfails hnotifies) fun h => h.1 _ hfails
  | answer he hfails hok hnotifies =>
      subst he
      rw [and_iff_right hfails]
      exact recognised_answer_iff hfails hok hnotifies

/-- In a run of calls every failed query is recognisable, and no answered one is taken
for failed, exactly when no query fails and no answer begins with a record that no pass
has made. -/
theorem failures_recognised_iff {events : List Event} (hrun : Admissible step Allowed init events) :
    Admissible step Recognised init events ↔
      Admissible step (fun s e => (∀ number, ¬ s.Fails e number) ∧ ¬ s.Strays e) init events :=
  admissible_congr (fun _ e h _ => recognised_iff h e) (fun s e h hok _ => step_valid s e h hok)
    init_valid hrun

/-- A query that is answered. -/
def answered : List Event := [.doQuery 0 addressQuery, .unpack addressResponse 3 .stray]

theorem failures_recognised_answered : Admissible step Recognised init answered := by
  have htypes : (Dns.answerTypes addressResponse 3).head? = some 1 := by decide
  have hrun : Admissible step Allowed init answered := ⟨rfl, trivial, trivial⟩
  refine (failures_recognised_iff hrun).mpr ⟨⟨fun _ => id, id⟩, ⟨?_, ?_⟩, trivial⟩
  · rintro number ⟨herror, _⟩
    exact absurd herror.2.2 (by decide)
  · rintro ⟨⟨type, htype, hunknown⟩, _⟩
    rw [htypes] at htype
    obtain rfl := Option.some.inj htype
    cases hunknown

/-- The reply that the name does not exist. -/
def nameError : Bytes := [0x12, 0x34, 0x81, 0x83, 0x00, 0x01, 0x00, 0x00, 0x00, 0x00, 0x00, 0x00]

/-- A query for a name that does not exist gives a record of the type 4. -/
theorem failures_recognised_fails :
    Admissible step Allowed init [.doQuery 0 addressQuery, .unpack nameError 0 .stray] ∧
      ¬ Admissible step Recognised init [.doQuery 0 addressQuery, .unpack nameError 0 .stray] := by
  refine ⟨⟨rfl, trivial, trivial⟩, ?_⟩
  rintro ⟨_, hrecognised, _⟩
  have herror : ErrorCode nameError := ⟨by decide, by decide, by decide⟩
  have hfails : (init.step (.doQuery 0 addressQuery)).Fails (.unpack nameError 0 .stray) 0 :=
    ⟨herror, _, rfl, rfl⟩
  have hnotifies : (init.step (.doQuery 0 addressQuery)).Notifies (.unpack nameError 0 .stray) 0
      (.error "Name Error") := rfl
  exact not_recognised_failure hfails hnotifies hrecognised

end Resolver

end Angel.Dns
