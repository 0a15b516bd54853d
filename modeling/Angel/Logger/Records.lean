import Angel.Logger.Format
import Mathlib.Logic.Function.Basic

/-!
The threads that log and the one that flushes, together: each record that `format` makes goes to
`write` whole, and the steps of all threads come in any order. A fatal message ends the process; what
comes behind it is not part of a run.
-/

namespace Angel.Log

open Lib Lib.Store Util

/-- The logger, and the thread-local variables of the threads that use it. -/
structure System where
  threads : Nat → Thread
  logger : Logger

def System.init (tids : Nat → Bytes) (flushTo : FlushFlags) (logRollFileSize : Nat) : System where
  threads := fun i => Thread.init (tids i)
  logger := Logger.init flushTo logRollFileSize

inductive SystemEvent where
  | log (i : Nat) (call : Call)
  | wake
  | flush (r : WriteResult)
  | test
  | quit

section Code

variable (localtime : Nat → Tm)

/-- The macros of `logger.h` ask for the level first. -/
def System.step (s : System) : SystemEvent → Option System
  | .log i call =>
      if isFilter call.logLevel call.level then some s
      else do
        let (t, message) ← (s.threads i).format localtime call
        some { threads := Function.update s.threads i t, logger := s.logger.write message }
  | .wake => some { s with logger := s.logger.step .wake }
  | .flush r => some { s with logger := s.logger.step (.flush r) }
  | .test => some { s with logger := s.logger.step .test }
  | .quit => some { s with logger := s.logger.step .quit }

/-- The record of a step, if it makes one. -/
def SystemEvent.record? (tids : Nat → Bytes) : SystemEvent → Option Bytes
  | .log i call =>
      if isFilter call.logLevel call.level then none else some (record localtime (tids i) call)
  | _ => none

def records (tids : Nat → Bytes) (events : List SystemEvent) : List Bytes :=
  events.filterMap (SystemEvent.record? localtime tids)

/-- A time of four digits for the year, and not in the first second. -/
def SystemEvent.Timed : SystemEvent → Prop
  | .log _ call => 1000 ≤ call.ms ∧ (localtime (call.ms / 1000)).tmYear + 1900 < 10000
  | _ => True

end Code

/-- What is put around the text leaves room for all of the text that is not cut. -/
def SystemEvent.Short (tids : Nat → Bytes) : SystemEvent → Prop
  | .log i call => (cStr call.file).length + (signed call.line).length + (cStr (tids i)).length ≤ 248
  | _ => True

variable {localtime : Nat → Tm} {tids : Nat → Bytes}

private theorem step_messages (l : Logger) {e : Event} (hwrite : ∀ s, e ≠ .write s) :
    (l.step e).messages = l.messages := by
  cases e with
  | write s => exact absurd rfl (hwrite s)
  | wake =>
      unfold Logger.step
      dsimp only
      split
      · exact swap_messages l
      · rfl
  | flush r =>
      unfold Logger.step
      dsimp only
      split
      · exact (flush_stream l r).2
      · rfl
  | test =>
      unfold Logger.step
      dsimp only
      split
      · rfl
      · rfl
  | quit => rfl

/-- The variables of every thread. -/
def System.Sound (localtime : Nat → Tm) (tids : Nat → Bytes) (s : System) : Prop :=
  ∀ i, (s.threads i).Sound localtime (tids i)

/-- One step of a thread or of the flusher: it has a result unless it makes a record that does not
fit, and the record is the one message that comes to the logger. -/
theorem step_record {s : System} (h : s.Sound localtime tids) {e : SystemEvent}
    (htimed : e.Timed localtime) :
    ((∀ r ∈ e.record? localtime tids, r.length < outputBufSize) →
      ∃ s', s.step localtime e = some s' ∧ s'.Sound localtime tids ∧
        s'.logger.messages = s.logger.messages ++ (e.record? localtime tids).toList) ∧
    (∀ r ∈ e.record? localtime tids, outputBufSize ≤ r.length → s.step localtime e = none) := by
  cases e with
  | log i call =>
      unfold System.step SystemEvent.record?
      dsimp only
      split
      · refine ⟨fun _ => ⟨s, rfl, h, (List.append_nil _).symm⟩, nofun⟩
      · obtain ⟨hfits, hfull⟩ := format_spec (h i) htimed.1 htimed.2
        constructor
        · intro hlt
          obtain ⟨t, hformat, ht⟩ := hfits (hlt _ rfl)
          rw [hformat]
          refine ⟨_, rfl, ?_, rfl⟩
          intro j
          obtain rfl | hne := eq_or_ne j i
          · simpa using ht
          · simpa [hne] using h j
        · intro r hr hle
          obtain rfl := Option.some.inj hr
          rw [hfull hle]
          rfl
  | wake =>
      refine ⟨fun _ => ⟨_, rfl, h, ?_⟩, by simp [SystemEvent.record?]⟩
      exact (step_messages s.logger (e := .wake) nofun).trans (List.append_nil _).symm
  | flush r =>
      refine ⟨fun _ => ⟨_, rfl, h, ?_⟩, by simp [SystemEvent.record?]⟩
      exact (step_messages s.logger (e := .flush r) nofun).trans (List.append_nil _).symm
  | test =>
      refine ⟨fun _ => ⟨_, rfl, h, ?_⟩, by simp [SystemEvent.record?]⟩
      exact (step_messages s.logger (e := .test) nofun).trans (List.append_nil _).symm
  | quit =>
      refine ⟨fun _ => ⟨_, rfl, h, ?_⟩, by simp [SystemEvent.record?]⟩
      exact (step_messages s.logger (e := .quit) nofun).trans (List.append_nil _).symm

theorem foldlM_records {s : System} (h : s.Sound localtime tids) {events : List SystemEvent}
    (htimed : ∀ e ∈ events, e.Timed localtime) :
    (events.foldlM (System.step localtime) s).map (·.logger.messages) =
      if ∀ r ∈ records localtime tids events, r.length < outputBufSize then
        some (s.logger.messages ++ records localtime tids events)
      else none := by
  induction events generalizing s with
  | nil => simp [records]
  | cons e events ih =>
      obtain ⟨hfirst, hrest⟩ := List.forall_mem_cons.mp htimed
      obtain ⟨hfits, hfull⟩ := step_record h hfirst
      rw [List.foldlM_cons]
      cases hrecord : e.record? localtime tids with
      | none =>
          obtain ⟨s', hstep, hs', hmessages⟩ := hfits (by simp [hrecord])
          have hlist : records localtime tids (e :: events) = records localtime tids events :=
            List.filterMap_cons_none hrecord
          rw [hrecord, Option.toList_none, List.append_nil] at hmessages
          rw [hstep, hlist, ← hmessages]
          exact ih hs' hrest
      | some r =>
          have hlist : records localtime tids (e :: events) = r :: records localtime tids events :=
            List.filterMap_cons_some hrecord
          rw [hlist]
          obtain hlt | hge := Nat.lt_or_ge r.length outputBufSize
          · obtain ⟨s', hstep, hs', hmessages⟩ := hfits (by simpa [hrecord] using hlt)
            rw [hrecord, Option.toList_some] at hmessages
            have hrun := ih hs' hrest
            rw [hmessages, List.append_assoc, List.singleton_append] at hrun
            rw [hstep]
            simp only [List.forall_mem_cons, hlt, true_and]
            exact hrun
          · rw [hfull r hrecord hge]
            have hnot : ¬ ∀ r' ∈ r :: records localtime tids events, r'.length < outputBufSize :=
              fun hall => Nat.not_lt.mpr hge (hall r List.mem_cons_self)
            rw [if_neg hnot]
            rfl

/-- In every run the messages of the logger are the records of the calls, each with its own time,
whatever the buffers of the threads held before; a run ends at a record that does not fit. -/
theorem records_exact (flushTo : FlushFlags) (logRollFileSize : Nat) {events : List SystemEvent}
    (htimed : ∀ e ∈ events, e.Timed localtime) :
    (events.foldlM (System.step localtime) (System.init tids flushTo logRollFileSize)).map
        (·.logger.messages) =
      if ∀ r ∈ records localtime tids events, r.length < outputBufSize then
        some (records localtime tids events)
      else none :=
  foldlM_records (fun _ => sound_init) htimed

/-- Two messages of one second. -/
theorem records_exact_cached :
    (([.log 0 ⟨.info, ascii "a.cc", 7, ascii "x", .info, 1999⟩,
      .log 0 ⟨.warn, ascii "a.cc", 8, ascii "", .info, 1005⟩] : List SystemEvent).foldlM
        (System.step fun _ => ⟨70, 0, 1, 0, 0, 1⟩)
        (System.init (fun _ => ascii "1") .stdout 1024)).map (·.logger.messages) =
      some [ascii "INFO:  1970-01-01 00:00:01.999 x - a.cc:7 - 1\n",
        ascii "WARN:  1970-01-01 00:00:01.005  - a.cc:8 - 1\n"] := by
  rw [records_exact]
  · rfl
  · simp [SystemEvent.Timed]

private theorem record_length {tid : Bytes} {call : Call}
    (hyear : (localtime (call.ms / 1000)).tmYear + 1900 < 10000) :
    (record localtime tid call).length =
      39 + (cStr (call.text.take (outputBufSize - 256 - 31 - 1))).length +
        ((cStr call.file).length + (signed call.line).length + (cStr tid).length) := by
  have hblank : (ascii " ").length = 1 := rfl
  have hcolon : (ascii ":").length = 1 := rfl
  have hdash : (ascii " - ").length = 3 := rfl
  simp only [record, List.length_append, List.length_singleton, getLevelStr_length,
    timeText_length hyear, hblank, hcolon, hdash]
  omega

/-- The 256 bytes that `format` keeps back are enough for all texts, or not for the longest. -/
theorem fits_iff_short {i : Nat} {call : Call}
    (hyear : (localtime (call.ms / 1000)).tmYear + 1900 < 10000) :
    (∀ text, (record localtime (tids i) { call with text := text }).length < outputBufSize) ↔
      (SystemEvent.log i call).Short tids := by
  have hsize : outputBufSize = 65536 := rfl
  have hlen : ∀ text, (record localtime (tids i) { call with text := text }).length =
      39 + (cStr (text.take (outputBufSize - 256 - 31 - 1))).length +
        ((cStr call.file).length + (signed call.line).length + (cStr (tids i)).length) :=
    fun text => record_length hyear
  unfold SystemEvent.Short
  constructor
  · intro hfits
    have hlong := hfits (List.replicate (outputBufSize - 256 - 31 - 1) 32)
    have hfree : 0 ∉ List.replicate (outputBufSize - 256 - 31 - 1) (32 : UInt8) := fun hmem =>
      absurd (List.eq_of_mem_replicate hmem) (by decide)
    rw [hlen, List.take_of_length_le List.length_replicate.le, cStr_free hfree,
      List.length_replicate] at hlong
    omega
  · intro hshort text
    have hcut : (cStr (text.take (outputBufSize - 256 - 31 - 1))).length ≤ 65248 :=
      (cStr_front _).length_le.trans (List.length_take_le _ _)
    rw [hlen]
    dsimp only at hshort
    omega

theorem record?_fits {e : SystemEvent} (htimed : e.Timed localtime) (hshort : e.Short tids) :
    ∀ r ∈ e.record? localtime tids, r.length < outputBufSize := by
  cases e with
  | log i call =>
      intro r hr
      unfold SystemEvent.record? at hr
      dsimp only at hr
      split at hr
      · exact nomatch hr
      · obtain rfl := Option.some.inj hr
        exact (fits_iff_short htimed.2).mpr hshort call.text
  | wake | flush | test | quit => simp [SystemEvent.record?]

private theorem not_swaps {l : Logger} (h : Flushed l) (e : Event) : ¬ e.SwapsRemainder l := by
  rintro ⟨_, hphase, _, hflush⟩
  apply hflush
  apply h
  rw [hphase]
  exact nofun

private theorem step_logger {s s' : System} {e : SystemEvent}
    (hstep : s.step localtime e = some s') :
    s'.logger = s.logger ∨
      ∃ e', s'.logger = s.logger.step e' ∧ (e' = .flush .failed → e = .flush .failed) := by
  cases e with
  | log i call =>
      unfold System.step at hstep
      dsimp only at hstep
      split at hstep
      · exact .inl (Option.some.inj hstep ▸ rfl)
      · obtain ⟨⟨t, message⟩, _, hnext⟩ := Option.bind_eq_some_iff.mp hstep
        obtain rfl := Option.some.inj hnext
        exact .inr ⟨.write message, rfl, nofun⟩
  | wake => exact .inr ⟨.wake, Option.some.inj hstep ▸ rfl, nofun⟩
  | flush r =>
      refine .inr ⟨.flush r, Option.some.inj hstep ▸ rfl, ?_⟩
      rintro ⟨⟩
      rfl
  | test => exact .inr ⟨.test, Option.some.inj hstep ▸ rfl, nofun⟩
  | quit => exact .inr ⟨.quit, Option.some.inj hstep ▸ rfl, nofun⟩

/-- On a healthy disk the log is at every moment the front of the records, and all of them once
both buffers are empty: no text, however long, is lost or mixed with another. -/
theorem log_holds_records (flushTo : FlushFlags) (logRollFileSize : Nat) {events : List SystemEvent}
    (hcalls : ∀ e ∈ events, e.Timed localtime ∧ e.Short tids)
    (hdisk : .flush .failed ∉ events) :
    ∃ s, events.foldlM (System.step localtime) (System.init tids flushTo logRollFileSize) = some s ∧
      s.logger.output <+: (records localtime tids events).flatten ∧
      (s.logger.flushBuf = [] → s.logger.writeBuf = [] →
        s.logger.output = (records localtime tids events).flatten) := by
  have hfits : ∀ r ∈ records localtime tids events, r.length < outputBufSize := by
    intro r hr
    obtain ⟨e, he, hrecord⟩ := List.mem_filterMap.mp hr
    exact record?_fits (hcalls e he).1 (hcalls e he).2 r hrecord
  have hrun := foldlM_records (s := System.init tids flushTo logRollFileSize)
    (fun _ => sound_init) fun e he => (hcalls e he).1
  rw [if_pos hfits] at hrun
  obtain ⟨s, hs, hmessages⟩ := Option.map_eq_some_iff.mp hrun
  have hinv : Ordered s.logger ∧ Flushed s.logger := by
    have htrace := trace_of_foldlM (R := fun s e s' => System.step localtime s e = some s') (f := id)
      (g := id) (fun _ _ _ hstep => hstep) hs
    rw [List.map_id] at htrace
    have hstart : Ordered (Logger.init flushTo logRollFileSize) ∧
        Flushed (Logger.init flushTo logRollFileSize) := ⟨rfl, fun _ => rfl⟩
    refine htrace.keeps (P := fun s : System => Ordered s.logger ∧ Flushed s.logger) ?_ hstart
    rintro s e s' he hstep ⟨hordered, hflushed⟩
    obtain hsame | ⟨e', hlogger, hfailed⟩ := step_logger hstep
    · rw [hsame]
      exact ⟨hordered, hflushed⟩
    · rw [hlogger]
      exact ⟨ordered_step hordered (not_swaps hflushed e'),
        flushed_step hflushed fun h => hdisk (hfailed h ▸ he)⟩
  have hstream : s.logger.stream = (records localtime tids events).flatten :=
    hinv.1.trans (congrArg List.flatten hmessages)
  refine ⟨s, hs, ?_, ?_⟩
  · rw [← hstream, Logger.stream, List.append_assoc]
    exact List.prefix_append _ _
  · intro hflush hwrite
    rw [← hstream, Logger.stream, hflush, hwrite, List.append_nil, List.append_nil]

/-- Two threads, and a `::write` that takes a part. -/
theorem log_holds_records_two :
    ∃ s, ([.log 0 ⟨.info, ascii "a.cc", 7, ascii "x", .info, 1999⟩, .wake, .flush (.wrote 5),
        .log 1 ⟨.error, ascii "b.cc", 9, ascii "", .info, 2000⟩] : List SystemEvent).foldlM
          (System.step fun _ => ⟨70, 0, 1, 0, 0, 1⟩) (System.init (fun _ => ascii "1") .file 1024) =
            some s ∧
      s.logger.output <+: (records (fun _ => ⟨70, 0, 1, 0, 0, 1⟩) (fun _ => ascii "1")
        [.log 0 ⟨.info, ascii "a.cc", 7, ascii "x", .info, 1999⟩, .wake, .flush (.wrote 5),
          .log 1 ⟨.error, ascii "b.cc", 9, ascii "", .info, 2000⟩]).flatten ∧
      (s.logger.flushBuf = [] → s.logger.writeBuf = [] →
        s.logger.output = (records (fun _ => ⟨70, 0, 1, 0, 0, 1⟩) (fun _ => ascii "1")
          [.log 0 ⟨.info, ascii "a.cc", 7, ascii "x", .info, 1999⟩, .wake, .flush (.wrote 5),
            .log 1 ⟨.error, ascii "b.cc", 9, ascii "", .info, 2000⟩]).flatten) := by
  apply log_holds_records
  · simp [SystemEvent.Timed, SystemEvent.Short]
    decide
  · simp

end Angel.Log
