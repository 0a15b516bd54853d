import Angel.Basic
import Angel.Lib.Run
import Mathlib.Data.List.Perm.Basic
import Mathlib.Tactic.Common

/-!
`logger`: threads that write messages and one thread that flushes them. `write` holds the mutex
from beginning to end and is one step; what the flusher does under the mutex is one step, and so
is each `::write` of `flush`. The steps of the threads come in any order, and the wait of the
flusher may end at any time. Log files can be opened.
-/

namespace Angel.Log

open Lib

/-- `flush_flags`. -/
inductive FlushFlags where
  | file
  | stdout
  deriving DecidableEq, Repr

/-- What one `::write` returns: how much of the buffer was taken, or -1. -/
inductive WriteResult where
  | wrote (n : Nat)
  | failed
  deriving DecidableEq, Repr

/-- Where the flusher is in `thread_func`. -/
inductive Phase where
  | waiting
  | flushing
  /-- in front of the test of `is_quit` -/
  | testing
  | ended
  deriving DecidableEq, Repr

/-- The members of `logger` that writing and flushing use, with the contents of the files that
have been rolled over, that of the current one, and the messages in the order in which `write`
took the mutex. -/
structure Logger where
  writeBuf : Bytes
  flushBuf : Bytes
  phase : Phase
  isQuit : Bool
  flushTo : FlushFlags
  rolled : List Bytes
  curFile : Bytes
  curFileSize : Nat
  logRollFileSize : Nat
  messages : List Bytes
  deriving DecidableEq, Repr

def Logger.init (flushTo : FlushFlags) (logRollFileSize : Nat) : Logger where
  writeBuf := []
  flushBuf := []
  phase := .waiting
  isQuit := false
  flushTo := flushTo
  rolled := []
  curFile := []
  curFileSize := 0
  logRollFileSize := logRollFileSize
  messages := []

/-- The bytes written to the log. -/
def Logger.output (l : Logger) : Bytes := l.rolled.flatten ++ l.curFile

def Logger.write (l : Logger) (s : Bytes) : Logger :=
  { l with writeBuf := l.writeBuf ++ s, messages := l.messages ++ [s] }

/-- `write_buf.swap(flush_buf)`, unless nothing has been written. -/
def Logger.swap (l : Logger) : Logger :=
  if l.writeBuf ≠ [] then { l with writeBuf := l.flushBuf, flushBuf := l.writeBuf } else l

/-- The flusher takes the mutex back, swaps and looks at what there is to flush. -/
def Logger.wake (l : Logger) : Logger :=
  let l := l.swap
  { l with phase := if l.flushBuf ≠ [] then .flushing else .testing }

def Logger.rollFile (l : Logger) : Logger :=
  if l.logRollFileSize ≤ l.curFileSize then
    { l with rolled := l.rolled ++ [l.curFile], curFile := [], curFileSize := 0 }
  else l

/-- The end of `flush`, behind its loop. -/
def Logger.endFlush (l : Logger) : Logger :=
  let l := if l.flushTo = .file then l.rollFile else l
  { l with phase := .testing }

/-- A `::write` that took `n` bytes. -/
def Logger.take (l : Logger) (n : Nat) : Logger :=
  { l with
    curFile := l.curFile ++ l.flushBuf.take n
    curFileSize := l.curFileSize + (l.flushBuf.take n).length
    flushBuf := l.flushBuf.drop n }

/-- One pass of the loop in `flush`. -/
def Logger.flush (l : Logger) (r : WriteResult) : Logger :=
  match r with
  | .failed => l.endFlush
  | .wrote n =>
      let l := l.take n
      if l.flushBuf ≠ [] then l else l.endFlush

inductive Event where
  | write (s : Bytes)
  | wake
  | flush (r : WriteResult)
  | test
  | quit
  deriving DecidableEq, Repr

/-- The flusher makes only the step it has come to. -/
def Logger.step (l : Logger) : Event → Logger
  | .write s => l.write s
  | .wake => if l.phase = .waiting then l.wake else l
  | .flush r => if l.phase = .flushing then l.flush r else l
  | .test =>
      if l.phase = .testing then { l with phase := if l.isQuit then .ended else .waiting } else l
  | .quit => { l with isQuit := true }

/-- What has been written and what is still buffered, in the order in which it would come. -/
def Logger.stream (l : Logger) : Bytes := l.output ++ l.flushBuf ++ l.writeBuf

@[simp] theorem endFlush_output (l : Logger) : l.endFlush.output = l.output := by
  unfold Logger.endFlush Logger.rollFile Logger.output
  dsimp only
  split
  · split
    · simp
    · rfl
  · rfl

@[simp] theorem endFlush_buffers (l : Logger) :
    l.endFlush.flushBuf = l.flushBuf ∧ l.endFlush.writeBuf = l.writeBuf := by
  unfold Logger.endFlush Logger.rollFile
  dsimp only
  split
  · split
    · exact ⟨rfl, rfl⟩
    · exact ⟨rfl, rfl⟩
  · exact ⟨rfl, rfl⟩

@[simp] theorem endFlush_messages (l : Logger) : l.endFlush.messages = l.messages := by
  unfold Logger.endFlush Logger.rollFile
  dsimp only
  split
  · split
    · rfl
    · rfl
  · rfl

private theorem take_stream (l : Logger) (n : Nat) : (l.take n).stream = l.stream := by
  unfold Logger.stream Logger.output Logger.take
  dsimp only
  rw [← List.append_assoc, List.append_assoc _ (l.flushBuf.take n), List.take_append_drop]

private theorem endFlush_stream (l : Logger) : l.endFlush.stream = l.stream := by
  unfold Logger.stream
  rw [endFlush_output, (endFlush_buffers l).1, (endFlush_buffers l).2]

/-- However a `::write` ends, what it took and what it left are still in order. -/
theorem flush_stream (l : Logger) (r : WriteResult) :
    (l.flush r).stream = l.stream ∧ (l.flush r).messages = l.messages := by
  cases r with
  | failed => exact ⟨endFlush_stream l, endFlush_messages l⟩
  | wrote n =>
      unfold Logger.flush
      dsimp only
      split
      · exact ⟨take_stream l n, rfl⟩
      · exact ⟨(endFlush_stream _).trans (take_stream l n), endFlush_messages _⟩

theorem swap_stream {l : Logger} (h : l.writeBuf ≠ [] → l.flushBuf = []) :
    l.swap.stream = l.stream := by
  unfold Logger.swap
  split
  · next hwrite =>
      unfold Logger.stream Logger.output
      dsimp only
      rw [h hwrite, List.append_nil, List.append_nil]
  · rfl

private theorem swap_perm (l : Logger) : l.swap.stream.Perm l.stream := by
  unfold Logger.swap
  split
  · unfold Logger.stream
    rw [List.append_assoc, List.append_assoc]
    exact List.perm_append_comm.append_left _
  · exact List.Perm.refl _

theorem swap_messages (l : Logger) : l.swap.messages = l.messages := by
  unfold Logger.swap
  split
  · rfl
  · rfl

/-- Nothing is lost or written twice, in whatever order the messages come out. -/
theorem stream_perm (flushTo : FlushFlags) (logRollFileSize : Nat) (events : List Event) :
    (run Logger.step (Logger.init flushTo logRollFileSize) events).stream.Perm
      (run Logger.step (Logger.init flushTo logRollFileSize) events).messages.flatten := by
  have hstep : ∀ (l : Logger) (e : Event), l.stream.Perm l.messages.flatten → True →
      (l.step e).stream.Perm (l.step e).messages.flatten := by
    intro l e h _
    cases e with
    | write s =>
        have hwrite := h.append_right s
        simpa [Logger.stream, Logger.step, Logger.write, Logger.output] using hwrite
    | wake =>
        unfold Logger.step
        dsimp only
        split
        · have hswap := (swap_perm l).trans h
          rw [← swap_messages l] at hswap
          exact hswap
        · exact h
    | flush r =>
        unfold Logger.step
        dsimp only
        split
        · rw [(flush_stream l r).1, (flush_stream l r).2]
          exact h
        · exact h
    | test =>
        unfold Logger.step
        dsimp only
        split
        · exact h
        · exact h
    | quit => exact h
  exact run_invariant hstep (List.Perm.refl _) (admissible_true _ _ events)

/-- A swap of two buffers that hold something: the flusher has left a flush with a failed
`::write`, and messages have come since. -/
def Event.SwapsRemainder (l : Logger) (e : Event) : Prop :=
  e = .wake ∧ l.phase = .waiting ∧ l.writeBuf ≠ [] ∧ l.flushBuf ≠ []

/-- Every message is in the log or in the buffers, in the order of the `write` calls. -/
def Ordered (l : Logger) : Prop := l.stream = l.messages.flatten

theorem ordered_step {l : Logger} {e : Event} (h : Ordered l) (hok : ¬ e.SwapsRemainder l) :
    Ordered (l.step e) := by
  cases e with
  | write s =>
      unfold Ordered Logger.stream at h
      simp [Ordered, Logger.stream, Logger.step, Logger.write, Logger.output, ← h]
  | wake =>
      unfold Logger.step
      dsimp only
      split
      · next hphase =>
          have hempty : l.writeBuf ≠ [] → l.flushBuf = [] := by
            intro hwrite
            by_contra hflush
            exact hok ⟨rfl, hphase, hwrite, hflush⟩
          have hstream := swap_stream hempty
          unfold Ordered at h
          rw [← hstream, ← swap_messages l] at h
          exact h
      · exact h
  | flush r =>
      unfold Logger.step
      dsimp only
      split
      · unfold Ordered
        rw [(flush_stream l r).1, (flush_stream l r).2]
        exact h
      · exact h
  | test =>
      unfold Logger.step
      dsimp only
      split
      · exact h
      · exact h
  | quit => exact h

/-- Unless a `::write` fails, a flush leaves nothing behind. -/
def Flushed (l : Logger) : Prop := l.phase ≠ .flushing → l.flushBuf = []

theorem flushed_step {l : Logger} {e : Event} (h : Flushed l) (hok : e ≠ .flush .failed) :
    Flushed (l.step e) := by
  cases e with
  | write s => exact h
  | wake =>
      unfold Logger.step
      dsimp only
      split
      · intro hphase
        by_contra hflush
        apply hphase
        change (if l.swap.flushBuf ≠ [] then Phase.flushing else .testing) = .flushing
        exact if_pos hflush
      · exact h
  | flush r =>
      unfold Logger.step
      dsimp only
      split
      · next hphase =>
          cases r with
          | failed => exact absurd rfl hok
          | wrote n =>
              unfold Logger.flush
              dsimp only
              split
              · intro hleft
                exact absurd hphase hleft
              · next hempty =>
                  intro _
                  rw [(endFlush_buffers _).1]
                  simpa using hempty
      · exact h
  | test =>
      unfold Logger.step
      dsimp only
      split
      · next hphase =>
          intro _
          apply h
          rw [hphase]
          decide
      · exact h
  | quit => exact h

theorem no_remainder_without_failure (flushTo : FlushFlags) (logRollFileSize : Nat)
    {events : List Event}
    (hrun : Admissible Logger.step (fun _ e => e ≠ .flush .failed)
      (Logger.init flushTo logRollFileSize) events) :
    Admissible Logger.step (fun l e => ¬ Event.SwapsRemainder l e)
      (Logger.init flushTo logRollFileSize) events := by
  have hstep : ∀ (l : Logger) (e : Event), Flushed l → e ≠ .flush .failed →
      Flushed (l.step e) ∧ ¬ e.SwapsRemainder l := by
    intro l e h hok
    refine ⟨flushed_step h hok, ?_⟩
    rintro ⟨_, hphase, _, hflush⟩
    apply hflush
    apply h
    rw [hphase]
    decide
  have hstart : Flushed (Logger.init flushTo logRollFileSize) := fun _ => rfl
  exact admissible_of_invariant hstep hstart hrun

/-- In every run in which no swap puts an unflushed remainder behind newer messages, the log is
at every moment a prefix of the messages in the order of the `write` calls. -/
theorem log_is_prefix (flushTo : FlushFlags) (logRollFileSize : Nat) (events : List Event)
    (hrun : Admissible Logger.step (fun l e => ¬ Event.SwapsRemainder l e)
      (Logger.init flushTo logRollFileSize) events) :
    (run Logger.step (Logger.init flushTo logRollFileSize) events).output <+:
      (run Logger.step (Logger.init flushTo logRollFileSize) events).messages.flatten := by
  have hstep : ∀ (l : Logger) (e : Event), Ordered l → ¬ e.SwapsRemainder l →
      Ordered (l.step e) := fun _ _ h hok => ordered_step h hok
  have hordered : Ordered (run Logger.step (Logger.init flushTo logRollFileSize) events) :=
    run_invariant hstep rfl hrun
  unfold Ordered Logger.stream at hordered
  rw [← hordered, List.append_assoc]
  exact List.prefix_append _ _

/-- A remainder that a later flush gets rid of in time, with the file rolled over in between. -/
theorem log_is_prefix_after_failure :
    (run Logger.step (Logger.init .file 1)
      [.write [1, 2], .wake, .flush (.wrote 1), .flush .failed, .test, .wake, .write [3],
        .flush (.wrote 1), .test, .wake]).output <+:
    (run Logger.step (Logger.init .file 1)
      [.write [1, 2], .wake, .flush (.wrote 1), .flush .failed, .test, .wake, .write [3],
        .flush (.wrote 1), .test, .wake]).messages.flatten := by
  apply log_is_prefix
  refine ⟨?_, ?_, ?_, ?_, ?_, ?_, ?_, ?_, ?_, ?_, trivial⟩
  all_goals simp [Event.SwapsRemainder]
  all_goals decide

/-- After a `::write` that failed the next swap brings the newer message to the front. -/
theorem newer_message_first :
    ¬ (run Logger.step (Logger.init .file 1024)
      [.write [1], .wake, .flush .failed, .test, .write [2], .wake, .flush (.wrote 1)]).output <+:
    (run Logger.step (Logger.init .file 1024)
      [.write [1], .wake, .flush .failed, .test, .write [2], .wake,
        .flush (.wrote 1)]).messages.flatten := by
  decide

end Angel.Log
