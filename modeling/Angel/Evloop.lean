import Angel.Lib.Run
import Mathlib.Tactic.Common

/-!
The task queue of `evloop.cc`. Any thread appends to `functors` under the mutex
and wakes the loop thread through a socket pair; the loop thread takes the whole
vector at once, also under the mutex, and runs it without.

`queue_in_loop` writes a byte only for the first functor of an empty vector, and
`wakeup_read` takes one byte an iteration. No wake-up is lost for all that, because
the vector is taken after the byte has been read and before the next wait.
-/

namespace Angel.Evloop

open Lib

/-- Where the loop thread is in `run`. -/
inductive Phase where
  | stopped
  /-- at the test of `is_quit` -/
  | top
  /-- at `dispatcher->wait` -/
  | waiting
  /-- over the active channels; `woken` when the wake channel is still to come -/
  | handling (woken : Bool)
  /-- at the swap of `do_functors` -/
  | swapping (drain : Bool)
  /-- over the swapped functors -/
  | running (drain : Bool)
  /-- at the test of the loop behind the quit -/
  | draining
  deriving DecidableEq, Repr

/-- The byte of the functors in the vector may have been read: the loop is between
`wakeup_read` and the swap. -/
def Phase.AfterRead : Phase → Prop
  | .handling false => True
  | .swapping false => True
  | _ => False

/-- The loop and its queue, with all the functors that have been queued and that
have been run; `φ` is the type of the functors. -/
structure State (φ : Type) where
  functors : List φ
  tfuncs : List φ
  wakePair : List UInt8
  isQuit : Bool
  phase : Phase
  queued : List φ
  ran : List φ
  deriving Repr

/-- `written` tells whether `write` put its byte into the pair. -/
inductive Event (φ : Type) where
  | queue (f : φ) (written : Bool)
  | quit (written : Bool)
  | run
  | check
  /-- `wait` returns, with or without the wake channel among the active ones -/
  | wait (woken : Bool)
  | wakeupRead
  | handled
  | swap
  | call
  | drain

namespace State

variable {φ : Type} {s : State φ}

def init : State φ where
  functors := []
  tfuncs := []
  wakePair := []
  isQuit := false
  phase := .stopped
  queued := []
  ran := []

def wakeup (v : UInt8) (written : Bool) (s : State φ) : State φ :=
  if written then { s with wakePair := s.wakePair ++ [v] } else s

def wakeupRead (s : State φ) : State φ :=
  match s.wakePair with
  | [] => s
  | v :: rest => { s with wakePair := rest, isQuit := s.isQuit || v ≠ 0 }

def queueInLoop (f : φ) (written : Bool) (s : State φ) : State φ :=
  let s := { s with functors := s.functors ++ [f], queued := s.queued ++ [f] }
  if s.functors.length = 1 then s.wakeup 0 written else s

def step (s : State φ) : Event φ → State φ
  | .queue f written => s.queueInLoop f written
  | .quit written => s.wakeup 1 written
  | .run => { s with isQuit := false, phase := .top }
  | .check => { s with phase := if s.isQuit then .draining else .waiting }
  | .wait woken => { s with phase := .handling woken }
  | .wakeupRead => { s.wakeupRead with phase := .handling false }
  | .handled => { s with phase := .swapping false }
  | .swap =>
      match s.phase with
      | .swapping drain =>
          { s with functors := [], tfuncs := s.functors, phase := .running drain }
      | _ => s
  | .call =>
      match s.phase, s.tfuncs with
      | .running _, f :: rest => { s with tfuncs := rest, ran := s.ran ++ [f] }
      | .running drain, [] => { s with phase := if drain then .draining else .top }
      | _, _ => s
  | .drain => { s with phase := if s.functors.isEmpty then .stopped else .swapping true }

/-- When an event can happen. A functor can be queued, and the loop told to quit,
at any moment and by any thread, functors and handlers included. A write fails only
on a full pair. -/
def Allowed (s : State φ) : Event φ → Prop
  | .queue _ written => written ∨ s.wakePair ≠ []
  | .quit written => written ∨ s.wakePair ≠ []
  | .run => s.phase = .stopped
  | .check => s.phase = .top
  | .wait _ => s.phase = .waiting
  | .wakeupRead => s.phase = .handling true
  | .handled => s.phase = .handling false
  | .swap => ∃ drain, s.phase = .swapping drain
  | .call => ∃ drain, s.phase = .running drain
  | .drain => s.phase = .draining

def Reachable (s : State φ) : Prop :=
  ∃ events, Admissible step Allowed init events ∧ s = Lib.run step init events

/-- What holds between two steps: nothing is lost, and functors without an unread
byte are about to be taken. -/
structure Valid (s : State φ) : Prop where
  order : s.ran ++ s.tfuncs ++ s.functors = s.queued
  taken : (∀ drain, s.phase ≠ .running drain) → s.tfuncs = []
  awake : s.functors ≠ [] → s.wakePair = [] → s.phase.AfterRead

theorem init_valid : (init : State φ).Valid :=
  ⟨rfl, fun _ => rfl, fun h => absurd rfl h⟩

private theorem wakeup_pair (v : UInt8) {written : Bool} (h : written ∨ s.wakePair ≠ []) :
    (s.wakeup v written).wakePair ≠ [] := by
  unfold wakeup
  split
  · simp
  case isFalse hfail => exact h.resolve_left hfail

theorem wakeup_eq (v : UInt8) (written : Bool) :
    ∃ pair, s.wakeup v written = { s with wakePair := pair } ∧ (s.wakePair ≠ [] → pair ≠ []) := by
  unfold wakeup
  split
  · exact ⟨_, rfl, by simp⟩
  · exact ⟨_, rfl, id⟩

/-- A functor that comes into an empty vector brings a byte with it; one that joins
others relies on theirs. -/
theorem queueInLoop_valid (f : φ) {written : Bool} (h : s.Valid)
    (hok : written ∨ s.wakePair ≠ []) : (s.queueInLoop f written).Valid := by
  have horder : s.ran ++ s.tfuncs ++ (s.functors ++ [f]) = s.queued ++ [f] := by
    rw [← h.order, List.append_assoc (s.ran ++ s.tfuncs)]
  cases hempty : s.functors with
  | nil =>
      set s' : State φ := { s with functors := s.functors ++ [f], queued := s.queued ++ [f] } with hs'
      have hfirst : s.queueInLoop f written = s'.wakeup 0 written := by
        simp [queueInLoop, hs', hempty]
      have hpair : (s'.wakeup 0 written).wakePair ≠ [] := wakeup_pair 0 hok
      obtain ⟨pair, hwakeup, -⟩ := wakeup_eq (s := s') 0 written
      rw [hwakeup] at hpair
      rw [hfirst, hwakeup]
      exact ⟨horder, h.taken, fun _ hnone => absurd hnone hpair⟩
  | cons first rest =>
      have hjoin : s.queueInLoop f written =
          { s with functors := s.functors ++ [f], queued := s.queued ++ [f] } := by
        simp [queueInLoop, hempty]
      rw [hjoin]
      exact ⟨horder, h.taken, fun _ hnone => h.awake (by simp [hempty]) hnone⟩

theorem Valid.moves (h : s.Valid) (htaken : s.tfuncs = []) (hread : ¬ s.phase.AfterRead)
    (phase : Phase) (isQuit : Bool) : ({ s with phase := phase, isQuit := isQuit } : State φ).Valid :=
  ⟨h.order, fun _ => htaken, fun hf hnone => absurd (h.awake hf hnone) hread⟩

private theorem step_valid (s : State φ) (e : Event φ) (h : s.Valid) (hok : s.Allowed e) :
    (s.step e).Valid := by
  cases e with
  | queue f written => exact queueInLoop_valid f h hok
  | quit written =>
      obtain ⟨pair, hwakeup, hpair⟩ := wakeup_eq (s := s) 1 written
      simp only [step, hwakeup]
      refine ⟨h.order, h.taken, ?_⟩
      intro hfunctors hnone
      by_cases hold : s.wakePair = []
      · exact h.awake hfunctors hold
      · exact absurd hnone (hpair hold)
  | run =>
      have hphase : s.phase = .stopped := hok
      exact h.moves (h.taken (by simp [hphase])) (by simp [hphase, Phase.AfterRead]) _ _
  | check =>
      have hphase : s.phase = .top := hok
      exact h.moves (h.taken (by simp [hphase])) (by simp [hphase, Phase.AfterRead]) _ _
  | wait woken =>
      have hphase : s.phase = .waiting := hok
      exact h.moves (h.taken (by simp [hphase])) (by simp [hphase, Phase.AfterRead]) _ _
  | wakeupRead =>
      have hphase : s.phase = .handling true := hok
      have htaken := h.taken (by simp [hphase])
      -- the byte may be the last one: from here to the swap nothing stands for the functors
      have hread : s.wakeupRead.ran = s.ran ∧ s.wakeupRead.tfuncs = s.tfuncs ∧
          s.wakeupRead.functors = s.functors ∧ s.wakeupRead.queued = s.queued := by
        unfold wakeupRead
        split <;> exact ⟨rfl, rfl, rfl, rfl⟩
      obtain ⟨hran, htfuncs, hfunctors, hqueued⟩ := hread
      refine ⟨?_, fun _ => htfuncs.trans htaken, fun _ _ => trivial⟩
      simp only [step, hran, htfuncs, hfunctors, hqueued]
      exact h.order
  | handled =>
      have hphase : s.phase = .handling false := hok
      exact ⟨h.order, fun _ => h.taken (by simp [hphase]), fun _ _ => trivial⟩
  | swap =>
      obtain ⟨drain, hphase⟩ := hok
      have htaken := h.taken (by simp [hphase])
      have horder := h.order
      rw [htaken, List.append_nil] at horder
      simp only [step, hphase]
      refine ⟨?_, fun hnot => absurd rfl (hnot drain), fun hf => absurd rfl hf⟩
      rw [List.append_nil]
      exact horder
  | call =>
      obtain ⟨drain, hphase⟩ := hok
      have hread : ¬ s.phase.AfterRead := by simp [hphase, Phase.AfterRead]
      cases htfuncs : s.tfuncs with
      | nil =>
          have hmove := h.moves htfuncs hread (if drain then .draining else .top) s.isQuit
          simpa only [step, hphase, htfuncs] using hmove
      | cons f rest =>
          have horder := h.order
          rw [htfuncs] at horder
          simp only [step, hphase, htfuncs]
          refine ⟨?_, fun hnot => absurd rfl (hnot drain), fun hf hnone => ?_⟩
          · rw [List.append_assoc s.ran]
            exact horder
          · exact absurd (h.awake hf hnone) hread
  | drain =>
      have hphase : s.phase = .draining := hok
      exact h.moves (h.taken (by simp [hphase])) (by simp [hphase, Phase.AfterRead]) _ _

theorem Reachable.valid (hs : s.Reachable) : s.Valid := by
  obtain ⟨events, hrun, rfl⟩ := hs
  exact run_invariant step_valid init_valid hrun

private theorem stopped_cases {e : Event φ} (hbefore : s.phase ≠ .stopped)
    (hafter : (s.step e).phase = .stopped) : e = .drain ∧ s.functors = [] := by
  cases e with
  | queue f written =>
      refine absurd hafter ?_
      simp only [step, queueInLoop]
      split
      · obtain ⟨pair, hwakeup, -⟩ :=
          wakeup_eq (s := { s with functors := s.functors ++ [f], queued := s.queued ++ [f] })
            0 written
        rw [hwakeup]
        exact hbefore
      · exact hbefore
  | quit written =>
      obtain ⟨pair, hwakeup, -⟩ := wakeup_eq (s := s) 1 written
      simp only [step, hwakeup] at hafter
      exact absurd hafter hbefore
  | run => simp [step] at hafter
  | check =>
      simp only [step] at hafter
      split at hafter <;> simp at hafter
  | wait woken => simp [step] at hafter
  | wakeupRead => simp [step] at hafter
  | handled => simp [step] at hafter
  | swap =>
      simp only [step] at hafter
      split at hafter
      · simp at hafter
      · exact absurd hafter hbefore
  | call =>
      simp only [step] at hafter
      split at hafter
      · exact absurd hafter hbefore
      · split at hafter <;> simp at hafter
      · exact absurd hafter hbefore
  | drain =>
      refine ⟨rfl, ?_⟩
      simp only [step] at hafter
      split at hafter
      case isTrue hempty => simpa using hempty
      case isFalse => simp at hafter

/-- In every interleaving what has been run, then what has been swapped out, then
what is in the vector are the functors queued so far, in their order; a loop that
waits with functors in the vector has an unread byte; and all that was queued has
been run when `run` returns. -/
theorem functors_in_order (hs : s.Reachable) :
    s.ran ++ s.tfuncs ++ s.functors = s.queued ∧
    (s.phase = .waiting → s.functors ≠ [] → s.wakePair ≠ []) ∧
    ∀ e, s.Allowed e → s.phase ≠ .stopped → (s.step e).phase = .stopped →
      (s.step e).ran = (s.step e).queued := by
  have hvalid := hs.valid
  refine ⟨hvalid.order, ?_, ?_⟩
  · intro hphase hfunctors hnone
    have hread := hvalid.awake hfunctors hnone
    rw [hphase] at hread
    exact hread
  · intro e hok hbefore hafter
    obtain ⟨rfl, hempty⟩ := stopped_cases hbefore hafter
    have hphase : s.phase = .draining := hok
    have horder := hvalid.order
    rw [hvalid.taken (by simp [hphase]), hempty, List.append_nil, List.append_nil] at horder
    exact horder

/-- A functor queued between the read of the byte and the swap goes with the first,
and the quit byte is still unread when the loop waits again. -/
def sharedByte : List (Event Nat) :=
  [.run, .check, .queue 1 true, .wait true, .wakeupRead, .queue 2 true, .handled, .quit true,
    .swap, .call, .queue 3 true, .call, .call, .check]

theorem functors_in_order_shared :
    ((Lib.run step init sharedByte).phase = .waiting ∧
      (Lib.run step init sharedByte).ran = [1, 2] ∧
      (Lib.run step init sharedByte).functors = [3]) ∧
    (Lib.run step init sharedByte).wakePair ≠ [] := by
  have hreachable : (Lib.run step init sharedByte).Reachable :=
    ⟨sharedByte, by simp [sharedByte, Admissible, Allowed, step, init, queueInLoop, wakeup,
      wakeupRead], rfl⟩
  exact ⟨⟨rfl, rfl, rfl⟩, (functors_in_order hreachable).2.1 rfl (by decide)⟩

end State

end Angel.Evloop
