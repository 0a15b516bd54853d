import Mathlib.Data.List.Basic
import Mathlib.Tactic.Common

/-!
Runs of a deterministic machine. An event list drives a step function; a run
is admissible when every event is allowed in the state it is taken from. The
invariant rule reduces a statement about all states of such runs to one step.
-/

namespace Angel.Lib

variable {σ ε : Type*}

/-- The state after a list of events. -/
def run (step : σ → ε → σ) (s : σ) (events : List ε) : σ := events.foldl step s

@[simp] theorem run_nil (step : σ → ε → σ) (s : σ) : run step s [] = s := rfl

@[simp] theorem run_cons (step : σ → ε → σ) (s : σ) (e : ε) (events : List ε) :
    run step s (e :: events) = run step (step s e) events := rfl

theorem run_append (step : σ → ε → σ) (s : σ) (first second : List ε) :
    run step s (first ++ second) = run step (run step s first) second :=
  List.foldl_append

/-- Two machines whose steps keep a relation are related behind runs of the same events. -/
theorem run_related {τ δ : Type*} {step : σ → ε → σ} {step' : τ → δ → τ} {R : σ → τ → Prop}
    {g : ε → δ} (hstep : ∀ s t e, R s t → R (step s e) (step' t (g e))) {s : σ} {t : τ}
    (events : List ε) (hstart : R s t) : R (run step s events) (run step' t (events.map g)) := by
  induction events generalizing s t with
  | nil => exact hstart
  | cons e events ih => exact ih (hstep s t e hstart)

/-- Every event of the run is allowed in the state it is taken from. -/
def Admissible (step : σ → ε → σ) (ok : σ → ε → Prop) : σ → List ε → Prop
  | _, [] => True
  | s, e :: events => ok s e ∧ Admissible step ok (step s e) events

instance decidableAdmissible (step : σ → ε → σ) (ok : σ → ε → Prop) [∀ s e, Decidable (ok s e)] :
    (s : σ) → (events : List ε) → Decidable (Admissible step ok s events)
  | _, [] => inferInstanceAs (Decidable True)
  | s, e :: events =>
      have := decidableAdmissible step ok (step s e) events
      inferInstanceAs (Decidable (_ ∧ _))

/-- An invariant of the allowed steps holds at the end of every admissible
run, and so, runs being closed under prefixes, in every state reached. -/
theorem run_invariant {step : σ → ε → σ} {ok : σ → ε → Prop} {Inv : σ → Prop}
    (hstep : ∀ s e, Inv s → ok s e → Inv (step s e)) {s : σ} {events : List ε}
    (hstart : Inv s) (hrun : Admissible step ok s events) :
    Inv (run step s events) := by
  induction events generalizing s with
  | nil => exact hstart
  | cons e events ih => exact ih (hstep s e hstart hrun.1) hrun.2

theorem admissible_append {step : σ → ε → σ} {ok : σ → ε → Prop} {s : σ} {first second : List ε} :
    Admissible step ok s (first ++ second) ↔
      Admissible step ok s first ∧ Admissible step ok (run step s first) second := by
  induction first generalizing s with
  | nil => simp [Admissible]
  | cons e first ih => simp [Admissible, ih, and_assoc]

theorem admissible_true (step : σ → ε → σ) (s : σ) (events : List ε) :
    Admissible step (fun _ _ => True) s events := by
  induction events generalizing s with
  | nil => trivial
  | cons e events ih => exact ⟨trivial, ih (step s e)⟩

/-- Where an invariant turns one condition on the steps into another, so it does for whole
runs. -/
theorem admissible_of_invariant {step : σ → ε → σ} {ok ok' : σ → ε → Prop} {Inv : σ → Prop}
    (hstep : ∀ s e, Inv s → ok s e → Inv (step s e) ∧ ok' s e) {s : σ} {events : List ε}
    (hstart : Inv s) (hrun : Admissible step ok s events) : Admissible step ok' s events := by
  induction events generalizing s with
  | nil => trivial
  | cons e events ih =>
      obtain ⟨hnext, hok⟩ := hstep s e hstart hrun.1
      exact ⟨hok, ih hnext hrun.2⟩

/-- A machine that a map takes to another: conditions on the steps of the other can be read
off its own runs. -/
theorem admissible_map {τ δ : Type*} {step : σ → ε → σ} {step' : τ → δ → τ} {f : σ → τ} {g : ε → δ}
    (hf : ∀ s e, f (step s e) = step' (f s) (g e)) {P : τ → δ → Prop} {s : σ} {events : List ε} :
    Admissible step (fun s e => P (f s) (g e)) s events ↔
      Admissible step' P (f s) (events.map g) := by
  induction events generalizing s with
  | nil => exact Iff.rfl
  | cons e events ih => simp only [Admissible, List.map_cons, ih, hf]

/-- Two conditions that an invariant makes the same for a step are the same for whole runs,
where steps that meet them keep the invariant. -/
theorem admissible_congr {step : σ → ε → σ} {ok P Q : σ → ε → Prop} {Inv : σ → Prop}
    (hsame : ∀ s e, Inv s → ok s e → (P s e ↔ Q s e))
    (hinv : ∀ s e, Inv s → ok s e → Q s e → Inv (step s e)) {s : σ} {events : List ε}
    (hstart : Inv s) (hrun : Admissible step ok s events) :
    Admissible step P s events ↔ Admissible step Q s events := by
  induction events generalizing s with
  | nil => exact Iff.rfl
  | cons e events ih =>
      obtain ⟨hok, hrest⟩ := hrun
      have hfirst := hsame s e hstart hok
      constructor
      · rintro ⟨hp, hps⟩
        have hq := hfirst.mp hp
        exact ⟨hq, (ih (hinv s e hstart hok hq) hrest).mp hps⟩
      · rintro ⟨hq, hqs⟩
        exact ⟨hfirst.mpr hq, (ih (hinv s e hstart hok hq) hrest).mpr hqs⟩

/-- A machine whose steps may have no result refines one that always takes its step, if each
of its steps has a result that stays related. -/
theorem foldlM_refines {τ : Type*} {step : σ → ε → Option σ} {step' : τ → ε → τ} {R : σ → τ → Prop}
    {ok : ε → Prop}
    (hstep : ∀ s t e, R s t → ok e → ∃ s', step s e = some s' ∧ R s' (step' t e)) {s : σ} {t : τ}
    {events : List ε} (hstart : R s t) (hok : ∀ e ∈ events, ok e) :
    ∃ s', events.foldlM step s = some s' ∧ R s' (run step' t events) := by
  induction events generalizing s t with
  | nil => exact ⟨s, rfl, hstart⟩
  | cons e events ih =>
      obtain ⟨hfirst, hrest⟩ := List.forall_mem_cons.mp hok
      obtain ⟨s₁, hs₁, hnext⟩ := hstep s t e hstart hfirst
      obtain ⟨s', hs', hend⟩ := ih hnext hrest
      refine ⟨s', ?_, hend⟩
      rw [List.foldlM_cons, hs₁]
      exact hs'

end Angel.Lib
