import Angel.Lib.Run

/-!
Runs of a machine whose steps may have no result. An event list is admissible when every event
is allowed in the state it is taken from, as far as the run goes. Where an invariant makes every
allowed step have a result, a whole run has one.
-/

namespace Angel.Lib

variable {σ ε : Type*}

/-- Every event of the run is allowed in the state it is taken from, if there is one. -/
def AdmissibleM (step : σ → ε → Option σ) (ok : σ → ε → Prop) : σ → List ε → Prop
  | _, [] => True
  | s, e :: events => ok s e ∧ ∀ s', step s e = some s' → AdmissibleM step ok s' events

theorem AdmissibleM.cons {step : σ → ε → Option σ} {ok : σ → ε → Prop} {s s' : σ} {e : ε}
    {events : List ε} (hok : ok s e) (hstep : step s e = some s')
    (hrest : AdmissibleM step ok s' events) : AdmissibleM step ok s (e :: events) := by
  refine ⟨hok, ?_⟩
  intro next hnext
  rw [hstep, Option.some.injEq] at hnext
  exact hnext ▸ hrest

theorem admissibleM_append {step : σ → ε → Option σ} {ok : σ → ε → Prop} {s : σ}
    {first second : List ε} :
    AdmissibleM step ok s (first ++ second) ↔ AdmissibleM step ok s first ∧
      ∀ s', first.foldlM step s = some s' → AdmissibleM step ok s' second := by
  induction first generalizing s with
  | nil => simp [AdmissibleM]
  | cons e first ih =>
      cases hnext : step s e with
      | none => simp [AdmissibleM, hnext]
      | some next => simp [AdmissibleM, hnext, ih, and_assoc]

/-- An invariant under which every allowed step has a result, and keeps it, does so for runs. -/
theorem foldlM_invariant {step : σ → ε → Option σ} {ok : σ → ε → Prop} {Inv : σ → Prop}
    (hstep : ∀ s e, Inv s → ok s e → ∃ s', step s e = some s' ∧ Inv s') {s : σ} {events : List ε}
    (hstart : Inv s) (hrun : AdmissibleM step ok s events) :
    ∃ s', events.foldlM step s = some s' ∧ Inv s' := by
  induction events generalizing s with
  | nil => exact ⟨s, rfl, hstart⟩
  | cons e events ih =>
      obtain ⟨hok, hrest⟩ := hrun
      obtain ⟨next, hnext, hinv⟩ := hstep s e hstart hok
      obtain ⟨s', hs', hend⟩ := ih hinv (hrest next hnext)
      refine ⟨s', ?_, hend⟩
      rw [List.foldlM_cons, hnext]
      exact hs'

/-- What a condition on the steps says of their events holds of all events of a run. -/
theorem forall_mem_of_admissible {step : σ → ε → σ} {ok : σ → ε → Prop} {P : ε → Prop}
    (hok : ∀ s e, ok s e → P e) {s : σ} {events : List ε} (hrun : Admissible step ok s events) :
    ∀ e ∈ events, P e := by
  induction events generalizing s with
  | nil => exact nofun
  | cons e events ih => exact List.forall_mem_cons.mpr ⟨hok s e hrun.1, ih hrun.2⟩

/-- The runs of a step relation. -/
inductive Trace (R : σ → ε → σ → Prop) : σ → List ε → σ → Prop where
  | nil (s : σ) : Trace R s [] s
  | cons {s s' s'' : σ} {e : ε} {events : List ε} (first : R s e s') (rest : Trace R s' events s'') :
      Trace R s (e :: events) s''

/-- A machine whose steps a relation allows, up to a map of the states and the events, has runs
that the relation allows. -/
theorem trace_of_foldlM {τ δ : Type*} {step : σ → ε → Option σ} {R : τ → δ → τ → Prop} {f : σ → τ}
    {g : ε → δ} (hstep : ∀ s e s', step s e = some s' → R (f s) (g e) (f s')) {s s' : σ}
    {events : List ε} (hrun : events.foldlM step s = some s') :
    Trace R (f s) (events.map g) (f s') := by
  induction events generalizing s with
  | nil =>
      obtain rfl : s = s' := Option.some.inj hrun
      exact .nil _
  | cons e events ih =>
      rw [List.foldlM_cons] at hrun
      obtain ⟨mid, hmid, hrest⟩ := Option.bind_eq_some_iff.mp hrun
      exact .cons (hstep s e mid hmid) (ih hrest)

theorem Trace.keeps {R : σ → ε → σ → Prop} {P : σ → Prop} {s s' : σ} {events : List ε}
    (h : Trace R s events s') (hstep : ∀ s e s', e ∈ events → R s e s' → P s → P s') (hs : P s) :
    P s' := by
  induction h with
  | nil s => exact hs
  | cons first _ ih =>
      refine ih ?_ (hstep _ _ _ List.mem_cons_self first hs)
      intro s e s' hmem
      exact hstep s e s' (List.mem_cons_of_mem _ hmem)

end Angel.Lib
