import Angel.Signal

/-!
The registry of `signaler_t`, over whole calls of its three operations: `cancel_signal_in_loop`
and `ignore_siganl_in_loop` with the `sigaction` at their end. An error of `sigaction` is only
logged, so a signal that it refuses has its list and not the handler.
-/

namespace Angel.Signal

open Lib

/-- A call in the loop. -/
inductive Call where
  | add (signo id : Nat)
  | cancel (id : Nat)
  | ignore (signo : Nat)
  deriving DecidableEq, Repr

/-- The ids of new events are fresh. -/
def Signaler.Fresh (s : Signaler) : Call → Prop
  | .add _ id => id ∉ s.used
  | .cancel _ => True
  | .ignore _ => True

instance (s : Signaler) : (c : Call) → Decidable (s.Fresh c)
  | .add _ id => inferInstanceAs (Decidable (id ∉ s.used))
  | .cancel _ => inferInstanceAs (Decidable True)
  | .ignore _ => inferInstanceAs (Decidable True)

def Signaler.call (p : Platform) (s : Signaler) : Call → Signaler
  | .add signo id => s.addSignalInLoop p signo id
  | .cancel id => (s.cancelSignalInLoop id).leave p
  | .ignore signo => (s.ignoreSiganlInLoop signo).leave p

/-- The callbacks of a signal. -/
def Signaler.list (s : Signaler) (signo : Nat) : List Nat := (s.sigMap signo).getD []

/-- The two maps and the actions of the signals are in step. -/
structure Registered (p : Platform) (s : Signaler) : Prop where
  listed : ∀ id signo, s.idMap id = some signo ↔ (s.list signo).count id = 1
  nonempty : ∀ signo, s.sigMap signo ≠ some []
  installed : ∀ signo, s.installed signo ↔ s.list signo ≠ [] ∧ p.accepts signo
  noFault : s.fault = none

/-- What each call keeps. -/
structure InStep (p : Platform) (s : Signaler) : Prop where
  paired : Paired s
  installed : ∀ signo, s.installed signo ↔ s.list signo ≠ [] ∧ p.accepts signo
  leaving : s.leaving = none
  noFault : s.fault = none

variable {p : Platform} {s : Signaler}

theorem InStep.registered (h : InStep p s) : Registered p s where
  listed id signo := by
    rw [h.paired.listed, Signaler.list, (h.paired.nodup signo).count]
    split <;> simp [*]
  nonempty := h.paired.nonempty
  installed := h.installed
  noFault := h.noFault

theorem sigaction_installed (signo other : Nat) (handler : Bool) :
    (s.sigaction p signo handler).installed other =
      if other = signo ∧ p.accepts signo then handler else s.installed other := by
  unfold Signaler.sigaction
  split
  · next haccepts =>
      dsimp only
      rw [Function.update_apply]
      simp only [haccepts, and_true]
  · next hrefuses => rw [if_neg fun hboth => hrefuses hboth.2]

theorem InStep.add (h : InStep p s) (signo : Nat) {id : Nat} (hnew : id ∉ s.used) :
    InStep p (s.addSignalInLoop p signo id) := by
  have hpaired := h.paired.add (p := p) signo hnew
  obtain ⟨installed, hadd, _⟩ := addSignalInLoop_eq p s signo id
  have hlist : ∀ other, (s.addSignalInLoop p signo id).list other =
      if other = signo then id :: s.list signo else s.list other := by
    intro other
    rw [hadd, Signaler.list, getD_update]
    rfl
  refine ⟨hpaired, fun other => ?_, by rw [hadd]; exact h.leaving, by rw [hadd]; exact h.noFault⟩
  have hinstalled : (s.addSignalInLoop p signo id).installed other =
      if s.list signo = [] ∧ other = signo ∧ p.accepts signo then true else s.installed other := by
    unfold Signaler.addSignalInLoop
    dsimp only
    split
    · next hempty => 
        rw [sigaction_installed]
        simp only [Signaler.list, List.isEmpty_iff.mp hempty, true_and]
    · next hne => rw [if_neg fun hboth => hne (List.isEmpty_iff.mpr hboth.1)]
  rw [hinstalled, hlist]
  by_cases hother : other = signo
  · subst other
    rw [if_pos rfl]
    by_cases hset : s.list signo = [] ∧ p.accepts signo
    · rw [if_pos ⟨hset.1, rfl, hset.2⟩]
      exact iff_of_true rfl ⟨List.cons_ne_nil _ _, hset.2⟩
    · rw [if_neg fun hboth => hset ⟨hboth.1, hboth.2.2⟩, h.installed]
      refine and_congr_left fun haccepts => ?_
      exact iff_of_true (fun hempty => hset ⟨hempty, haccepts⟩) (List.cons_ne_nil _ _)
  · rw [if_neg fun hboth => hother hboth.2.1, if_neg hother, h.installed]

theorem inStep_leave {signo : Nat} (hpaired : Paired s) (hleaving : s.leaving = some signo)
    (hempty : s.list signo = []) (haccepted : s.installed signo → p.accepts signo)
    (hothers : ∀ other, other ≠ signo →
      (s.installed other ↔ s.list other ≠ [] ∧ p.accepts other))
    (hnoFault : s.fault = none) : InStep p (s.leave p) := by
  obtain ⟨installed, hsigaction, _⟩ := sigaction_eq p s signo false
  have hinstalled : ∀ other, installed other =
      if other = signo ∧ p.accepts signo then false else s.installed other := by
    intro other
    rw [← sigaction_installed signo other false, hsigaction]
  simp only [Signaler.leave, hleaving, hsigaction]
  refine ⟨⟨hpaired.listed, hpaired.nonempty, hpaired.nodup, hpaired.used⟩, fun other => ?_, rfl,
    hnoFault⟩
  change installed other ↔ s.list other ≠ [] ∧ p.accepts other
  rw [hinstalled]
  by_cases hother : other = signo
  · subst other
    refine iff_of_false (fun hset => ?_) fun hboth => hboth.1 hempty
    split at hset
    · cases hset
    · next hrefuses => exact hrefuses ⟨rfl, haccepted hset⟩
  · rw [if_neg fun hboth => hother hboth.1]
    exact hothers other hother

theorem InStep.ignore (h : InStep p s) (signo : Nat) :
    InStep p ((s.ignoreSiganlInLoop signo).leave p) := by
  have hlist : ∀ other, (s.ignoreSiganlInLoop signo).list other =
      if other = signo then [] else s.list other := by
    intro other
    rw [Signaler.list, Signaler.ignoreSiganlInLoop, getD_update]
    rfl
  apply inStep_leave (h.paired.ignore signo) rfl
  · rw [hlist, if_pos rfl]
  · exact fun hset => ((h.installed signo).mp hset).2
  · intro other hother
    rw [hlist, if_neg hother]
    exact h.installed other
  · exact h.noFault

private theorem cancel_list (h : Paired s) {id signo : Nat} (hid : s.idMap id = some signo)
    (other : Nat) :
    (s.cancelSignalInLoop id).list other =
      if other = signo then (s.list signo).erase id else s.list other := by
  rw [cancelSignalInLoop_eq h hid, Signaler.list, getD_update, getD_unless_empty]
  rfl

theorem InStep.cancel (h : InStep p s) (id : Nat) :
    InStep p ((s.cancelSignalInLoop id).leave p) := by
  cases hid : s.idMap id with
  | none =>
      simp only [Signaler.cancelSignalInLoop, hid, Signaler.leave, h.leaving]
      exact h
  | some signo =>
      have hpaired := h.paired.cancel id
      have hlist := cancel_list h.paired hid
      have hcancel := cancelSignalInLoop_eq h.paired hid
      have hinstalled : (s.cancelSignalInLoop id).installed = s.installed := by rw [hcancel]
      have hnoFault : (s.cancelSignalInLoop id).fault = none := by
        rw [hcancel]
        exact h.noFault
      have hothers : ∀ other, other ≠ signo →
          ((s.cancelSignalInLoop id).installed other ↔
            (s.cancelSignalInLoop id).list other ≠ [] ∧ p.accepts other) := by
        intro other hother
        rw [hinstalled, hlist, if_neg hother]
        exact h.installed other
      have hbefore := h.installed signo
      by_cases hlast : (s.list signo).erase id = []
      · have hleaving : (s.cancelSignalInLoop id).leaving = some signo := by
          rw [hcancel]
          exact if_pos hlast
        refine inStep_leave hpaired hleaving ?_ ?_ hothers hnoFault
        · rw [hlist, if_pos rfl, hlast]
        · rw [hinstalled]
          exact fun hset => (hbefore.mp hset).2
      · have hleaving : (s.cancelSignalInLoop id).leaving = none := by
          rw [hcancel]
          exact (if_neg hlast).trans h.leaving
        rw [Signaler.leave, hleaving]
        refine ⟨hpaired, fun other => ?_, hleaving, hnoFault⟩
        by_cases hother : other = signo
        · subst other
          have hmore : s.list signo ≠ [] := fun hnil => hlast (by rw [hnil, List.erase_nil])
          rw [hinstalled, hlist, if_pos rfl, hbefore]
          exact and_congr_left fun _ => iff_of_true hmore hlast
        · exact hothers other hother

theorem InStep.call (h : InStep p s) {c : Call} (hfresh : s.Fresh c) : InStep p (s.call p c) := by
  cases c with
  | add signo id => exact h.add signo hfresh
  | cancel id => exact h.cancel id
  | ignore signo => exact h.ignore signo

private theorem inStep_init (p : Platform) : InStep p Signaler.init where
  paired := (Served.init p).paired
  installed _ := iff_of_false nofun fun hboth => hboth.1 rfl
  leaving := rfl
  noFault := rfl

/-- In every state between calls the maps and the lists are in step, and `sig_handler` is
installed for the signals with a list, as far as `sigaction` accepts it. -/
theorem registry_in_step (p : Platform) {calls : List Call}
    (hrun : Admissible (Signaler.call p) Signaler.Fresh Signaler.init calls) :
    Registered p (run (Signaler.call p) Signaler.init calls) := by
  have hstep : ∀ s c, InStep p s → s.Fresh c → InStep p (s.call p c) :=
    fun _ _ h hfresh => h.call hfresh
  exact (run_invariant hstep (inStep_init p) hrun).registered

/-- Ids of a list that was ignored are cancelled, and the last of another list. -/
theorem registry_in_step_swept :
    Registered linux (run (Signaler.call linux) Signaler.init
      [.add 2 0, .add 15 1, .add 2 2, .ignore 2, .cancel 0, .cancel 1, .cancel 1, .add 2 3]) :=
  registry_in_step linux (by decide)

/-- `SIGKILL` has a list, and not the handler. -/
theorem registry_refused :
    ¬∀ calls : List Call, Admissible (Signaler.call linux) Signaler.Fresh Signaler.init calls →
      ∀ signo, (run (Signaler.call linux) Signaler.init calls).installed signo ↔
        (run (Signaler.call linux) Signaler.init calls).list signo ≠ [] := by
  intro h
  have hkill := (h [.add 9 0] (by decide) 9).mpr (by decide)
  exact absurd hkill (by decide)

end Angel.Signal
