import Mathlib.Data.List.Basic
import Mathlib.Tactic.Common

/-!
`while` loops as iterations of a body. A pass through the body goes round
again or leaves with a result; fuel bounds the passes and a size that every
pass decreases shows that the bound is never met.
-/

namespace Angel.Lib

variable {σ ρ : Type*}

/-- One pass through a loop body. -/
inductive Pass (σ ρ : Type*) where
  | again (s : σ)
  | done (r : ρ)

/-- The result of the loop, if it is left within `fuel` passes. -/
def loop (body : σ → Pass σ ρ) : Nat → σ → Option ρ
  | 0, _ => none
  | fuel + 1, s =>
      match body s with
      | .again s' => loop body fuel s'
      | .done r => some r

theorem loop_again {body : σ → Pass σ ρ} {s s' : σ} (h : body s = .again s') (fuel : Nat) :
    loop body (fuel + 1) s = loop body fuel s' := by
  simp [loop, h]

theorem loop_done {body : σ → Pass σ ρ} {s : σ} {r : ρ} (h : body s = .done r) (fuel : Nat) :
    loop body (fuel + 1) s = some r := by
  simp [loop, h]

/-- Total correctness: from a state of the invariant every pass goes round
again into a smaller such state or leaves with the postcondition. -/
theorem loop_spec {body : σ → Pass σ ρ} {Inv : σ → Prop} {Post : ρ → Prop} (size : σ → Nat)
    (hpass : ∀ s, Inv s → (∃ s', body s = .again s' ∧ Inv s' ∧ size s' < size s) ∨
      ∃ r, body s = .done r ∧ Post r)
    {fuel : Nat} {s : σ} (hinv : Inv s) (hfuel : size s < fuel) :
    ∃ r, loop body fuel s = some r ∧ Post r := by
  induction fuel generalizing s with
  | zero => omega
  | succ fuel ih =>
      rcases hpass s hinv with ⟨s', hbody, hinv', hsize⟩ | ⟨r, hbody, hpost⟩
      · obtain ⟨r, hloop, hpost⟩ := ih hinv' (by omega)
        exact ⟨r, (loop_again hbody fuel).trans hloop, hpost⟩
      · exact ⟨r, loop_done hbody fuel, hpost⟩

theorem loop_sound {body : σ → Pass σ ρ} {Inv : σ → Prop} {Post : ρ → Prop}
    (hagain : ∀ s s', Inv s → body s = .again s' → Inv s')
    (hdone : ∀ s r, Inv s → body s = .done r → Post r) {fuel : Nat} {s : σ} {r : ρ}
    (hinv : Inv s) (h : loop body fuel s = some r) : Post r := by
  induction fuel generalizing s with
  | zero => cases h
  | succ fuel ih =>
      cases hbody : body s with
      | again s' =>
          rw [loop_again hbody] at h
          exact ih (hagain s s' hinv hbody) h
      | done r' =>
          rw [loop_done hbody] at h
          cases h
          exact hdone s r hinv hbody

theorem loop_sound_of_pass {body : σ → Pass σ ρ} {Inv : σ → Prop} {Post : ρ → Prop}
    (hpass : ∀ s, Inv s → (∃ s', body s = .again s' ∧ Inv s') ∨ ∃ r, body s = .done r ∧ Post r)
    {fuel : Nat} {s : σ} {r : ρ} (hinv : Inv s) (h : loop body fuel s = some r) : Post r := by
  refine loop_sound ?_ ?_ hinv h
  · intro s s' hs hagain
    rcases hpass s hs with ⟨_, hbody, hinv'⟩ | ⟨_, hbody, _⟩
    · cases hagain.symm.trans hbody
      exact hinv'
    · cases hagain.symm.trans hbody
  · intro s r hs hdone
    rcases hpass s hs with ⟨_, hbody, _⟩ | ⟨_, hbody, hpost⟩
    · cases hdone.symm.trans hbody
    · cases hdone.symm.trans hbody
      exact hpost

/-- With passes that decrease a size, more fuel than that size makes no
difference. -/
theorem loop_fuel {body : σ → Pass σ ρ} (size : σ → Nat)
    (hpass : ∀ s s', body s = .again s' → size s' < size s) {fuel fuel' : Nat} {s : σ}
    (h : size s < fuel) (h' : size s < fuel') : loop body fuel s = loop body fuel' s := by
  induction fuel generalizing s fuel' with
  | zero => omega
  | succ fuel ih =>
      obtain ⟨fuel', rfl⟩ : ∃ n, fuel' = n + 1 := ⟨fuel' - 1, by omega⟩
      cases hbody : body s with
      | again s' =>
          have hsize := hpass s s' hbody
          rw [loop_again hbody, loop_again hbody]
          exact ih (by omega) (by omega)
      | done r => rw [loop_done hbody, loop_done hbody]

section Simulation

variable {σ' ρ' : Type*}

/-- Two passes that agree on whether to go round again. -/
inductive PassRel (R : σ → σ' → Prop) (Q : ρ → ρ' → Prop) : Pass σ ρ → Pass σ' ρ' → Prop where
  | again {s : σ} {s' : σ'} (h : R s s') : PassRel R Q (.again s) (.again s')
  | done {r : ρ} {r' : ρ'} (h : Q r r') : PassRel R Q (.done r) (.done r')

theorem PassRel.ite {R : σ → σ' → Prop} {Q : ρ → ρ' → Prop} {c c' : Prop} [Decidable c]
    [Decidable c'] {p q : Pass σ ρ} {p' q' : Pass σ' ρ'} (hc : c ↔ c')
    (hpos : c → PassRel R Q p p') (hneg : ¬ c → PassRel R Q q q') :
    PassRel R Q (if c then p else q) (if c' then p' else q') := by
  by_cases h : c
  · rw [if_pos h, if_pos (hc.mp h)]
    exact hpos h
  · rw [if_neg h, if_neg (mt hc.mpr h)]
    exact hneg h

/-- Loops whose passes keep a relation of their states leave with related
results, or both run out of fuel. -/
theorem loop_simulation {body : σ → Pass σ ρ} {body' : σ' → Pass σ' ρ'} {R : σ → σ' → Prop}
    {Q : ρ → ρ' → Prop} (hpass : ∀ s s', R s s' → PassRel R Q (body s) (body' s'))
    (fuel : Nat) {s : σ} {s' : σ'} (h : R s s') :
    Option.Rel Q (loop body fuel s) (loop body' fuel s') := by
  induction fuel generalizing s s' with
  | zero => exact .none
  | succ fuel ih =>
      have hrel := hpass s s' h
      generalize hbody : body s = p, hbody' : body' s' = p' at hrel
      cases hrel with
      | again h' =>
          rw [loop_again hbody, loop_again hbody']
          exact ih h'
      | done hq =>
          rw [loop_done hbody, loop_done hbody']
          exact .some hq

theorem rel_join {α β : Type*} {Q : Option α → Option β → Prop} (hnone : Q none none)
    {a : Option (Option α)} {b : Option (Option β)} (h : Option.Rel Q a b) :
    Q a.join b.join := by
  cases h with
  | none => exact hnone
  | some h => exact h

end Simulation

end Angel.Lib
