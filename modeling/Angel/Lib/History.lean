import Mathlib.Data.List.Basic
import Mathlib.Tactic.Common

/-!
Properties of the elements of a list that may speak about what stands in front of them.
-/

namespace Angel.Lib

variable {α : Type*} {P : List α → α → Prop} {l m : List α}

/-- Every element has the property, given those in front of it. -/
def Each (P : List α → α → Prop) (l : List α) : Prop :=
  ∀ before x after, l = before ++ x :: after → P before x

theorem each_nil : Each P [] := by
  intro before x after h
  simp at h

theorem Each.append (hl : Each P l) (hm : Each (fun before x => P (l ++ before) x) m) :
    Each P (l ++ m) := by
  intro before x after h
  rcases List.append_eq_append_iff.mp h with ⟨gap, rfl, hgap⟩ | ⟨gap, hbefore, hgap⟩
  · exact hm gap x after hgap
  · cases gap with
    | nil =>
        rw [List.append_nil] at hbefore
        subst hbefore
        simpa using hm [] x after hgap.symm
    | cons y gap =>
        obtain ⟨rfl, _⟩ := List.cons.inj hgap
        exact hl before x gap hbefore

theorem each_of_forall (h : ∀ x ∈ l, ∀ before, P before x) : Each P l := by
  intro before x after hl
  apply h
  rw [hl]
  exact List.mem_append_right _ List.mem_cons_self

theorem each_singleton {x : α} (h : P [] x) : Each P [x] := by
  intro before y after hl
  rcases List.cons_eq_append_iff.mp hl with ⟨rfl, htail⟩ | ⟨rest, rfl, hrest⟩
  · obtain ⟨rfl, _⟩ := List.cons.inj htail
    exact h
  · simp at hrest

end Angel.Lib
