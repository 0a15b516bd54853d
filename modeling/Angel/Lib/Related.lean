import Mathlib.Data.List.Forall2

/-!
Lists whose elements are related one by one: how such a list comes about, and
what two of them have in common.
-/

namespace Angel.Lib

variable {α β γ : Type*} {R : α → β → Prop}

theorem exists_forall₂ {l : List α} (h : ∀ a ∈ l, ∃ b, R a b) : ∃ l', List.Forall₂ R l l' := by
  induction l with
  | nil => exact ⟨[], .nil⟩
  | cons a l ih =>
      obtain ⟨b, hb⟩ := h a List.mem_cons_self
      obtain ⟨l', hl'⟩ := ih fun a ha => h a (List.mem_cons_of_mem _ ha)
      exact ⟨b :: l', .cons hb hl'⟩

theorem forall_of_forall₂ {l : List α} {l' : List β} (h : List.Forall₂ R l l') {P : β → Prop}
    (hp : ∀ a b, R a b → P b) : ∀ b ∈ l', P b := by
  induction h with
  | nil => nofun
  | cons hab _ ih => exact List.forall_mem_cons.mpr ⟨hp _ _ hab, ih⟩

theorem forall_iff_of_forall₂ {l : List α} {l' : List β} (h : List.Forall₂ R l l')
    {P : α → Prop} {P' : β → Prop} (hp : ∀ a b, R a b → (P a ↔ P' b)) :
    (∀ a ∈ l, P a) ↔ ∀ b ∈ l', P' b := by
  induction h with
  | nil => exact iff_of_true nofun nofun
  | cons hab _ ih => rw [List.forall_mem_cons, List.forall_mem_cons, hp _ _ hab, ih]

theorem ne_nil_of_forall₂ {l : List α} {l' : List β} (h : List.Forall₂ R l l') (hne : l ≠ []) :
    l' ≠ [] := by
  rintro rfl
  exact hne (List.forall₂_nil_right_iff.mp h)

theorem forall₂_trans {S : β → γ → Prop} {T : α → γ → Prop} {l : List α} {l' : List β}
    {l'' : List γ} (h : List.Forall₂ R l l') (h' : List.Forall₂ S l' l'')
    (htrans : ∀ a b c, R a b → S b c → T a c) : List.Forall₂ T l l'' := by
  induction h generalizing l'' with
  | nil =>
      cases h'
      exact .nil
  | cons hab _ ih =>
      cases h' with
      | cons hbc h' => exact .cons (htrans _ _ _ hab hbc) (ih h')

theorem map_eq_of_forall₂ {l : List α} {l' : List β} (h : List.Forall₂ R l l') {f : α → γ}
    {g : β → γ} (hfg : ∀ a b, R a b → g b = f a) : l'.map g = l.map f := by
  induction h with
  | nil => rfl
  | cons hab _ ih => rw [List.map_cons, List.map_cons, hfg _ _ hab, ih]

end Angel.Lib
