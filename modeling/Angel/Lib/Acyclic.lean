import Mathlib.Data.Fintype.Card
import Mathlib.Data.Set.Finite.Basic
import Mathlib.Tactic.Common

/-!
Chasing references. `r b a` says that `a` leads to `b`; the chase from `a` ends
when `a` is accessible. Where only finitely many places can be reached this is
the same as never coming back to a place.
-/

namespace Angel.Lib

open Relation

variable {α : Type*} {r : α → α → Prop}

/-- No place reached from `a` leads back to itself. -/
def Acyclic (r : α → α → Prop) (a : α) : Prop := ∀ b, ReflTransGen r b a → ¬ TransGen r b b

theorem acyclic_of_acc {a : α} (h : Acc r a) : Acyclic r a := by
  induction h with
  | intro a _ ih =>
      intro b hb hcycle
      rcases ReflTransGen.cases_tail hb with rfl | ⟨c, hbc, hca⟩
      · -- The last step of a cycle at `a` comes from a place on the same cycle.
        obtain ⟨c, hac, hca⟩ := TransGen.tail'_iff.mp hcycle
        exact ih c hca c .refl (TransGen.head' hca hac)
      · exact ih c hca b hbc hcycle

theorem acc_of_acyclic {a : α} (hfin : { b | TransGen r b a }.Finite) (h : Acyclic r a) :
    Acc r a := by
  have : Finite { b | TransGen r b a } := hfin
  let after (x y : { b | TransGen r b a }) : Prop := TransGen r x.1 y.1
  have : IsTrans _ after := ⟨fun _ _ _ hxy hyz => TransGen.trans hxy hyz⟩
  have : Std.Irrefl after := ⟨fun x hx => h x.1 x.2.to_reflTransGen hx⟩
  have hwf : WellFounded after := Finite.wellFounded_of_trans_of_irrefl after
  have hall : ∀ x : { b | TransGen r b a }, Acc r x.1 := by
    intro x
    induction x using hwf.induction with
    | h x ih =>
        refine Acc.intro x.1 fun y hy => ?_
        exact ih ⟨y, TransGen.head hy x.2⟩ (TransGen.single hy)
  exact Acc.intro a fun y hy => hall ⟨y, TransGen.single hy⟩

theorem acc_iff_acyclic {a : α} (hfin : { b | TransGen r b a }.Finite) :
    Acc r a ↔ Acyclic r a :=
  ⟨acyclic_of_acc, acc_of_acyclic hfin⟩

end Angel.Lib
