import Mathlib.Data.List.Basic
import Mathlib.Tactic.Common

/-!
One sequence of items kept as several queues. Items are numbered
consecutively from `n`; a lane holds the items some projection selects, each
with its number. The sequence can be rebuilt from the lanes because the
numbers are increasing in each lane, distinct across lanes that select
different items, and complete when every item has a lane.
-/

namespace Angel.Lib

variable {α β γ : Type*}

/-- The numbered items of one lane. -/
def lane (f : α → Option β) : Nat → List α → List (Nat × β)
  | _, [] => []
  | n, x :: xs =>
      match f x with
      | some y => (n, y) :: lane f (n + 1) xs
      | none => lane f (n + 1) xs

@[simp] theorem lane_nil (f : α → Option β) (n : Nat) : lane f n [] = [] := rfl

theorem lane_cons_some {f : α → Option β} {x : α} {y : β} (h : f x = some y)
    (n : Nat) (xs : List α) : lane f n (x :: xs) = (n, y) :: lane f (n + 1) xs := by
  simp [lane, h]

theorem lane_cons_none {f : α → Option β} {x : α} (h : f x = none)
    (n : Nat) (xs : List α) : lane f n (x :: xs) = lane f (n + 1) xs := by
  simp [lane, h]

theorem lane_append (f : α → Option β) (n : Nat) (xs ys : List α) :
    lane f n (xs ++ ys) = lane f n xs ++ lane f (n + xs.length) ys := by
  induction xs generalizing n with
  | nil => simp
  | cons x xs ih =>
      have hn : n + 1 + xs.length = n + (x :: xs).length := by
        simp only [List.length_cons]
        omega
      cases hx : f x with
      | some y => rw [List.cons_append, lane_cons_some hx, lane_cons_some hx, ih, hn,
          List.cons_append]
      | none => rw [List.cons_append, lane_cons_none hx, lane_cons_none hx, ih, hn]

theorem lane_cons (f : α → Option β) (n : Nat) (x : α) (xs : List α) :
    lane f n (x :: xs) = lane f n [x] ++ lane f (n + 1) xs :=
  lane_append f n [x] xs

theorem mem_lane_iff {f : α → Option β} {n i : Nat} {y : β} {xs : List α} :
    (i, y) ∈ lane f n xs ↔ ∃ k x, xs[k]? = some x ∧ i = n + k ∧ f x = some y := by
  induction xs generalizing n with
  | nil => simp
  | cons x xs ih =>
      have hsplit : (∃ k z, (x :: xs)[k]? = some z ∧ i = n + k ∧ f z = some y) ↔
          (i = n ∧ f x = some y) ∨ (i, y) ∈ lane f (n + 1) xs := by
        rw [ih]
        constructor
        · rintro ⟨k, z, hget, hi, hz⟩
          cases k with
          | zero =>
              simp only [List.getElem?_cons_zero, Option.some.injEq] at hget
              subst hget
              exact Or.inl ⟨hi, hz⟩
          | succ k => exact Or.inr ⟨k, z, by simpa using hget, by omega, hz⟩
        · rintro (⟨hi, hx⟩ | ⟨k, z, hget, hi, hz⟩)
          · exact ⟨0, x, rfl, hi, hx⟩
          · exact ⟨k + 1, z, by simpa using hget, by omega, hz⟩
      rw [hsplit]
      cases hx : f x with
      | some v =>
          rw [lane_cons_some hx, List.mem_cons, Prod.mk.injEq, Option.some.injEq]
          constructor
          · rintro (⟨hi, hy⟩ | hmem)
            · exact Or.inl ⟨hi, hy.symm⟩
            · exact Or.inr hmem
          · rintro (⟨hi, hy⟩ | hmem)
            · exact Or.inl ⟨hi, hy.symm⟩
            · exact Or.inr hmem
      | none =>
          rw [lane_cons_none hx]
          simp

theorem lane_number_bounds {f : α → Option β} {n i : Nat} {y : β} {xs : List α}
    (h : (i, y) ∈ lane f n xs) : n ≤ i ∧ i < n + xs.length := by
  obtain ⟨k, x, hget, rfl, _⟩ := mem_lane_iff.mp h
  have := (List.getElem?_eq_some_iff.mp hget).1
  omega

/-- Behind an item of another lane the head of the lane has a larger number
than the item. -/
theorem lane_cons_none_head {f : α → Option β} {x : α} (hx : f x = none)
    {n i : Nat} {y : β} {xs : List α} {more : List (Nat × β)}
    (hlane : lane f n (x :: xs) = (i, y) :: more) : i ≠ n := by
  rw [lane_cons_none hx] at hlane
  have hmem : (i, y) ∈ lane f (n + 1) xs := by
    rw [hlane]
    exact List.mem_cons_self
  have hbounds := lane_number_bounds hmem
  omega

theorem lane_increasing (f : α → Option β) (n : Nat) (xs : List α) :
    ((lane f n xs).map Prod.fst).Pairwise (· < ·) := by
  induction xs generalizing n with
  | nil => simp
  | cons x xs ih =>
      cases hx : f x with
      | none =>
          rw [lane_cons_none hx]
          exact ih (n + 1)
      | some y =>
          rw [lane_cons_some hx, List.map_cons, List.pairwise_cons]
          refine ⟨?_, ih (n + 1)⟩
          intro i hi
          obtain ⟨p, hp, rfl⟩ := List.mem_map.mp hi
          have := lane_number_bounds (i := p.1) (y := p.2) hp
          omega

theorem mem_lane_numbers {f : α → Option β} {n i : Nat} {xs : List α} :
    i ∈ (lane f n xs).map Prod.fst ↔ ∃ k x, xs[k]? = some x ∧ i = n + k ∧ (f x).isSome := by
  rw [List.mem_map]
  constructor
  · rintro ⟨⟨i', y⟩, hp, rfl⟩
    obtain ⟨k, x, hget, hi, hy⟩ := mem_lane_iff.mp hp
    exact ⟨k, x, hget, hi, by simp [hy]⟩
  · rintro ⟨k, x, hget, hi, hsome⟩
    obtain ⟨y, hy⟩ := Option.isSome_iff_exists.mp hsome
    exact ⟨(i, y), mem_lane_iff.mpr ⟨k, x, hget, hi, hy⟩, rfl⟩

theorem lanes_disjoint {f : α → Option β} {g : α → Option γ}
    (hfg : ∀ x, (f x).isSome → g x = none) {n i : Nat} {xs : List α}
    (hf : i ∈ (lane f n xs).map Prod.fst) : i ∉ (lane g n xs).map Prod.fst := by
  intro hg
  obtain ⟨k, x, hget, hi, hx⟩ := mem_lane_numbers.mp hf
  obtain ⟨k', x', hget', hi', hx'⟩ := mem_lane_numbers.mp hg
  have hk : k' = k := by omega
  subst hk
  have hxx : x = x' := Option.some.inj (hget.symm.trans hget')
  subst hxx
  simp [hfg x hx] at hx'

end Angel.Lib
