import Mathlib.Data.List.Basic
import Mathlib.Tactic.Common

/-!
Stores into an array, element by element and each with its bounds check. A loop of
stores that stays in bounds is an equation on lists, also for a copy within one
array that goes forward to a lower place.
-/

namespace Angel.Lib.Store

variable {α : Type*}

/-- `cells[i] = c`, and no result out of bounds. -/
def store (i : Nat) (c : α) (cells : List α) : Option (List α) :=
  if i < cells.length then some (cells.set i c) else none

def storeAll (i : Nat) : List α → List α → Option (List α)
  | [], cells => some cells
  | c :: data, cells => (store i c cells).bind (storeAll (i + 1) data)

/-- `n` elements from `src` to `dst`, in ascending order. -/
def copyWithin (dst src : Nat) : Nat → List α → Option (List α)
  | 0, cells => some cells
  | n + 1, cells => do
      let c ← cells[src]?
      let cells ← store dst c cells
      copyWithin (dst + 1) (src + 1) n cells

theorem store_append (front : List α) (old c : α) (back : List α) :
    store front.length c (front ++ old :: back) = some (front ++ c :: back) := by
  have hin : front.length < (front ++ old :: back).length := by simp
  rw [store, if_pos hin, List.set_append_right _ _ (Nat.le_refl _), Nat.sub_self, List.set_cons_zero]

theorem storeAll_append (front data old back : List α) (h : old.length = data.length) :
    storeAll front.length data (front ++ old ++ back) = some (front ++ data ++ back) := by
  induction data generalizing front old with
  | nil =>
      rw [List.length_eq_zero_iff.mp h]
      rfl
  | cons c data ih =>
      obtain ⟨o, old, rfl⟩ := List.exists_cons_of_length_eq_add_one h
      have hrest : old.length = data.length := Nat.succ.inj h
      have hstep := ih (front ++ [c]) old hrest
      simp only [List.length_append, List.length_singleton, List.append_assoc, List.singleton_append]
        at hstep
      simp only [List.append_assoc, List.cons_append]
      rw [storeAll, store_append, Option.bind_some]
      exact hstep

/-- A copy to a lower place: nothing is overwritten before it has been read, and
what lies behind the copy is what was left there. -/
theorem copyWithin_append (front gap data back : List α) (g : α) :
    copyWithin front.length (front ++ g :: gap).length data.length (front ++ g :: gap ++ data ++ back) =
      some (front ++ data ++ (g :: gap ++ data).drop data.length ++ back) := by
  induction data generalizing front gap g with
  | nil => simp [copyWithin]
  | cons c data ih =>
      have hread : (front ++ g :: gap ++ (c :: data) ++ back)[(front ++ g :: gap).length]? = some c := by
        rw [List.append_assoc (front ++ g :: gap), List.getElem?_append_right (Nat.le_refl _),
          Nat.sub_self]
        rfl
      have hstore : store front.length c (front ++ g :: gap ++ (c :: data) ++ back) =
          some (front ++ c :: (gap ++ (c :: data) ++ back)) := by
        have hsplit : front ++ g :: gap ++ (c :: data) ++ back =
            front ++ g :: (gap ++ (c :: data) ++ back) := by simp
        rw [hsplit]
        exact store_append front g c _
      rw [List.length_cons, copyWithin, hread]
      simp only [Option.bind_eq_bind, Option.bind_some, hstore]
      -- the gap moves on by one and keeps its length
      cases gap with
      | nil =>
          have hstep := ih (front ++ [c]) [] c
          simpa using hstep
      | cons g' gap =>
          have hstep := ih (front ++ [c]) (gap ++ [c]) g'
          simpa [Nat.add_comm, Nat.add_left_comm] using hstep

end Angel.Lib.Store
