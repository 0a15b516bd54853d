import Mathlib.Data.List.Basic
import Mathlib.Logic.Function.Basic
import Mathlib.Tactic.Common

/-!
A vector with an index of its keys. The index of a key is where its entry is, and every
entry is there under its key; appending an entry, writing one over with the same key, and
removing one by putting the last in its place keep it so.
-/

namespace Angel.Lib

variable {α κ : Type*}

/-- The index has exactly the keys of the entries, each with its position. -/
def Indexed (key : α → κ) (xs : List α) (index : κ → Option Nat) : Prop :=
  ∀ k i, index k = some i ↔ xs[i]?.map key = some k

/-- Two entries are swapped. -/
def swapAt (xs : List α) (i j : Nat) : List α :=
  match xs[i]?, xs[j]? with
  | some x, some y => (xs.set i y).set j x
  | _, _ => xs

namespace Indexed

variable {key : α → κ} {xs : List α} {index : κ → Option Nat} {i j : Nat} {x y : α}

theorem nil : Indexed key [] fun _ => none := by
  intro k i
  simp

theorem index_of_entry (h : Indexed key xs index) (hx : xs[i]? = some x) :
    index (key x) = some i := (h _ _).mpr (by rw [hx, Option.map_some])

theorem entry_of_index {k : κ} (h : Indexed key xs index) (hk : index k = some i) :
    ∃ x, xs[i]? = some x ∧ key x = k := Option.map_eq_some_iff.mp ((h k i).mp hk)

theorem position_unique (h : Indexed key xs index) (hx : xs[i]? = some x) (hy : xs[j]? = some y)
    (hkey : key x = key y) : i = j := by
  have hi := h.index_of_entry hx
  rw [hkey, h.index_of_entry hy] at hi
  exact (Option.some.inj hi).symm

variable [DecidableEq κ]

theorem push (h : Indexed key xs index) (hnew : index (key x) = none) :
    Indexed key (xs ++ [x]) (Function.update index (key x) (some xs.length)) := by
  intro k i
  rw [Function.update_apply, List.getElem?_append]
  split
  · subst k
    rw [Option.some.injEq]
    split
    · have hnone := (h (key x) i).not.mp (by rw [hnew]; exact nofun)
      exact iff_of_false (by omega) hnone
    · rw [List.getElem?_singleton]
      split <;> simp <;> omega
  · rw [h k i]
    split
    · exact Iff.rfl
    · rw [List.getElem?_eq_none (by omega), List.getElem?_singleton]
      split <;> simp [Ne.symm ‹¬k = key x›]

omit [DecidableEq κ] in
theorem set (h : Indexed key xs index) (hx : xs[i]? = some x) (hkey : key y = key x) :
    Indexed key (xs.set i y) index := by
  intro k j
  rw [h k j, List.getElem?_set]
  split
  · subst j
    rw [hx, if_pos (List.getElem?_eq_some_iff.mp hx).1, Option.map_some, Option.map_some, hkey]
  · exact Iff.rfl

end Indexed

theorem getElem?_dropLast_swapAt {xs : List α} {i : Nat} {x y : α} (hx : xs[i]? = some x)
    (hy : xs[xs.length - 1]? = some y) (j : Nat) :
    (swapAt xs i (xs.length - 1)).dropLast[j]? =
      if j < xs.length - 1 then if j = i then some y else xs[j]? else none := by
  have hlt := (List.getElem?_eq_some_iff.mp hx).1
  rw [swapAt, hx, hy, List.getElem?_dropLast, List.length_set, List.length_set]
  split
  · rw [List.getElem?_set_ne (by omega), List.getElem?_set]
    by_cases hij : j = i
    · rw [if_pos hij, if_pos hij.symm, if_pos (hij ▸ hlt)]
    · rw [if_neg hij, if_neg (Ne.symm hij)]
  · rfl

namespace Indexed

variable {key : α → κ} {xs : List α} {index : κ → Option Nat} {i : Nat} {x y : α} [DecidableEq κ]

theorem swapRemove (h : Indexed key xs index) (hx : xs[i]? = some x)
    (hy : xs[xs.length - 1]? = some y) :
    Indexed key (swapAt xs i (xs.length - 1)).dropLast
      (Function.update (Function.update index (key y) (some i)) (key x) none) := by
  intro k j
  rw [getElem?_dropLast_swapAt hx hy, Function.update_apply, Function.update_apply]
  split
  · -- The entry that leaves: no other has its key.
    subst k
    refine iff_of_false nofun fun hj => ?_
    split at hj
    · split at hj
      · have := h.position_unique hx hy (by simpa using hj.symm)
        omega
      · obtain ⟨z, hz, hkey⟩ := Option.map_eq_some_iff.mp hj
        exact absurd (h.position_unique hz hx hkey) ‹_›
    · cases hj
  · split
    · -- The last entry is now where the other was.
      subst k
      have hlt : i < xs.length - 1 := by
        have hlt := (List.getElem?_eq_some_iff.mp hx).1
        have hne : i ≠ xs.length - 1 := by
          rintro rfl
          rw [hx, Option.some.injEq] at hy
          exact absurd (congrArg key hy.symm) ‹_›
        omega
      rw [Option.some.injEq]
      by_cases hij : j = i
      · rw [if_pos (hij ▸ hlt), if_pos hij, Option.map_some]
        exact iff_of_true hij.symm rfl
      · rw [if_neg hij]
        refine iff_of_false (Ne.symm hij) fun hj => ?_
        split at hj
        · obtain ⟨z, hz, hkey⟩ := Option.map_eq_some_iff.mp hj
          have := h.position_unique hz hy hkey
          omega
        · cases hj
    · rw [h k j]
      split
      · by_cases hij : j = i
        · rw [if_pos hij, hij, hx, Option.map_some, Option.map_some]
          exact iff_of_false (by simpa using Ne.symm ‹¬k = key x›) (by simpa using Ne.symm ‹¬k = key y›)
        · rw [if_neg hij]
      · refine iff_of_false (fun hj => ?_) nofun
        obtain ⟨z, hz, rfl⟩ := Option.map_eq_some_iff.mp hj
        have hlt := (List.getElem?_eq_some_iff.mp hz).1
        obtain rfl : j = xs.length - 1 := by omega
        rw [hz, Option.some.injEq] at hy
        exact absurd (congrArg key hy) ‹_›

theorem mem_swapRemove (h : Indexed key xs index) (hx : xs[i]? = some x)
    (hy : xs[xs.length - 1]? = some y) {z : α} (hz : z ∈ (swapAt xs i (xs.length - 1)).dropLast) :
    z ∈ xs ∧ key z ≠ key x := by
  obtain ⟨j, hj⟩ := List.getElem?_of_mem hz
  constructor
  · rw [getElem?_dropLast_swapAt hx hy] at hj
    split at hj
    · split at hj
      · exact Option.some.inj hj ▸ List.mem_of_getElem? hy
      · exact List.mem_of_getElem? hj
    · cases hj
  · intro hkey
    have hindex := (h.swapRemove hx hy).index_of_entry hj
    rw [hkey, Function.update_self] at hindex
    cases hindex

end Indexed

end Angel.Lib
