import Mathlib.Data.List.Basic
import Mathlib.Algebra.Order.Ring.Int
import Mathlib.Tactic.Common

/-!
Bit strings, the most significant bit first. A string is read in groups of a
fixed width; where the last group is incomplete it is filled up with zeros.
-/

namespace Angel.Lib.Bits

/-- The low `w` bits of a number. -/
def bits (w n : Nat) : List Bool := (List.range w).map fun i => n.testBit (w - 1 - i)

/-- The number that a bit string stands for. -/
def value (bs : List Bool) : Nat := bs.foldl (fun v b => 2 * v + b.toNat) 0

/-- The `w` bits from position `i` on, with zeros behind the end of the string. -/
def window (bs : List Bool) (i w : Nat) : List Bool :=
  (List.range w).map fun k => bs.getD (i + k) false

/-- The numbers that the groups of `w` bits stand for. -/
def groups (w : Nat) (bs : List Bool) : List Nat :=
  (List.range ((bs.length + w - 1) / w)).map fun i => value (window bs (w * i) w)

@[simp] theorem bits_length (w n : Nat) : (bits w n).length = w := by
  simp [bits]

theorem value_snoc (bs : List Bool) (b : Bool) : value (bs ++ [b]) = 2 * value bs + b.toNat := by
  simp [value]

theorem bits_succ (w n : Nat) : bits (w + 1) n = bits w (n / 2) ++ [n.testBit 0] := by
  have hfront : ∀ i ∈ List.range w, n.testBit (w + 1 - 1 - i) = (n / 2).testBit (w - 1 - i) := by
    intro i hi
    have hlt : i < w := List.mem_range.mp hi
    rw [← Nat.testBit_succ]
    congr 1
    omega
  rw [bits, List.range_succ, List.map_append, List.map_congr_left hfront]
  simp [bits]

theorem value_bits (w n : Nat) : value (bits w n) = n % 2 ^ w := by
  induction w generalizing n with
  | zero => simp [bits, value, Nat.mod_one]
  | succ w ih =>
      rw [bits_succ, value_snoc, ih, Nat.pow_succ, Nat.mul_comm (2 ^ w), Nat.mod_mul,
        Nat.testBit_zero, Nat.add_comm]
      rcases Nat.mod_two_eq_zero_or_one n with h | h <;> simp [h]

theorem groups_nil {w : Nat} (hw : 0 < w) : groups w [] = [] := by
  have hnone : (([] : List Bool).length + w - 1) / w = 0 := by
    apply Nat.div_eq_of_lt
    rw [List.length_nil]
    omega
  rw [groups, hnone]
  rfl

theorem groups_append {w n : Nat} (hw : 0 < w) {front : List Bool} (h : front.length = w * n)
    (rest : List Bool) : groups w (front ++ rest) = groups w front ++ groups w rest := by
  have hcount : ((front ++ rest).length + w - 1) / w = n + (rest.length + w - 1) / w := by
    have hsum : (front ++ rest).length + w - 1 = (rest.length + w - 1) + w * n := by
      rw [List.length_append, h]
      omega
    rw [hsum, Nat.add_mul_div_left _ _ hw, Nat.add_comm]
  have hfront : (front.length + w - 1) / w = n := by
    have hsum : front.length + w - 1 = (w - 1) + w * n := by
      rw [h]
      omega
    rw [hsum, Nat.add_mul_div_left _ _ hw, Nat.div_eq_of_lt (by omega), Nat.zero_add]
  rw [groups, hcount, List.range_add, List.map_append, List.map_map, groups, hfront, groups]
  congr 1
  · apply List.map_congr_left
    intro i hi
    have hlt : i < n := List.mem_range.mp hi
    congr 1
    apply List.map_congr_left
    intro k hk
    have hin : w * i + k < front.length := by
      have hk : k < w := List.mem_range.mp hk
      have hmul : w * (i + 1) ≤ w * n := Nat.mul_le_mul_left w hlt
      rw [Nat.mul_add] at hmul
      omega
    rw [List.getD_eq_getElem?_getD, List.getD_eq_getElem?_getD, List.getElem?_append_left hin]
  · apply List.map_congr_left
    intro i _
    simp only [Function.comp_apply]
    congr 1
    apply List.map_congr_left
    intro k _
    have hpos : w * (n + i) + k = front.length + (w * i + k) := by
      rw [h, Nat.mul_add]
      omega
    rw [hpos, List.getD_eq_getElem?_getD, List.getD_eq_getElem?_getD,
      List.getElem?_append_right (by omega), Nat.add_sub_cancel_left]

theorem groups_fill {w k : Nat} {bs : List Bool}
    (h : (bs.length + k + w - 1) / w = (bs.length + w - 1) / w) :
    groups w (bs ++ List.replicate k false) = groups w bs := by
  have hget : ∀ i, (bs ++ List.replicate k false).getD i false = bs.getD i false := by
    intro i
    rw [List.getD_eq_getElem?_getD, List.getD_eq_getElem?_getD]
    by_cases hi : i < bs.length
    · rw [List.getElem?_append_left hi]
    · rw [List.getElem?_append_right (by omega), List.getElem?_eq_none (l := bs) (by omega),
        List.getElem?_replicate]
      split <;> rfl
  simp only [groups, window, hget, List.length_append, List.length_replicate, h]

theorem groups_bits {w : Nat} (hw : 0 < w) (ns : List Nat) :
    groups w (ns.flatMap (bits w)) = ns.map (· % 2 ^ w) := by
  induction ns with
  | nil => exact groups_nil hw
  | cons n ns ih =>
      have hlen : (bits w n).length = w * 1 := by simp
      have hone : groups w (bits w n) = [n % 2 ^ w] := by
        have hcount : ((bits w n).length + w - 1) / w = 1 := by
          rw [bits_length]
          apply Nat.div_eq_of_lt_le <;> omega
        have hwindow : window (bits w n) 0 w = bits w n := by
          apply List.ext_getElem
          · simp [window]
          · intro i _ hi
            simp [window, List.getD_eq_getElem?_getD, List.getElem?_eq_getElem hi]
        rw [groups, hcount, List.range_one, List.map_singleton, Nat.mul_zero, hwindow, value_bits]
      rw [List.flatMap_cons, groups_append hw hlen, hone, ih]
      rfl

theorem groups_length (w : Nat) (bs : List Bool) :
    (groups w bs).length = (bs.length + w - 1) / w := by
  simp [groups]

end Angel.Lib.Bits
