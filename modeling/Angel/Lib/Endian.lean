import Mathlib.Data.List.Basic
import Mathlib.Algebra.Order.Ring.Int
import Mathlib.Tactic.Common

/-!
Unsigned integers as bytes in memory. `object` is the object representation of
an integer on a little-endian machine and `load` reads it back; `bigEndian` is
the network byte order.
-/

namespace Angel.Lib

/-- The bytes of an integer of `width` bytes, the low byte first. -/
def object : (width : Nat) → Nat → List UInt8
  | 0, _ => []
  | width + 1, x => UInt8.ofNat x :: object width (x / 256)

/-- The integer that bytes in memory stand for. -/
def load : List UInt8 → Nat
  | [] => 0
  | b :: bytes => b.toNat + 256 * load bytes

/-- The bytes of an integer of `width` bytes, the high byte first. -/
def bigEndian (width x : Nat) : List UInt8 := (object width x).reverse

@[simp] theorem object_length (width x : Nat) : (object width x).length = width := by
  induction width generalizing x with
  | zero => rfl
  | succ width ih => rw [object, List.length_cons, ih]

@[simp] theorem bigEndian_length (width x : Nat) : (bigEndian width x).length = width := by
  rw [bigEndian, List.length_reverse, object_length]

theorem load_lt (bytes : List UInt8) : load bytes < 256 ^ bytes.length := by
  induction bytes with
  | nil => simp [load]
  | cons b bytes ih =>
      have hb := b.toNat_lt
      rw [load, List.length_cons, Nat.pow_succ]
      omega

theorem load_object (width x : Nat) : load (object width x) = x % 256 ^ width := by
  induction width generalizing x with
  | zero => rw [object, load, Nat.pow_zero, Nat.mod_one]
  | succ width ih =>
      rw [object, load, ih, Nat.pow_succ, Nat.mul_comm _ 256, Nat.mod_mul]
      rfl

theorem object_load (bytes : List UInt8) : object bytes.length (load bytes) = bytes := by
  induction bytes with
  | nil => rfl
  | cons b bytes ih =>
      have hb : b.toNat < 256 := b.toNat_lt
      have hlow : UInt8.ofNat (b.toNat + 256 * load bytes) = b := by
        apply UInt8.toNat_inj.mp
        rw [UInt8.toNat_ofNat']
        omega
      have hhigh : (b.toNat + 256 * load bytes) / 256 = load bytes := by omega
      rw [List.length_cons, load, object, hlow, hhigh, ih]

theorem object_mod (width x : Nat) : object width (x % 256 ^ width) = object width x := by
  have h := object_load (object width x)
  rwa [object_length, load_object] at h

theorem object_add (low high x : Nat) :
    object (low + high) x = object low x ++ object high (x / 256 ^ low) := by
  induction low generalizing x with
  | zero => simp [object]
  | succ low ih =>
      rw [Nat.add_right_comm, object, object, List.cons_append, ih, Nat.div_div_eq_div_mul,
        Nat.pow_succ, Nat.mul_comm (256 ^ low)]

theorem bigEndian_add (high low x : Nat) :
    bigEndian (high + low) x = bigEndian high (x / 256 ^ low) ++ bigEndian low x := by
  rw [bigEndian, Nat.add_comm, object_add, List.reverse_append]
  rfl

end Angel.Lib
