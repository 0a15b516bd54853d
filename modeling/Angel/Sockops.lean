import Angel.Lib.Endian
import Mathlib.Data.Nat.Bitwise

/-!
The byte order conversions of `sockops.h`. The machine is little-endian; what
`hton64` and `ntoh64` do depends on whether the compiler defines
`__LITTLE_ENDIAN__`.
-/

namespace Angel.Sockops

open Angel.Lib

/-- `htons` and `htonl`: the integer whose bytes in memory are the argument's
from the high one down. -/
def hton (width host : Nat) : Nat := load (bigEndian width host)

def htons (host : Nat) : Nat := hton 2 host

def ntohs (net : Nat) : Nat := hton 2 net

def htonl (host : Nat) : Nat := hton 4 host

def ntohl (net : Nat) : Nat := hton 4 net

def hton64 (__LITTLE_ENDIAN__ : Bool) (host : Nat) : Nat :=
  if __LITTLE_ENDIAN__ then
    (htonl (host &&& 0xffffffff)) <<< 32 ||| htonl (host >>> 32)
  else host

def ntoh64 (__LITTLE_ENDIAN__ : Bool) (net : Nat) : Nat :=
  if __LITTLE_ENDIAN__ then
    (ntohl (net &&& 0xffffffff)) <<< 32 ||| ntohl (net >>> 32)
  else net

theorem object_hton (width host : Nat) : object width (hton width host) = bigEndian width host := by
  have h := object_load (bigEndian width host)
  rwa [bigEndian_length] at h

theorem hton_load (bytes : List UInt8) : hton bytes.length (load bytes) = load bytes.reverse := by
  rw [hton, bigEndian, object_load]

theorem hton_lt (width host : Nat) : hton width host < 256 ^ width := by
  have h := load_lt (bigEndian width host)
  rwa [bigEndian_length] at h

theorem hton_hton (width host : Nat) (h : host < 256 ^ width) :
    hton width (hton width host) = host := by
  have hobject := object_hton width host
  rw [hton, bigEndian, hobject, bigEndian, List.reverse_reverse, load_object, Nat.mod_eq_of_lt h]

/-- With the macro defined the two halves are swapped as well as their bytes. -/
theorem hton64_eq_hton (host : Nat) : hton64 true host = hton 8 host := by
  have hlow : host &&& 0xffffffff = host % 2 ^ 32 := Nat.and_two_pow_sub_one_eq_mod host 32
  have hsum : hton64 true host =
      htonl (host % 2 ^ 32) * 2 ^ 32 + htonl (host >>> 32) := by
    rw [hton64, if_pos rfl, hlow, Nat.shiftLeft_eq, Nat.mul_comm]
    exact (Nat.two_pow_add_eq_or_of_lt (hton_lt 4 _) _).symm
  have hobject : object 8 (hton64 true host) = object 8 (hton 8 host) := by
    have hhigh : (htonl (host % 2 ^ 32) * 2 ^ 32 + htonl (host >>> 32)) / 256 ^ 4 =
        htonl (host % 2 ^ 32) := by
      have hlt := hton_lt 4 (host >>> 32)
      rw [htonl, htonl] at *
      omega
    have hlowobj : object 4 (htonl (host % 2 ^ 32) * 2 ^ 32 + htonl (host >>> 32)) =
        bigEndian 4 (host >>> 32) := by
      rw [← object_mod, show (256 : Nat) ^ 4 = 2 ^ 32 from rfl, Nat.mul_add_mod_self_right]
      exact (object_mod 4 _).trans (object_hton 4 _)
    rw [hsum, show 8 = 4 + 4 from rfl, object_add, hhigh, hlowobj, htonl, object_hton,
      object_hton, bigEndian_add, Nat.shiftRight_eq_div_pow, bigEndian, bigEndian,
      show (2 : Nat) ^ 32 = 256 ^ 4 from rfl, object_mod]
    rfl
  have hlt : hton64 true host < 256 ^ 8 := by
    have hl := hton_lt 4 (host >>> 32)
    have hh := hton_lt 4 (host % 2 ^ 32)
    rw [hsum, htonl, htonl]
    omega
  have hload := congrArg load hobject
  rwa [load_object, load_object, Nat.mod_eq_of_lt hlt, Nat.mod_eq_of_lt (hton_lt 8 host)] at hload

theorem ntoh64_hton64 (host : Nat) (h : host < 2 ^ 64) :
    ntoh64 true (hton64 true host) = host :=
  calc ntoh64 true (hton64 true host)
      = hton64 true (hton64 true host) := rfl
    _ = hton 8 (hton 8 host) := by rw [hton64_eq_hton, hton64_eq_hton]
    _ = host := hton_hton 8 host h

end Angel.Sockops
