import Mathlib.Algebra.Order.Ring.Int
import Mathlib.Tactic.Common

/-!
Byte strings. Every buffer, string and wire image of the library is modelled
as a list of bytes; character literals of the source are written through
`ascii`.
-/

namespace Angel

abbrev Bytes := List UInt8

/-- The bytes of an ASCII literal of the source. -/
def ascii (s : String) : Bytes := s.toList.map fun c => c.toNat.toUInt8

def CR : UInt8 := 13

def LF : UInt8 := 10

def CRLF : Bytes := [CR, LF]

def SP : UInt8 := 32

def DOT : UInt8 := 46

def EQUALS : UInt8 := 61

/-- `std::string::max_size`: no string of the program is longer. -/
def maxSize : Nat := 2 ^ 63 - 1

/-- A statement about the bytes of a string is decided along the string, not
along all bytes. -/
instance (priority := high) decidableForallBytes (s : Bytes) (P : UInt8 → Prop)
    [DecidablePred P] : Decidable (∀ b ∈ s, P b) :=
  List.decidableBAll P s

end Angel
