import Angel.Sha1.Model

/-!
SHA-1 as its standard defines it, on messages that are byte strings: the padding,
the functions and constants of the eighty steps, and the hash computation.
-/

namespace Angel.Sha1.Standard

open Angel.Lib

/-- The zero bits between the bit that ends an `l`-bit message and its length. -/
def zeroBits (l : Nat) : Nat := (448 + 512 - (l + 1) % 512) % 512

/-- `zeroBits` is the least solution of the congruence that the standard asks
for. -/
theorem zeroBits_least (l : Nat) : IsLeast { k | (l + 1 + k) % 512 = 448 } (zeroBits l) := by
  constructor
  · show (l + 1 + zeroBits l) % 512 = 448
    rw [zeroBits]
    omega
  · intro k hk
    have hk : (l + 1 + k) % 512 = 448 := hk
    rw [zeroBits]
    omega

/-- The message, one bit `1`, `zeroBits` bits `0` and the length in 64 bits. The
bit `1` and the first seven zeros are the byte `0x80`. -/
def pad (m : Bytes) : Bytes :=
  m ++ 0x80 :: List.replicate ((zeroBits (8 * m.length) - 7) / 8) 0 ++ bigEndian 8 (8 * m.length)

def rotl (n x : UInt32) : UInt32 := x <<< n ||| x >>> (32 - n)

def ch (x y z : UInt32) : UInt32 := (x &&& y) ^^^ (~~~x &&& z)

def parity (x y z : UInt32) : UInt32 := x ^^^ y ^^^ z

def maj (x y z : UInt32) : UInt32 := (x &&& y) ^^^ (x &&& z) ^^^ (y &&& z)

def f (t : Nat) : UInt32 → UInt32 → UInt32 → UInt32 :=
  if t < 20 then ch else if t < 40 then parity else if t < 60 then maj else parity

def k (t : Nat) : UInt32 :=
  if t < 20 then 0x5a827999 else if t < 40 then 0x6ed9eba1
  else if t < 60 then 0x8f1bbcdc else 0xca62c1d6

/-- Word `t` of a block, the high byte first. -/
def blockWord (block : Bytes) (t : Nat) : UInt32 :=
  UInt32.ofNat (load ((block.drop (4 * t)).take 4).reverse)

/-- The message schedule. -/
def schedule (block : Bytes) (t : Nat) : UInt32 :=
  if t < 16 then blockWord block t
  else rotl 1 (schedule block (t - 3) ^^^ schedule block (t - 8) ^^^ schedule block (t - 14) ^^^
    schedule block (t - 16))
termination_by t
decreasing_by all_goals omega

def step (block : Bytes) (v : Words) (t : Nat) : Words :=
  { a := rotl 5 v.a + f t v.b v.c v.d + v.e + k t + schedule block t
    b := v.a, c := rotl 30 v.b, d := v.c, e := v.d }

def compress (h : Words) (block : Bytes) : Words :=
  h.add ((List.range 80).foldl (step block) h)

/-- The blocks of 64 bytes of a padded message. -/
def blocks (m : Bytes) : List Bytes :=
  (List.range (m.length / 64)).map fun i => (m.drop (64 * i)).take 64

def h0 : Words :=
  { a := 0x67452301, b := 0xefcdab89, c := 0x98badcfe, d := 0x10325476, e := 0xc3d2e1f0 }

/-- The hash value after the whole blocks of `m`. -/
def absorb (h : Words) (m : Bytes) : Words := (blocks m).foldl compress h

/-- The message digest. -/
def digest (m : Bytes) : Bytes :=
  (absorb h0 (pad m)).toList.flatMap fun x => bigEndian 4 x.toNat

/-- A byte string in upper-case hex. -/
def upperHex (s : Bytes) : Bytes :=
  s.flatMap fun b =>
    [(ascii "0123456789ABCDEF").getD (b.toNat / 16) 0, (ascii "0123456789ABCDEF").getD (b.toNat % 16) 0]

end Angel.Sha1.Standard
