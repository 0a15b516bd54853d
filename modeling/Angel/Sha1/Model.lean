import Angel.Basic
import Angel.Sockops
import Mathlib.Logic.Function.Basic

/-!
The `sha1` object of `sha1.cc`: padding, the eighty rounds over one chunk, and
the stream interface. `hton64` is a parameter, because what it does depends on
how the library is compiled.
-/

namespace Angel.Sha1

open Angel.Lib

/-- What ends a call without a result. -/
inductive Fault where
  /-- `std::length_error` of a string operation. -/
  | lengthError
  /-- A read outside the bytes of a string. -/
  | outOfBounds
  /-- A failed `Assert`. -/
  | assertFailed
  deriving DecidableEq, Repr

/-- `h[0]` to `h[4]`; the working variables `a` to `e` of a chunk have the same
shape. -/
structure Words where
  a : UInt32
  b : UInt32
  c : UInt32
  d : UInt32
  e : UInt32
  deriving DecidableEq, Repr

namespace Words

def toList (h : Words) : List UInt32 := [h.a, h.b, h.c, h.d, h.e]

def add (h x : Words) : Words :=
  { a := h.a + x.a, b := h.b + x.b, c := h.c + x.c, d := h.d + x.d, e := h.e + x.e }

end Words

structure State where
  h : Words
  payload : Nat
  buf : Bytes
  deriving DecidableEq, Repr

def chunkBytes : Nat := 64

/-- `append(endptr - n, n)`, where `endptr` is the end of `src` and the `int`
`n` becomes a `size_t`. -/
def appendLast (buf src : Bytes) (n : Int) : Except Fault Bytes :=
  let count := (n % 2 ^ 64).toNat
  if maxSize - buf.length < count then .error .lengthError
  else if src.length < count then .error .outOfBounds
  else .ok (buf ++ src.drop (src.length - count))

def padding (hton64 : Nat → Nat) (buf src : Bytes) (size : Nat) : Except Fault Bytes := do
  let r : Int := ((size + 1) * 8 % 2 ^ 64 % 512 : Nat)
  let k : Int := if r ≤ 448 then 0 else 1
  let paddingZeros : Int := (k * 512 + 448 - r) / 8
  let paddingBytes : Int := 1 + paddingZeros + 8
  let remainBytes : Int := chunkBytes * (k + 1) - paddingBytes
  let buf ← appendLast buf src remainBytes
  let buf := buf ++ [0x80]
  let buf := buf ++ List.replicate paddingZeros.toNat 0
  let encodedBits := hton64 (size * 8 % 2 ^ 64)
  let buf := buf ++ object 8 encodedBits
  if buf.length % chunkBytes = 0 then .ok buf else .error .assertFailed

/-- Rotate left shift. -/
def rls (x n : UInt32) : UInt32 := x <<< n ||| x >>> (32 - n)

/-- The variables of `__chunk_cal`; the array `w` is filled as the rounds run. -/
structure Vars where
  words : Words
  w : Nat → UInt32

/-- The body that the five round macros share: `f` mixes `b`, `c` and `d`, and
`word` is the value stored in `w[i]`. -/
def round (f : UInt32 → UInt32 → UInt32 → UInt32) (word : (Nat → UInt32) → Nat → UInt32)
    (k : UInt32) (v : Vars) (i : Nat) : Vars :=
  let f := f v.words.b v.words.c v.words.d
  let w := Function.update v.w i (word v.w i)
  let t := rls v.words.a 5 + f + v.words.e + k + w i
  { words := { a := t, b := v.words.a, c := rls v.words.b 30, d := v.words.c, e := v.words.d }
    w := w }

/-- The four bytes `chunk[4 * i]` to `chunk[4 * i + 3]`, the high one first. -/
def chunkWord (chunk : Bytes) (i : Nat) : UInt32 :=
  (chunk.getD (4 * i + 0) 0).toUInt32 <<< 24 ||| (chunk.getD (4 * i + 1) 0).toUInt32 <<< 16 |||
    (chunk.getD (4 * i + 2) 0).toUInt32 <<< 8 ||| (chunk.getD (4 * i + 3) 0).toUInt32

def extendWord (w : Nat → UInt32) (i : Nat) : UInt32 :=
  rls (w (i - 3) ^^^ w (i - 8) ^^^ w (i - 14) ^^^ w (i - 16)) 1

def round1 (chunk : Bytes) : UInt32 → Vars → Nat → Vars :=
  round (fun b c d => (b &&& c) ^^^ (~~~b &&& d)) fun _ i => chunkWord chunk i

def round2 : UInt32 → Vars → Nat → Vars :=
  round (fun b c d => (b &&& c) ^^^ (~~~b &&& d)) extendWord

def round3 : UInt32 → Vars → Nat → Vars :=
  round (fun b c d => b ^^^ c ^^^ d) extendWord

def round4 : UInt32 → Vars → Nat → Vars :=
  round (fun b c d => (b &&& c) ^^^ (b &&& d) ^^^ (c &&& d)) extendWord

def round5 : UInt32 → Vars → Nat → Vars :=
  round (fun b c d => b ^^^ c ^^^ d) extendWord

/-- `__chunk_cal`: eighty rounds over the 64 bytes at `chunk`. -/
def chunkCalOne (chunk : Bytes) (h : Words) : Words :=
  -- `w` holds no value yet; every entry is written before it is read.
  let v : Vars := { words := h, w := fun _ => 0 }
  let v := (List.range' 0 16).foldl (round1 chunk 0x5A827999) v
  let v := (List.range' 16 4).foldl (round2 0x5A827999) v
  let v := (List.range' 20 20).foldl (round3 0x6ED9EBA1) v
  let v := (List.range' 40 20).foldl (round4 0x8F1BBCDC) v
  let v := (List.range' 60 20).foldl (round5 0xCA62C1D6) v
  h.add v.words

def chunkCal (h : Words) (data : Bytes) (chunks : Nat) : Words :=
  (List.range chunks).foldl (fun h i => chunkCalOne (data.drop (chunkBytes * i)) h) h

def initialWords : Words :=
  { a := 0x67452301, b := 0xEFCDAB89, c := 0x98BADCFE, d := 0x10325476, e := 0xC3D2E1F0 }

/-- `init` does not touch `buf`. -/
def State.init (s : State) : State := { s with h := initialWords, payload := 0 }

/-- A freshly constructed object. -/
def fresh : State := { h := initialWords, payload := 0, buf := [] }

def finalCal (hton64 : Nat → Nat) (s : State) : Except Fault State := do
  let paddingBuf ← padding hton64 [] s.buf s.payload
  .ok { s with h := chunkCal s.h paddingBuf (paddingBuf.length / chunkBytes), buf := [] }

/-- The first half of `update`: data goes to the partial chunk left by earlier
calls until it is full. -/
def fillChunk (s : State) (data : Bytes) : Except Fault (State × Bytes) :=
  if s.buf = [] then .ok (s, data)
  else if s.buf.length < chunkBytes then
    let len := min (chunkBytes - s.buf.length) data.length
    let buf := s.buf ++ data.take len
    let data := data.drop len
    if buf.length = chunkBytes then .ok ({ s with h := chunkCal s.h buf 1, buf := [] }, data)
    else .ok ({ s with buf := buf }, data)
  else .error .assertFailed

/-- The second half: whole chunks of the data are absorbed, the rest is kept. -/
def absorbData (s : State) (data : Bytes) : State :=
  let chunks := data.length / chunkBytes
  let remainBytes := data.length % chunkBytes
  { h := chunkCal s.h data chunks
    buf := if 0 < remainBytes then s.buf ++ data.drop (data.length - remainBytes) else s.buf
    payload := (s.payload + data.length) % 2 ^ 64 }

def update (s : State) (data : Bytes) : Except Fault State := do
  let (s, data) ← fillChunk s data
  .ok (absorbData s data)

/-- Consecutive calls of `update`. -/
def updates (s : State) (pieces : List Bytes) : Except Fault State := pieces.foldlM update s

/-- The size of the buffer of `file`. -/
def fileBytes : Nat := chunkBytes * 256

/-- The loop of `file` over a content: `read_file` fills its buffer as long as it can. -/
def fileFrom : Nat → State → Bytes → Except Fault State
  | 0, s, _ => .ok s
  | fuel + 1, s, rest =>
      if rest = [] then .ok s
      else do
        let s ← update s (rest.take fileBytes)
        fileFrom fuel s (rest.drop fileBytes)

/-- `file` of a file with this content, when no call fails. -/
def file (s : State) (content : Bytes) : Except Fault State := fileFrom content.length s content

def digest (hton64 : Nat → Nat) (s : State) : Except Fault (Bytes × State) := do
  let s ← finalCal hton64 s
  .ok (s.h.toList.flatMap fun x => object 4 (Sockops.htonl x.toNat), s.init)

/-- `tohex` of one digit. -/
def tohex (x : UInt32) : UInt8 := (ascii "0123456789ABCDEF").getD (x &&& 0x0f).toNat 0

def hexDigest (hton64 : Nat → Nat) (s : State) : Except Fault (Bytes × State) := do
  let s ← finalCal hton64 s
  let digits (x : UInt32) : Bytes :=
    [tohex (x >>> (4 * 7)), tohex (x >>> (4 * 6)), tohex (x >>> (4 * 5)), tohex (x >>> (4 * 4)),
      tohex (x >>> (4 * 3)), tohex (x >>> (4 * 2)), tohex (x >>> (4 * 1)), tohex (x >>> (4 * 0))]
  .ok (s.h.toList.flatMap digits, s.init)

end Angel.Sha1
