import Angel.Basic

/-!
The base64 codec of `base64.cc`. The encoder walks the input in groups of
three bytes; the decoder is an accumulator of four slots that is emptied
whenever it is full. A code of zero in the decoder's table marks a byte that
is not in the alphabet, and it is also the code of the letter A.
-/

namespace Angel.Base64

inductive Encode where
  | standard
  | mime
  | urlSafe
  deriving DecidableEq, Repr

def standardAlphabet : Bytes :=
  ascii "ABCDEFGHIJKLMNOPQRSTUVWXYZabcdefghijklmnopqrstuvwxyz0123456789+/"

def urlSafeAlphabet : Bytes :=
  ascii "ABCDEFGHIJKLMNOPQRSTUVWXYZabcdefghijklmnopqrstuvwxyz0123456789-_"

def maxLineLimit : Nat := 76

def Encode.alphabet : Encode → Bytes
  | .urlSafe => urlSafeAlphabet
  | _ => standardAlphabet

/-- `alphabet[i]` for a six-bit index. -/
def Encode.charAt (code : Encode) (i : UInt8) : UInt8 :=
  code.alphabet.getD i.toNat 0

/-- The six-bit groups of one full group of three bytes. -/
def sextets3 (a b c : UInt8) : Bytes :=
  [a >>> 2, ((a &&& 0x03) <<< 4) ||| (b >>> 4),
    ((b &&& 0x0F) <<< 2) ||| (c >>> 6), c &&& 0x3F]

/-- The six-bit groups of two trailing bytes, completed with zero bits. -/
def sextets2 (a b : UInt8) : Bytes :=
  [a >>> 2, ((a &&& 0x03) <<< 4) ||| (b >>> 4), (b &&& 0x0F) <<< 2]

/-- The six-bit groups of one trailing byte, completed with zero bits. -/
def sextets1 (a : UInt8) : Bytes :=
  [a >>> 2, (a &&& 0x03) <<< 4]

/-- The loop over the groups of three bytes, then the switch on `len % 3`.
`j` counts the characters of the current line in the MIME form. -/
def encodeFrom (code : Encode) (j : Nat) : Bytes → Bytes
  | a :: b :: c :: rest =>
      (sextets3 a b c).map code.charAt ++
        if code = .mime then
          if j + 4 = maxLineLimit then CRLF ++ encodeFrom code 0 rest
          else encodeFrom code (j + 4) rest
        else encodeFrom code j rest
  | [a, b] => (sextets2 a b).map code.charAt ++ ascii "="
  | [a] => (sextets1 a).map code.charAt ++ ascii "=="
  | [] => []

def base64Encode (data : Bytes) (code : Encode) : Bytes := encodeFrom code 0 data

def standardMapchars : Bytes := [
    0,      0,      0,      0,      0,      0,      0,      0,
    0,      0,      0,      0,      0,      0,      0,      0,
    0,      0,      0,      0,      0,      0,      0,      0,
    0,      0,      0,      0,      0,      0,      0,      0,
    0,      0,      0,      0,      0,      0,      0,      0,
    0,      0,      0,     62,      0,      0,      0,     63,
   52,     53,     54,     55,     56,     57,     58,     59,
   60,     61,      0,      0,      0,      0,      0,      0,
    0,      0,      1,      2,      3,      4,      5,      6,
    7,      8,      9,     10,     11,     12,     13,     14,
   15,     16,     17,     18,     19,     20,     21,     22,
   23,     24,     25,      0,      0,      0,      0,      0,
    0,     26,     27,     28,     29,     30,     31,     32,
   33,     34,     35,     36,     37,     38,     39,     40,
   41,     42,     43,     44,     45,     46,     47,     48,
   49,     50,     51,      0,      0,      0,      0,      0]

def urlSafeMapchars : Bytes := [
    0,      0,      0,      0,      0,      0,      0,      0,
    0,      0,      0,      0,      0,      0,      0,      0,
    0,      0,      0,      0,      0,      0,      0,      0,
    0,      0,      0,      0,      0,      0,      0,      0,
    0,      0,      0,      0,      0,      0,      0,      0,
    0,      0,      0,      0,      0,     62,      0,      0,
   52,     53,     54,     55,     56,     57,     58,     59,
   60,     61,      0,      0,      0,      0,      0,      0,
    0,      0,      1,      2,      3,      4,      5,      6,
    7,      8,      9,     10,     11,     12,     13,     14,
   15,     16,     17,     18,     19,     20,     21,     22,
   23,     24,     25,      0,      0,      0,      0,     63,
    0,     26,     27,     28,     29,     30,     31,     32,
   33,     34,     35,     36,     37,     38,     39,     40,
   41,     42,     43,     44,     45,     46,     47,     48,
   49,     50,     51,      0,      0,      0,      0,      0]

def Encode.mapchars : Encode → Bytes
  | .urlSafe => urlSafeMapchars
  | _ => standardMapchars

/-- `mapchars[(unsigned char)(c)]`. The upper half of the array is not
written in its initialiser, so it is zero. -/
def Encode.mapChar (code : Encode) (c : UInt8) : UInt8 :=
  code.mapchars.getD c.toNat 0

/-- The mark of a padding character in the slots. -/
def EQ : UInt8 := 128

/-- `unsigned char c[4]`. -/
structure Slots where
  c0 : UInt8
  c1 : UInt8
  c2 : UInt8
  c3 : UInt8
  deriving DecidableEq, Repr

def Slots.set (c : Slots) (j : Nat) (v : UInt8) : Slots :=
  match j with
  | 0 => { c with c0 := v }
  | 1 => { c with c1 := v }
  | 2 => { c with c2 := v }
  | _ => { c with c3 := v }

structure DecodeState where
  res : Bytes
  c : Slots
  j : Nat
  deriving DecidableEq, Repr

inductive DecodeStep where
  | next (s : DecodeState)
  | done (res : Bytes)
  deriving DecidableEq, Repr

/-- The loop body behind `++j`: a full accumulator is turned into bytes, and
a padding character in the third or fourth slot ends the decoding. -/
def DecodeState.filled (s : DecodeState) : DecodeStep :=
  if s.j + 1 < 4 then .next { s with j := s.j + 1 }
  else if s.c.c2 = EQ ∧ s.c.c3 ≠ EQ then
    .next { s with c := { s.c with c2 := s.c.c3 }, j := 3 }
  else
    let r0 := (s.c.c0 <<< 2) ||| (s.c.c1 >>> 4)
    if s.c.c2 = EQ then .done (s.res ++ [r0])
    else
      let r1 := (s.c.c1 <<< 4) ||| (s.c.c2 >>> 2)
      if s.c.c3 = EQ then .done (s.res ++ [r0, r1])
      else
        let r2 := (s.c.c2 <<< 6) ||| s.c.c3
        .next { s with res := s.res ++ [r0, r1, r2], j := 0 }

def decodeStep (code : Encode) (s : DecodeState) (ch : UInt8) : DecodeStep :=
  let v := code.mapChar ch
  let s := { s with c := s.c.set s.j v }
  if v ≠ 0 then s.filled
  else if ch = 61 then
    if s.j < 2 then .next s
    else DecodeState.filled { s with c := s.c.set s.j EQ }
  else .next s

def decodeLoop (code : Encode) (s : DecodeState) : Bytes → Bytes
  | [] => if s.j = 0 then s.res else []
  | ch :: rest =>
      match decodeStep code s ch with
      | .next s => decodeLoop code s rest
      | .done res => res

def base64Decode (data : Bytes) (code : Encode) : Bytes :=
  if data.length < 4 then []
  else decodeLoop code ⟨[], ⟨0, 0, 0, 0⟩, 0⟩ data

def encode (data : Bytes) : Bytes := base64Encode data .standard

def decode (data : Bytes) : Bytes := base64Decode data .standard

def urlsafeEncode (data : Bytes) : Bytes := base64Encode data .urlSafe

def urlsafeDecode (data : Bytes) : Bytes := base64Decode data .urlSafe

def mimeEncode (data : Bytes) : Bytes := base64Encode data .mime

def mimeDecode (data : Bytes) : Bytes := base64Decode data .mime

/-- The six-bit groups of a byte string, the last one completed with zero
bits. They are the alphabet indices of the encoding in order. -/
def sextets : Bytes → Bytes
  | a :: b :: c :: rest => sextets3 a b c ++ sextets rest
  | [a, b] => sextets2 a b
  | [a] => sextets1 a
  | [] => []

private theorem lt_of_and_eq {x : UInt8} (h : x &&& 0x3F = x) : x < 64 := by
  have hle : (x &&& 0x3F).toNat ≤ 63 := by
    rw [UInt8.toNat_and]
    exact Nat.and_le_right
  rw [h] at hle
  rw [UInt8.lt_iff_toNat_lt]
  change x.toNat < 64
  omega

private theorem index8 {i : Nat} (hi : i < 8) :
    i = 0 ∨ i = 1 ∨ i = 2 ∨ i = 3 ∨ i = 4 ∨ i = 5 ∨ i = 6 ∨ i = 7 := by
  omega

private theorem sextet_lt0 (a : UInt8) : a >>> 2 < 64 := by
  apply lt_of_and_eq
  apply UInt8.toBitVec_inj.1
  ext i hi
  rcases index8 hi with rfl | rfl | rfl | rfl | rfl | rfl | rfl | rfl <;> simp

private theorem sextet_lt1 (a b : UInt8) :
    ((a &&& 0x03) <<< 4) ||| (b >>> 4) < 64 := by
  apply lt_of_and_eq
  apply UInt8.toBitVec_inj.1
  ext i hi
  rcases index8 hi with rfl | rfl | rfl | rfl | rfl | rfl | rfl | rfl <;> simp

private theorem sextet_lt2 (b c : UInt8) :
    ((b &&& 0x0F) <<< 2) ||| (c >>> 6) < 64 := by
  apply lt_of_and_eq
  apply UInt8.toBitVec_inj.1
  ext i hi
  rcases index8 hi with rfl | rfl | rfl | rfl | rfl | rfl | rfl | rfl <;> simp

private theorem sextet_lt3 (c : UInt8) : c &&& 0x3F < 64 := by
  apply lt_of_and_eq
  apply UInt8.toBitVec_inj.1
  ext i hi
  rcases index8 hi with rfl | rfl | rfl | rfl | rfl | rfl | rfl | rfl <;> simp

private theorem join0 (a b : UInt8) :
    ((a >>> 2) <<< 2) ||| ((((a &&& 0x03) <<< 4) ||| (b >>> 4)) >>> 4) = a := by
  apply UInt8.toBitVec_inj.1
  ext i hi
  rcases index8 hi with rfl | rfl | rfl | rfl | rfl | rfl | rfl | rfl <;> simp

private theorem join1 (a b c : UInt8) :
    ((((a &&& 0x03) <<< 4) ||| (b >>> 4)) <<< 4) |||
      ((((b &&& 0x0F) <<< 2) ||| (c >>> 6)) >>> 2) = b := by
  apply UInt8.toBitVec_inj.1
  ext i hi
  rcases index8 hi with rfl | rfl | rfl | rfl | rfl | rfl | rfl | rfl <;> simp

private theorem join2 (b c : UInt8) :
    ((((b &&& 0x0F) <<< 2) ||| (c >>> 6)) <<< 6) ||| (c &&& 0x3F) = c := by
  apply UInt8.toBitVec_inj.1
  ext i hi
  rcases index8 hi with rfl | rfl | rfl | rfl | rfl | rfl | rfl | rfl <;> simp

private theorem alphabet_mapChar (code : Encode) :
    code.alphabet.map code.mapChar = (List.range 64).map UInt8.ofNat := by
  have hstandard : Encode.standard.alphabet.map Encode.standard.mapChar =
      (List.range 64).map UInt8.ofNat := by
    decide +kernel
  cases code with
  | standard => exact hstandard
  | mime => exact hstandard
  | urlSafe => decide

theorem mapChar_charAt (code : Encode) {i : UInt8} (hi : i < 64) :
    code.mapChar (code.charAt i) = i := by
  have hindex : i.toNat < 64 := by simpa [UInt8.lt_iff_toNat_lt] using hi
  have hcode : (code.alphabet.map code.mapChar)[i.toNat]? = some i := by
    rw [alphabet_mapChar, List.getElem?_map, List.getElem?_range hindex]
    simp
  rw [List.getElem?_map, Option.map_eq_some_iff] at hcode
  obtain ⟨c, hc, hmap⟩ := hcode
  rw [Encode.charAt, List.getD_eq_getElem?_getD, hc]
  exact hmap

theorem charAt_mem (code : Encode) {i : UInt8} (hi : i < 64) : code.charAt i ∈ code.alphabet := by
  have hlen : code.alphabet.length = 64 := by cases code <;> rfl
  have hv : i.toNat < code.alphabet.length := by
    rw [hlen]
    simpa [UInt8.lt_iff_toNat_lt] using hi
  rw [Encode.charAt, List.getD_eq_getElem?_getD, List.getElem?_eq_getElem hv]
  exact List.getElem_mem hv

@[simp] theorem mapChar_pad (code : Encode) : code.mapChar 61 = 0 := by
  cases code <;> decide

@[simp] theorem mapChar_CR (code : Encode) : code.mapChar CR = 0 := by
  cases code <;> decide

@[simp] theorem mapChar_LF (code : Encode) : code.mapChar LF = 0 := by
  cases code <;> decide

theorem decodeStep_char (code : Encode) (s : DecodeState) {i : UInt8}
    (hi : i < 64) (hzero : i ≠ 0) :
    decodeStep code s (code.charAt i) =
      DecodeState.filled { s with c := s.c.set s.j i } := by
  simp [decodeStep, mapChar_charAt code hi, hzero]

/-- A padding character is skipped in the first two slots and marked with
`EQ` in the last two. -/
theorem decodeStep_pad (code : Encode) (s : DecodeState) :
    decodeStep code s 61 =
      if s.j < 2 then .next { s with c := s.c.set s.j 0 }
      else DecodeState.filled { s with c := (s.c.set s.j 0).set s.j EQ } := by
  simp [decodeStep]

private theorem ne_EQ_of_lt {i : UInt8} (hi : i < 64) : i ≠ EQ := by
  rintro rfl
  exact absurd hi (by decide)

/-- Four non-zero codes are turned into three bytes and leave the accumulator
empty, whatever the slots held before. -/
theorem decodeLoop_group (code : Encode) (res rest : Bytes) (c : Slots)
    {i0 i1 i2 i3 : UInt8} (h0 : i0 < 64) (h1 : i1 < 64) (h2 : i2 < 64) (h3 : i3 < 64)
    (z0 : i0 ≠ 0) (z1 : i1 ≠ 0) (z2 : i2 ≠ 0) (z3 : i3 ≠ 0) :
    decodeLoop code ⟨res, c, 0⟩ ([i0, i1, i2, i3].map code.charAt ++ rest) =
      decodeLoop code
        ⟨res ++ [(i0 <<< 2) ||| (i1 >>> 4), (i1 <<< 4) ||| (i2 >>> 2), (i2 <<< 6) ||| i3],
          ⟨i0, i1, i2, i3⟩, 0⟩ rest := by
  simp [decodeLoop, decodeStep_char code, h0, h1, h2, h3, z0, z1, z2, z3,
    DecodeState.filled, Slots.set, ne_EQ_of_lt h2, ne_EQ_of_lt h3]

theorem decodeLoop_tail2 (code : Encode) (res : Bytes) (c : Slots)
    {i0 i1 i2 : UInt8} (h0 : i0 < 64) (h1 : i1 < 64) (h2 : i2 < 64)
    (z0 : i0 ≠ 0) (z1 : i1 ≠ 0) (z2 : i2 ≠ 0) :
    decodeLoop code ⟨res, c, 0⟩ ([i0, i1, i2].map code.charAt ++ ascii "=") =
      res ++ [(i0 <<< 2) ||| (i1 >>> 4), (i1 <<< 4) ||| (i2 >>> 2)] := by
  have pad : ascii "=" = [61] := by decide
  rw [pad]
  simp [decodeLoop, decodeStep_char code, h0, h1, h2, z0, z1, z2,
    DecodeState.filled, Slots.set, ne_EQ_of_lt h2, decodeStep_pad]

private theorem decodeLoop_tail1 (code : Encode) (res : Bytes) (c : Slots)
    {i0 i1 : UInt8} (h0 : i0 < 64) (h1 : i1 < 64) (z0 : i0 ≠ 0) (z1 : i1 ≠ 0) :
    decodeLoop code ⟨res, c, 0⟩ ([i0, i1].map code.charAt ++ ascii "==") =
      res ++ [(i0 <<< 2) ||| (i1 >>> 4)] := by
  have pad : ascii "==" = [61, 61] := by decide
  rw [pad]
  simp [decodeLoop, decodeStep_char code, h0, h1, z0, z1,
    DecodeState.filled, Slots.set, decodeStep_pad]

private theorem decodeLoop_CRLF (code : Encode) (res rest : Bytes) (c : Slots) :
    decodeLoop code ⟨res, c, 0⟩ (CRLF ++ rest) =
      decodeLoop code ⟨res, { c with c0 := 0 }, 0⟩ rest := by
  have hCR : CR ≠ 61 := by decide
  have hLF : LF ≠ 61 := by decide
  simp [CRLF, decodeLoop, decodeStep, Slots.set, hCR, hLF]

theorem decodeLoop_encodeFrom (code : Encode) (j : Nat) (data res : Bytes) (c : Slots)
    (hdata : ∀ s ∈ sextets data, s ≠ 0) :
    decodeLoop code ⟨res, c, 0⟩ (encodeFrom code j data) = res ++ data := by
  fun_induction encodeFrom code j data generalizing res c with
  | case1 j x y z rest ihBreak ihLine ihPlain =>
      have hrest : ∀ s ∈ sextets rest, s ≠ 0 := by
        intro s hs
        exact hdata s (by simp [sextets, hs])
      simp only [sextets, sextets3, List.mem_append, List.mem_cons] at hdata
      rw [sextets3, decodeLoop_group code _ _ _ (sextet_lt0 x) (sextet_lt1 x y)
        (sextet_lt2 y z) (sextet_lt3 z) (hdata _ (by simp)) (hdata _ (by simp))
        (hdata _ (by simp)) (hdata _ (by simp)), join0, join1, join2]
      split
      · split
        · rw [decodeLoop_CRLF, ihBreak _ _ hrest, List.append_assoc]
          rfl
        · rw [ihLine _ _ hrest, List.append_assoc]
          rfl
      · rw [ihPlain _ _ hrest, List.append_assoc]
        rfl
  | case2 j x y =>
      simp only [sextets, sextets2, List.mem_cons] at hdata
      have hlast : (y &&& 0x0F) <<< 2 < 64 := by simpa using sextet_lt2 y 0
      have hjoin := join1 x y 0
      simp only [UInt8.zero_shiftRight, UInt8.or_zero] at hjoin
      rw [sextets2, decodeLoop_tail2 code _ _ (sextet_lt0 x) (sextet_lt1 x y) hlast
        (hdata _ (by simp)) (hdata _ (by simp)) (hdata _ (by simp)), join0, hjoin]
  | case3 j x =>
      simp only [sextets, sextets1, List.mem_cons] at hdata
      have hlast : (x &&& 0x03) <<< 4 < 64 := by simpa using sextet_lt1 x 0
      have hjoin := join0 x 0
      simp only [UInt8.zero_shiftRight, UInt8.or_zero] at hjoin
      rw [sextets1, decodeLoop_tail1 code _ _ (sextet_lt0 x) hlast
        (hdata _ (by simp)) (hdata _ (by simp)), hjoin]
  | case4 => simp [decodeLoop]

/-- The number of alphabet characters with a non-zero code. -/
def validCount (code : Encode) (data : Bytes) : Nat :=
  data.countP fun ch => code.mapChar ch ≠ 0

/-- The slots in use that hold a code, not a padding mark. -/
def DecodeState.codes (s : DecodeState) : Nat :=
  if s.j = 3 ∧ s.c.c2 = EQ then 2 else s.j

/-- What one character can add: three quarters of a byte, and only when its
code is not zero. -/
theorem decodeStep_bound (code : Encode) (s : DecodeState) (ch : UInt8) (hj : s.j < 4) :
    match decodeStep code s ch with
    | .next t => t.j < 4 ∧ 4 * t.res.length + 3 * t.codes ≤
        4 * s.res.length + 3 * (s.codes + validCount code [ch])
    | .done res => 4 * res.length ≤
        4 * s.res.length + 3 * (s.codes + validCount code [ch]) := by
  obtain ⟨res, c, j⟩ := s
  have hcases : j = 0 ∨ j = 1 ∨ j = 2 ∨ j = 3 := by
    change j < 4 at hj
    omega
  by_cases hv : code.mapChar ch = 0
  · by_cases hpad : ch = 61
    · subst hpad
      rw [decodeStep_pad]
      rcases hcases with rfl | rfl | rfl | rfl
      all_goals simp [DecodeState.filled, DecodeState.codes, Slots.set, validCount]
      all_goals grind
    · rcases hcases with rfl | rfl | rfl | rfl <;>
        simp [decodeStep, hv, hpad, DecodeState.codes, Slots.set, validCount]
  · rcases hcases with rfl | rfl | rfl | rfl
    all_goals
      simp [decodeStep, hv, DecodeState.filled, DecodeState.codes, Slots.set, validCount]
    all_goals grind

theorem decodeLoop_length (code : Encode) (s : DecodeState) (data : Bytes) (hj : s.j < 4) :
    4 * (decodeLoop code s data).length ≤
      4 * s.res.length + 3 * (s.codes + validCount code data) := by
  induction data generalizing s with
  | nil =>
      simp only [decodeLoop]
      split
      · omega
      · simp
  | cons ch rest ih =>
      have hcount : validCount code (ch :: rest) =
          validCount code [ch] + validCount code rest := by
        simp only [validCount, List.countP_cons, List.countP_nil]
        omega
      have hstep := decodeStep_bound code s ch hj
      rw [decodeLoop, hcount]
      cases hrun : decodeStep code s ch with
      | next t =>
          rw [hrun] at hstep
          have hrest := ih t hstep.1
          have := hstep.2
          dsimp only
          omega
      | done res =>
          rw [hrun] at hstep
          dsimp only at hstep ⊢
          omega

private theorem validCount_append (code : Encode) (xs ys : Bytes) :
    validCount code (xs ++ ys) = validCount code xs + validCount code ys :=
  List.countP_append

theorem validCount_charAt (code : Encode) (is : Bytes) (his : ∀ i ∈ is, i < 64) :
    validCount code (is.map code.charAt) = is.countP (· ≠ 0) := by
  induction is with
  | nil => rfl
  | cons i rest ih =>
      have hi := his i (by simp)
      have hrest := ih (fun k hk => his k (by simp [hk]))
      simp only [validCount] at hrest ⊢
      simp only [List.map_cons, List.countP_cons, mapChar_charAt code hi, hrest]

theorem sextets3_lt (a b c : UInt8) : ∀ i ∈ sextets3 a b c, i < 64 := by
  simp only [sextets3, List.mem_cons, List.not_mem_nil, or_false]
  rintro i (rfl | rfl | rfl | rfl)
  · exact sextet_lt0 a
  · exact sextet_lt1 a b
  · exact sextet_lt2 b c
  · exact sextet_lt3 c

theorem sextets2_lt (a b : UInt8) : ∀ i ∈ sextets2 a b, i < 64 := by
  simp only [sextets2, List.mem_cons, List.not_mem_nil, or_false]
  rintro i (rfl | rfl | rfl)
  · exact sextet_lt0 a
  · exact sextet_lt1 a b
  · simpa using sextet_lt2 b 0

theorem sextets1_lt (a : UInt8) : ∀ i ∈ sextets1 a, i < 64 := by
  simp only [sextets1, List.mem_cons, List.not_mem_nil, or_false]
  rintro i (rfl | rfl)
  · exact sextet_lt0 a
  · simpa using sextet_lt1 a 0

theorem sextets_lt (data : Bytes) : ∀ i ∈ sextets data, i < 64 := by
  fun_induction sextets data with
  | case1 x y z rest ih =>
      intro i hi
      rcases List.mem_append.mp hi with hi | hi
      · exact sextets3_lt x y z i hi
      · exact ih i hi
  | case2 x y => exact sextets2_lt x y
  | case3 x => exact sextets1_lt x
  | case4 => simp

/-- Padding and line breaks have code zero, so the codes the decoder sees are
the non-zero six-bit groups of the input. -/
theorem validCount_encodeFrom (code : Encode) (j : Nat) (data : Bytes) :
    validCount code (encodeFrom code j data) = (sextets data).countP (· ≠ 0) := by
  have hpad1 : validCount code (ascii "=") = 0 := by cases code <;> decide
  have hpad2 : validCount code (ascii "==") = 0 := by cases code <;> decide
  have hbreak : validCount code CRLF = 0 := by cases code <;> decide
  fun_induction encodeFrom code j data with
  | case1 j x y z rest ihBreak ihLine ihPlain =>
      rw [validCount_append, validCount_charAt code _ (sextets3_lt x y z), sextets,
        List.countP_append]
      congr 1
      split
      · split
        · rw [validCount_append, hbreak, ihBreak, Nat.zero_add]
        · exact ihLine
      · exact ihPlain
  | case2 j x y =>
      rw [validCount_append, hpad1, validCount_charAt code _ (sextets2_lt x y)]
      rfl
  | case3 j x =>
      rw [validCount_append, hpad2, validCount_charAt code _ (sextets1_lt x)]
      rfl
  | case4 => rfl

private theorem sextets_length (data : Bytes) :
    3 * (sextets data).length ≤ 4 * data.length + 2 := by
  fun_induction sextets data with
  | case1 x y z rest ih =>
      simp only [sextets3, List.length_append, List.length_cons, List.length_nil]
      omega
  | case2 => simp [sextets2]
  | case3 => simp [sextets1]
  | case4 => simp

private theorem encodeFrom_length (code : Encode) (j : Nat) (data : Bytes) (hdata : data ≠ []) :
    4 ≤ (encodeFrom code j data).length := by
  have hpad1 : (ascii "=").length = 1 := by decide
  have hpad2 : (ascii "==").length = 2 := by decide
  cases data with
  | nil => exact absurd rfl hdata
  | cons x rest =>
      cases rest with
      | nil => simp [encodeFrom, sextets1, hpad2]
      | cons y rest =>
          cases rest with
          | nil => simp [encodeFrom, sextets2, hpad1]
          | cons z rest => simp [encodeFrom, sextets3]

/-- A byte string survives the codec exactly when none of its six-bit groups
is zero: a zero group is encoded as the letter A, which the decoder skips. -/
theorem base64Decode_base64Encode_iff (code : Encode) (data : Bytes) :
    base64Decode (base64Encode data code) code = data ↔
      ∀ s ∈ sextets data, s ≠ 0 := by
  by_cases hdata : data = []
  · subst hdata
    simp [base64Encode, encodeFrom, base64Decode, sextets]
  · have hlen : ¬ (base64Encode data code).length < 4 := by
      have := encodeFrom_length code 0 data hdata
      simp only [base64Encode]
      omega
    rw [base64Decode, if_neg hlen, base64Encode]
    constructor
    · intro heq
      by_contra hzero
      have hlost : (sextets data).countP (· ≠ 0) < (sextets data).length := by
        apply Nat.lt_of_le_of_ne List.countP_le_length
        intro hall
        exact hzero (by simpa using List.countP_eq_length.mp hall)
      have hbound := decodeLoop_length code ⟨[], ⟨0, 0, 0, 0⟩, 0⟩ (encodeFrom code 0 data)
        (by decide)
      have hcodes : DecodeState.codes ⟨[], ⟨0, 0, 0, 0⟩, 0⟩ = 0 := by decide
      rw [heq, validCount_encodeFrom, hcodes] at hbound
      have hsize := sextets_length data
      simp only [List.length_nil] at hbound
      omega
    · intro hall
      rw [decodeLoop_encodeFrom code 0 data [] _ hall, List.nil_append]

/-- All three codecs round-trip exactly on the byte strings without a zero
six-bit group. -/
theorem codecs_round_trip_iff (data : Bytes) :
    (decode (encode data) = data ∧ urlsafeDecode (urlsafeEncode data) = data ∧
      mimeDecode (mimeEncode data) = data) ↔ ∀ s ∈ sextets data, s ≠ 0 := by
  simp only [decode, encode, urlsafeDecode, urlsafeEncode, mimeDecode, mimeEncode,
    base64Decode_base64Encode_iff, and_self]

/-- The single byte zero is encoded as `AA==` and decoded as nothing. -/
theorem codecs_lose_zero_byte :
    ¬ (decode (encode [0]) = [0] ∧ urlsafeDecode (urlsafeEncode [0]) = [0] ∧
      mimeDecode (mimeEncode [0]) = [0]) := by
  decide

end Angel.Base64
