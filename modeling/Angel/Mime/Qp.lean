import Angel.Util
import Angel.Lib.Loop

/-!
The quoted-printable codec of `qp.cc`, with the hex functions of
`mime::codec`. What the encoder writes falls into tokens that decode on their
own, so the decoder inverts it.
-/

namespace Angel.Mime.QP

open Angel.Lib Util

def HT : UInt8 := 9

def maxLineLimit : Nat := 76

def tohexchar : Bytes := ascii "0123456789ABCDEF"

/-- What `to_hex_pair` appends. -/
def toHexPair (leadingChar c : UInt8) : Bytes :=
  [leadingChar, tohexchar.getD (c >>> 4).toNat 0, tohexchar.getD (c &&& 0x0f).toNat 0]

/-- `to_hex_value`; `255` is the -1 of the source. -/
def toHexValue (c : UInt8) : UInt8 :=
  if 48 ≤ c ∧ c ≤ 57 then c - 48
  else if 65 ≤ c ∧ c ≤ 70 then c - 65 + 10
  else if 97 ≤ c ∧ c ≤ 102 then c - 97 + 10
  else 255

def fromHexPair (c1 c2 : UInt8) : UInt8 := toHexValue c1 <<< 4 ||| toHexValue c2

def ishexnumber (c : UInt8) : Bool :=
  isdigit c || (65 ≤ c && c ≤ 70) || (97 ≤ c && c ≤ 102)

def isQPchar (c : UInt8) : Bool :=
  (33 ≤ c && c ≤ 60) || (62 ≤ c && c ≤ 126) || c = SP || c = HT

/-- Where the encoder is: what it has written, the length of the line and the
bytes to come. -/
structure EncodeState where
  res : Bytes
  count : Nat
  rest : Bytes

/-- A pass of the loop in `encode`. A soft line break does not take a byte. -/
def encodePass (s : EncodeState) : Pass EncodeState (Bytes × Nat) :=
  match s.rest with
  | [] => .done (s.res, s.count)
  | c :: rest =>
      if s.count + 1 ≤ maxLineLimit - 1 ∧ isQPchar c then
        .again { res := s.res ++ [c], count := s.count + 1, rest := rest }
      else if s.count + 3 ≤ maxLineLimit - 1 then
        .again { res := s.res ++ toHexPair EQUALS c, count := s.count + 3, rest := rest }
      else .again { res := s.res ++ (EQUALS :: CRLF), count := 0, rest := s.rest }

/-- The end of `encode`: a blank at the end of the last line is escaped. -/
def escapeLast (res : Bytes) (count : Nat) : Bytes :=
  let c := res.getLastD 0
  if c = SP ∨ c = HT then
    let res := res.dropLast
    let res := if count - 1 + 3 > maxLineLimit then res ++ (EQUALS :: CRLF) else res
    res ++ toHexPair EQUALS c
  else res

def encode (data : Bytes) : Bytes :=
  if data = [] then []
  else
    let (res, count) := (loop encodePass (2 * data.length + 1) ⟨[], 0, data⟩).getD ([], 0)
    escapeLast res count

def decode : Bytes → Bytes
  | [] => []
  | c :: data =>
      if c ≠ EQUALS then c :: decode data
      else
        match data with
        | [] => []
        | c1 :: data =>
            if !ishexnumber c1 && c1 ≠ CR then EQUALS :: c1 :: decode data
            else
              match data with
              | [] => [EQUALS, c1]
              | c2 :: data =>
                  if ishexnumber c1 then
                    if ishexnumber c2 then fromHexPair c1 c2 :: decode data
                    -- the second character is lost
                    else EQUALS :: c1 :: decode data
                  else if c2 = LF then decode data
                  else EQUALS :: c1 :: decode data

/-- `text` decodes to `data` whatever comes behind it. -/
def Decodes (text data : Bytes) : Prop := ∀ rest, decode (text ++ rest) = data ++ decode rest

theorem Decodes.append {text text' data data' : Bytes} (h : Decodes text data)
    (h' : Decodes text' data') : Decodes (text ++ text') (data ++ data') := by
  intro rest
  rw [List.append_assoc, h, h', List.append_assoc]

theorem decodes_nil : Decodes [] [] := fun _ => rfl

theorem decodes_char {c : UInt8} (h : c ≠ EQUALS) : Decodes [c] [c] := by
  intro rest
  rw [List.singleton_append, decode.eq_def]
  exact if_pos h

theorem decodes_softBreak : Decodes (EQUALS :: CRLF) [] := by
  intro rest
  simp [decode, CRLF, CR, LF, EQUALS, ishexnumber, isdigit]

theorem toHexPair_digits (c : UInt8) :
    ∃ c1 c2, toHexPair EQUALS c = [EQUALS, c1, c2] ∧ ishexnumber c1 = true ∧ ishexnumber c2 = true ∧
      fromHexPair c1 c2 = c := by
  have hall : ∀ n : Fin 256,
      ishexnumber (tohexchar.getD ((UInt8.ofNat n.1) >>> 4).toNat 0) = true ∧
      ishexnumber (tohexchar.getD ((UInt8.ofNat n.1) &&& 0x0f).toNat 0) = true ∧
      fromHexPair (tohexchar.getD ((UInt8.ofNat n.1) >>> 4).toNat 0)
        (tohexchar.getD ((UInt8.ofNat n.1) &&& 0x0f).toNat 0) = UInt8.ofNat n.1 := by decide +kernel
  have hc := hall ⟨c.toNat, c.toNat_lt⟩
  rw [UInt8.ofNat_toNat] at hc
  exact ⟨_, _, rfl, hc⟩

theorem decodes_hexPair (c : UInt8) : Decodes (toHexPair EQUALS c) [c] := by
  obtain ⟨c1, c2, hpair, hc1, hc2, hc⟩ := toHexPair_digits c
  intro rest
  simp [hpair, decode, hc1, hc2, hc]

/-- What has been written decodes to what has been read, and a blank at its end
stands for itself. -/
structure Encoded (res data : Bytes) : Prop where
  decodes : Decodes res data
  last : ∀ front c, res = front ++ [c] → c = SP ∨ c = HT → ∃ data', data = data' ++ [c] ∧ Decodes front data'

theorem Encoded.append {res data text : Bytes} {data' : Bytes} (h : Encoded res data)
    (hdecodes : Decodes text data')
    (hlast : ∃ front c, text = front ++ [c] ∧ ¬ (c = SP ∨ c = HT)) :
    Encoded (res ++ text) (data ++ data') := by
  refine ⟨h.decodes.append hdecodes, ?_⟩
  obtain ⟨front, c, rfl, hc⟩ := hlast
  intro front' c' heq hblank
  rw [← List.append_assoc] at heq
  obtain ⟨_, hlast⟩ := List.append_inj' heq rfl
  cases hlast
  exact absurd hblank hc

theorem encoded_nil : Encoded [] [] := by
  refine ⟨decodes_nil, ?_⟩
  intro front c heq
  simp at heq

theorem Encoded.char {res data : Bytes} {c : UInt8} (h : Encoded res data) (hc : c ≠ EQUALS) :
    Encoded (res ++ [c]) (data ++ [c]) := by
  refine ⟨h.decodes.append (decodes_char hc), ?_⟩
  intro front c' heq _
  obtain ⟨rfl, hlast⟩ := List.append_inj' heq rfl
  cases hlast
  exact ⟨data, rfl, h.decodes⟩

theorem Encoded.hexPair {res data : Bytes} (h : Encoded res data) (c : UInt8) :
    Encoded (res ++ toHexPair EQUALS c) (data ++ [c]) := by
  obtain ⟨c1, c2, hpair, _, hc2, _⟩ := toHexPair_digits c
  refine h.append (decodes_hexPair c) ⟨[EQUALS, c1], c2, hpair, ?_⟩
  rintro (rfl | rfl) <;> exact absurd hc2 (by decide)

theorem Encoded.softBreak {res data : Bytes} (h : Encoded res data) :
    Encoded (res ++ (EQUALS :: CRLF)) data := by
  have hbreak := h.append decodes_softBreak ⟨[EQUALS, CR], LF, rfl, by decide⟩
  rwa [List.append_nil] at hbreak

/-- The loop has encoded a front part of the data. -/
def Encoding (data : Bytes) (s : EncodeState) : Prop := ∃ done, done ++ s.rest = data ∧ Encoded s.res done

/-- The passes that can be left. -/
def EncodeState.size (s : EncodeState) : Nat := 2 * s.rest.length + if 72 < s.count then 1 else 0

private theorem encodePass_encoding {data : Bytes} (s : EncodeState) (h : Encoding data s) :
    (∃ s', encodePass s = .again s' ∧ Encoding data s' ∧ s'.size < s.size) ∨
      ∃ r, encodePass s = .done r ∧ Encoded r.1 data := by
  obtain ⟨done, hdata, hencoded⟩ := h
  obtain ⟨res, count, rest⟩ := s
  cases rest with
  | nil =>
      rw [List.append_nil] at hdata
      exact .inr ⟨_, rfl, hdata ▸ hencoded⟩
  | cons c rest =>
      left
      have hmore : (done ++ [c]) ++ rest = data := by rw [List.append_assoc]; exact hdata
      rw [encodePass]
      by_cases hchar : count + 1 ≤ maxLineLimit - 1 ∧ isQPchar c
      · have hne : c ≠ EQUALS := by
          rintro rfl
          exact absurd hchar.2 (by decide)
        simp only [if_pos hchar]
        refine ⟨_, rfl, ⟨done ++ [c], hmore, hencoded.char hne⟩, ?_⟩
        simp only [EncodeState.size, List.length_cons]
        split <;> split <;> omega
      by_cases hpair : count + 3 ≤ maxLineLimit - 1
      · simp only [if_neg hchar, if_pos hpair]
        refine ⟨_, rfl, ⟨done ++ [c], hmore, hencoded.hexPair c⟩, ?_⟩
        simp only [EncodeState.size, List.length_cons]
        split <;> split <;> omega
      · simp only [if_neg hchar, if_neg hpair]
        refine ⟨_, rfl, ⟨done, hdata, hencoded.softBreak⟩, ?_⟩
        have hlong : 72 < count := by
          have hlimit : maxLineLimit = 76 := rfl
          omega
        simp only [EncodeState.size, if_pos hlong]
        simp

private theorem escapeLast_decodes {res data : Bytes} (h : Encoded res data) (count : Nat) :
    decode (escapeLast res count) = data := by
  have hend : ∀ text, Decodes text data → decode text = data := by
    intro text htext
    have hnil := htext []
    rwa [List.append_nil, decode, List.append_nil] at hnil
  rw [escapeLast]
  split
  · next hblank =>
      have hne : res ≠ [] := by
        rintro rfl
        exact absurd hblank (by decide)
      have hres : res = res.dropLast ++ [res.getLastD 0] := by
        rw [List.getLastD_eq_getLast?, List.getLast?_eq_some_getLast hne, Option.getD_some,
          List.dropLast_append_getLast hne]
      obtain ⟨data', hdata, hfront⟩ := h.last _ _ hres hblank
      apply hend
      rw [hdata]
      refine Decodes.append ?_ (decodes_hexPair _)
      split
      · have hbreak := hfront.append decodes_softBreak
        rwa [List.append_nil] at hbreak
      · exact hfront
  · exact hend res h.decodes

theorem encode_loop {data : Bytes} (hdata : data ≠ []) :
    ∃ r, loop encodePass (2 * data.length + 1) ⟨[], 0, data⟩ = some r ∧
      encode data = escapeLast r.1 r.2 ∧ Encoded r.1 data := by
  have hstart : Encoding data ⟨[], 0, data⟩ := ⟨[], rfl, encoded_nil⟩
  obtain ⟨r, hloop, hencoded⟩ := loop_spec EncodeState.size encodePass_encoding hstart
    (show EncodeState.size ⟨[], 0, data⟩ < 2 * data.length + 1 by
      simp [EncodeState.size])
  refine ⟨r, hloop, ?_, hencoded⟩
  rw [encode, if_neg hdata, hloop]
  rfl

theorem decode_encode {data : Bytes} (hdata : data ≠ []) : decode (encode data) = data := by
  obtain ⟨r, _, hencode, hencoded⟩ := encode_loop hdata
  rw [hencode]
  exact escapeLast_decodes hencoded r.2

/-- Whatever is encoded is decoded again: no alignment of escapes and soft breaks loses
a byte. -/
theorem encode_round_trip (data : Bytes) : decode (encode data) = data := by
  by_cases hdata : data = []
  · rw [hdata, encode, if_pos rfl, decode]
  · exact decode_encode hdata

end Angel.Mime.QP
