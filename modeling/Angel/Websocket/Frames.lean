import Angel.Websocket.Model
import Angel.Lib.Stream
import Mathlib.Tactic.IntervalCases

/-!
Frames as RFC 6455 lays them out, and what `decode` makes of a buffer that
starts with a frame or with a part of one. How the 64-bit length is written is a
parameter of the layout.
-/

namespace Angel.Websocket

open Angel.Lib Util Buffer

/-- A frame without reserved bits. -/
structure Frame where
  fin : Bool
  opcode : UInt8
  maskingKey : Option Bytes
  payload : Bytes
  opcode_lt : opcode.toNat < 16
  key_length : ∀ key, maskingKey = some key → key.length = 4
  payload_lt : payload.length < 2 ^ 63

namespace Frame

def first (f : Frame) : UInt8 := (if f.fin then 0x80 else 0) ||| f.opcode

/-- The seven bits of length in the second byte. -/
def lengthCode (f : Frame) : Nat :=
  if f.payload.length ≤ 125 then f.payload.length
  else if f.payload.length ≤ 65535 then 126 else 127

def second (f : Frame) : UInt8 :=
  (if f.maskingKey.isSome then 0x80 else 0) ||| UInt8.ofNat f.lengthCode

section

variable (ext64 : Nat → Bytes)

/-- The extended length. -/
def extended (f : Frame) : Bytes :=
  if f.payload.length ≤ 125 then []
  else if f.payload.length ≤ 65535 then bigEndian 2 f.payload.length else ext64 f.payload.length

def body (f : Frame) : Bytes :=
  match f.maskingKey with
  | none => f.payload
  | some key => applyMask key f.payload

def encode (f : Frame) : Bytes :=
  f.first :: f.second :: (f.extended ext64 ++ (f.maskingKey.getD [] ++ f.body))

end

end Frame

/-- A 64-bit length is written in eight bytes and read back. -/
structure LengthCodec (ntoh64 : Nat → Nat) (ext64 : Nat → Bytes) : Prop where
  length : ∀ n, (ext64 n).length = 8
  read : ∀ n < 2 ^ 64, ntoh64 (load (ext64 n)) = n

theorem first_bits (b : Bool) (op : UInt8) (h : op.toNat < 16) :
    decide (((if b then 0x80 else 0) ||| op) >>> 7 ≠ 0) = b := by
  have hall : ∀ n : Fin 16, ∀ b : Bool,
      decide (((if b then 0x80 else 0) ||| UInt8.ofNat n.1) >>> 7 ≠ 0) = b := by decide
  have hop := hall ⟨op.toNat, h⟩ b
  rwa [UInt8.ofNat_toNat] at hop

theorem opcode_bits (b : Bool) (op : UInt8) (h : op.toNat < 16) :
    ((if b then 0x80 else 0) ||| op) &&& 0x0f = op := by
  have hall : ∀ n : Fin 16, ∀ b : Bool,
      ((if b then 0x80 else 0) ||| UInt8.ofNat n.1) &&& 0x0f = UInt8.ofNat n.1 := by decide
  have hop := hall ⟨op.toNat, h⟩ b
  rwa [UInt8.ofNat_toNat] at hop

theorem mask_bits (b : Bool) (n : Nat) (h : n < 128) :
    decide (((if b then 0x80 else 0) ||| UInt8.ofNat n) >>> 7 ≠ 0) = b := by
  have hall : ∀ n : Fin 128, ∀ b : Bool,
      decide (((if b then 0x80 else 0) ||| UInt8.ofNat n.1) >>> 7 ≠ 0) = b := by decide
  exact hall ⟨n, h⟩ b

theorem length_bits (b : Bool) (n : Nat) (h : n < 128) :
    (((if b then 0x80 else 0) ||| UInt8.ofNat n) &&& 0x7f).toNat = n := by
  have hall : ∀ n : Fin 128, ∀ b : Bool,
      (((if b then 0x80 else 0) ||| UInt8.ofNat n.1) &&& 0x7f).toNat = n.1 := by decide
  exact hall ⟨n, h⟩ b

theorem applyMask_length (key payload : Bytes) : (applyMask key payload).length = payload.length := by
  rw [applyMask, List.length_mapIdx]

theorem applyMask_applyMask (key payload : Bytes) : applyMask key (applyMask key payload) = payload := by
  apply List.ext_getElem
  · rw [applyMask_length, applyMask_length]
  · intro i h h'
    simp only [applyMask, List.getElem_mapIdx, UInt8.xor_assoc, UInt8.xor_self, UInt8.xor_zero]

namespace Frame

variable {ntoh64 : Nat → Nat} {ext64 : Nat → Bytes} (f : Frame)

theorem lengthCode_lt : f.lengthCode < 128 := by
  rw [lengthCode]
  split
  · omega
  · split <;> omega

theorem body_length : f.body.length = f.payload.length := by
  rw [body]
  split
  · rfl
  · rw [applyMask_length]

/-- Where the payload starts. -/
def dataOffset (ext64 : Nat → Bytes) (f : Frame) : Nat :=
  2 + (f.extended ext64).length + if f.maskingKey.isSome then 4 else 0

theorem key_getD_length : (f.maskingKey.getD []).length = if f.maskingKey.isSome then 4 else 0 := by
  cases hkey : f.maskingKey with
  | none => rfl
  | some key => exact f.key_length key hkey

theorem encode_length : (f.encode ext64).length = f.dataOffset ext64 + f.payload.length := by
  simp only [encode, dataOffset, List.length_cons, List.length_append, body_length,
    key_getD_length]
  omega

theorem encode_unmasked (hton64 : Nat → Nat) (encodedBuffer : Bytes) (h : f.maskingKey = none) :
    Websocket.encode hton64 encodedBuffer f.payload.length f.first ++ f.payload =
      encodedBuffer ++ f.encode fun n => object 8 (hton64 n) := by
  have hframe : f.encode (fun n => object 8 (hton64 n)) =
      f.first :: UInt8.ofNat f.lengthCode :: (f.extended (fun n => object 8 (hton64 n)) ++
        f.payload) := by
    simp [encode, second, body, h]
  rw [hframe, Websocket.encode, lengthCode, extended]
  rcases Nat.lt_or_ge 125 f.payload.length with hlong | hshort
  · rcases Nat.lt_or_ge 65535 f.payload.length with hhuge | hmedium
    · simp [Nat.not_le.mpr hlong, Nat.not_le.mpr hhuge]
    · simp [Nat.not_le.mpr hlong, hmedium, Sockops.htons, Sockops.object_hton]
  · simp [hshort]

theorem exists_behind {buf more rest : Bytes} (h : buf ++ more = f.encode ext64 ++ rest)
    (hlen : 2 ≤ buf.length) :
    ∃ tail, buf = f.first :: f.second :: tail ∧
      tail ++ more = f.extended ext64 ++ (f.maskingKey.getD [] ++ (f.body ++ rest)) := by
  match buf, hlen with
  | x :: y :: tail, _ =>
      simp only [encode, List.cons_append, List.append_assoc, List.cons.injEq] at h
      obtain ⟨rfl, rfl, htail⟩ := h
      exact ⟨tail, rfl, htail⟩

private theorem take_extended {tail more rest : Bytes} (h : tail ++ more = f.extended ext64 ++ rest)
    (hroom : ¬ (f.first :: f.second :: tail).length < 2 + (f.extended ext64).length) :
    ((f.first :: f.second :: tail).drop 2).take (f.extended ext64).length = f.extended ext64 := by
  have hlen : (f.extended ext64).length ≤ tail.length := by
    rw [List.length_cons, List.length_cons] at hroom
    omega
  exact take_arrived h hlen

private theorem extendedLen_arrived (hcodec : LengthCodec ntoh64 ext64) {buf more rest : Bytes}
    (h : buf ++ more = f.encode ext64 ++ rest) (hlen : 2 ≤ buf.length) :
    extendedLen ntoh64 f.lengthCode buf =
      if buf.length < 2 + (f.extended ext64).length then none
      else some (2 + (f.extended ext64).length, f.payload.length) := by
  obtain ⟨tail, rfl, htail⟩ := f.exists_behind h hlen
  have hpayload := f.payload_lt
  rcases Nat.lt_or_ge 125 f.payload.length with hlong | hshort
  · rcases Nat.lt_or_ge 65535 f.payload.length with hhuge | hmedium
    · have hcode : f.lengthCode = 127 := by
        rw [lengthCode, if_neg (by omega), if_neg (by omega)]
      have hext : f.extended ext64 = ext64 f.payload.length := by
        rw [extended, if_neg (by omega), if_neg (by omega)]
      have htake := f.take_extended htail
      rw [hext, hcodec.length] at htake ⊢
      rw [extendedLen, hcode, if_pos rfl]
      split
      · rfl
      next hroom =>
      have hread : ntoh64 (load (((f.first :: f.second :: tail).drop 2).take 8)) =
          f.payload.length := by
        rw [htake hroom, hcodec.read _ (by omega)]
      rw [hread, Nat.mod_eq_of_lt (by omega)]
    · have hcode : f.lengthCode = 126 := by
        rw [lengthCode, if_neg (by omega), if_pos hmedium]
      have hext : f.extended ext64 = bigEndian 2 f.payload.length := by
        rw [extended, if_neg (by omega), if_pos hmedium]
      have htake := f.take_extended htail
      rw [hext, bigEndian_length] at htake ⊢
      rw [extendedLen, hcode, if_neg (by decide), if_pos rfl]
      split
      · rfl
      next hroom =>
      have hread : Sockops.ntohs (load (((f.first :: f.second :: tail).drop 2).take 2)) =
          f.payload.length := by
        rw [htake hroom]
        exact Sockops.hton_hton 2 _ (by omega)
      rw [hread]
  · have hcode : f.lengthCode = f.payload.length := if_pos hshort
    have hext : f.extended ext64 = [] := if_pos hshort
    rw [extendedLen, hcode, if_neg (by omega), if_neg (by omega), hext, List.length_nil,
      if_neg (by omega)]

theorem encode_lt (hcodec : LengthCodec ntoh64 ext64) :
    f.dataOffset ext64 + f.payload.length < 2 ^ 64 := by
  have hpayload := f.payload_lt
  have hext : (f.extended ext64).length ≤ 8 := by
    rw [extended]
    split
    · exact Nat.zero_le _
    · split
      · rw [bigEndian_length]
        omega
      · rw [hcodec.length]
  rw [dataOffset]
  split <;> omega

theorem decodePayloadLen_arrived (hcodec : LengthCodec ntoh64 ext64) {buf more rest : Bytes}
    (h : buf ++ more = f.encode ext64 ++ rest) (hlen : 2 ≤ buf.length) :
    decodePayloadLen ntoh64 f.lengthCode buf f.maskingKey.isSome =
      if buf.length < (f.encode ext64).length then none
      else some (f.payload.length, 2 + (f.extended ext64).length, f.dataOffset ext64) := by
  have hsmall := f.encode_lt hcodec
  rw [encode_length, decodePayloadLen, f.extendedLen_arrived hcodec h hlen]
  split
  next heq =>
    have hroom : buf.length < 2 + (f.extended ext64).length := by
      by_contra hnot
      rw [if_neg hnot] at heq
      cases heq
    rw [if_pos (by rw [dataOffset]; omega)]
  next i n heq =>
    have hroom : ¬ buf.length < 2 + (f.extended ext64).length := by
      intro hlt
      rw [if_pos hlt] at heq
      cases heq
    rw [if_neg hroom] at heq
    obtain ⟨rfl, rfl⟩ := Prod.mk.inj (Option.some.inj heq)
    have hsum : (2 + (f.extended ext64).length + (if f.maskingKey.isSome then 4 else 0) +
        f.payload.length) % 2 ^ 64 = f.dataOffset ext64 + f.payload.length :=
      Nat.mod_eq_of_lt hsmall
    simp only [hsum]
    rfl

/-- The payload of control frames is short. -/
def ControlFits (f : Frame) : Prop := 8 ≤ f.opcode.toNat → f.payload.length ≤ 125

/-- What `decode` returns for the opcode. -/
def code (f : Frame) : Code :=
  match f.opcode.toNat with
  | 0x8 => .close
  | 0x9 => .ping
  | 0xA => .pong
  | _ => .ok

/-- What a message has collected before the frame. -/
def collected (ctx : Context) : Bytes := if ctx.rcvfragment then ctx.decodedBuffer else []

/-- The context after the frame. -/
def after (f : Frame) (ctx : Context) : Context :=
  { ctx with
    decodedBuffer := collected ctx ++ f.payload
    rcvfragment := !f.fin
    isBinaryType :=
      match f.opcode.toNat with
      | 0x1 => false
      | 0x2 => true
      | _ => ctx.isBinaryType }

section

variable {ctx : Context} {buf more rest : Bytes}

theorem decode_bits (hlen : 2 ≤ buf.length) (h : buf ++ more = f.encode ext64 ++ rest) :
    decide (buf.getD 0 0 >>> 7 ≠ 0) = f.fin ∧ (buf.getD 0 0 &&& 0x0f).toNat = f.opcode.toNat ∧
      decide (buf.getD 1 0 >>> 7 ≠ 0) = f.maskingKey.isSome ∧
      (buf.getD 1 0 &&& 0x7f).toNat = f.lengthCode := by
  obtain ⟨tail, rfl, _⟩ := f.exists_behind h hlen
  refine ⟨first_bits _ _ f.opcode_lt, ?_, mask_bits _ _ f.lengthCode_lt,
    length_bits _ _ f.lengthCode_lt⟩
  exact congrArg UInt8.toNat (opcode_bits f.fin f.opcode f.opcode_lt)

theorem decode_error (h : buf ++ more = f.encode ext64 ++ rest) (hlen : 2 ≤ buf.length)
    (hcheck : checkFragmentation ctx.rcvfragment f.fin f.opcode.toNat = false) :
    ctx.decode ntoh64 buf = .ok (.error, ctx, buf) := by
  obtain ⟨hfin, hopcode, _, _⟩ := f.decode_bits hlen h
  rw [Context.decode, if_neg (by omega)]
  simp only [hfin, hopcode, hcheck, Bool.not_false, if_true]

private theorem lengthCode_le (h : f.ControlFits) :
    ¬ (f.opcode.toNat ≥ 8 ∧ f.lengthCode > 125) := by
  rintro ⟨hop, hcode⟩
  rw [lengthCode, if_pos (h hop)] at hcode
  have hshort := h hop
  omega

theorem decode_eq (h : buf ++ more = f.encode ext64 ++ rest) (hlen : 2 ≤ buf.length)
    (hcontrol : f.ControlFits)
    (hcheck : checkFragmentation ctx.rcvfragment f.fin f.opcode.toNat = true) :
    ctx.decode ntoh64 buf =
      match decodePayloadLen ntoh64 f.lengthCode buf f.maskingKey.isSome with
      | none => .ok (.notEnough, ctx, buf)
      | some (payloadLen, key, data) =>
          (appendPayload (collected ctx) buf f.maskingKey.isSome payloadLen key data).map
            fun decoded => (f.code, { f.after ctx with decodedBuffer := decoded },
              buf.drop ((data + payloadLen) % 2 ^ 64)) := by
  obtain ⟨hfin, hopcode, hmask, hcode⟩ := f.decode_bits hlen h
  rw [Context.decode, if_neg (by omega)]
  simp only [hfin, hopcode, hmask, hcode, hcheck, Bool.not_true, Bool.false_eq_true, if_false,
    if_neg (f.lengthCode_le hcontrol)]
  cases decodePayloadLen ntoh64 f.lengthCode buf f.maskingKey.isSome with
  | none => rfl
  | some r =>
      obtain ⟨payloadLen, key, data⟩ := r
      simp only [collected, after, code]
      cases appendPayload (if ctx.rcvfragment then ctx.decodedBuffer else []) buf
          f.maskingKey.isSome payloadLen key data with
      | error fault => rfl
      | ok decoded =>
          have hop := f.opcode_lt
          generalize f.opcode.toNat = op at hop
          interval_cases op <;> rfl

theorem decode_short (hcodec : LengthCodec ntoh64 ext64) (h : buf ++ more = f.encode ext64 ++ rest)
    (hshort : buf.length < (f.encode ext64).length) (hcontrol : f.ControlFits)
    (hcheck : checkFragmentation ctx.rcvfragment f.fin f.opcode.toNat = true) :
    ctx.decode ntoh64 buf = .ok (.notEnough, ctx, buf) := by
  rcases Nat.lt_or_ge buf.length 2 with hone | hlen
  · rw [Context.decode, if_pos hone]
  · rw [f.decode_eq h hlen hcontrol hcheck, f.decodePayloadLen_arrived hcodec h hlen, if_pos hshort]

private theorem drop_dataOffset :
    (f.encode ext64 ++ rest).drop (f.dataOffset ext64) = f.body ++ rest := by
  have hsplit : f.encode ext64 ++ rest =
      f.first :: f.second :: (f.extended ext64 ++ f.maskingKey.getD []) ++ (f.body ++ rest) := by
    simp only [encode, List.cons_append, List.append_assoc]
  rw [hsplit]
  apply List.drop_left'
  simp only [List.length_cons, List.length_append, key_getD_length, dataOffset]
  omega

private theorem take_key {key : Bytes} (hkey : f.maskingKey = some key) :
    ((f.encode ext64 ++ rest).drop (2 + (f.extended ext64).length)).take 4 = key := by
  have hsplit : f.encode ext64 ++ rest =
      f.first :: f.second :: f.extended ext64 ++ (key ++ (f.body ++ rest)) := by
    simp only [encode, hkey, Option.getD_some, List.cons_append, List.append_assoc]
  have hdrop : (f.encode ext64 ++ rest).drop (2 + (f.extended ext64).length) =
      key ++ (f.body ++ rest) := by
    rw [hsplit]
    apply List.drop_left'
    rw [List.length_cons, List.length_cons]
    omega
  rw [hdrop]
  exact List.take_left' (f.key_length key hkey)

private theorem appendPayload_whole (decoded : Bytes) (hdecoded : decoded.length ≤ maxSize) :
    appendPayload decoded (f.encode ext64 ++ rest) f.maskingKey.isSome f.payload.length
        (2 + (f.extended ext64).length) (f.dataOffset ext64) =
      if maxSize < decoded.length + f.payload.length then .error .lengthError
      else .ok (decoded ++ f.payload) := by
  have hpayload := f.payload_lt
  have hmax : maxSize = 2 ^ 63 - 1 := rfl
  have hin : ¬ (f.encode ext64 ++ rest).length < f.dataOffset ext64 + f.payload.length := by
    rw [List.length_append, encode_length]
    omega
  have htake : ((f.encode ext64 ++ rest).drop (f.dataOffset ext64)).take f.payload.length =
      f.body := by
    rw [f.drop_dataOffset]
    exact List.take_left' f.body_length
  rw [appendPayload, Nat.mod_eq_of_lt (by omega)]
  split
  · rfl
  next hfits =>
  simp only [htake]
  cases hkey : f.maskingKey with
  | none =>
      rw [if_neg (by simp), if_neg (by omega), body, hkey]
  | some key =>
      rw [if_pos Option.isSome_some, f.take_key hkey, body, hkey, applyMask_applyMask]

theorem decode_whole (hcodec : LengthCodec ntoh64 ext64) (hcontrol : f.ControlFits)
    (hcheck : checkFragmentation ctx.rcvfragment f.fin f.opcode.toNat = true)
    (hcollected : (collected ctx).length ≤ maxSize) :
    ctx.decode ntoh64 (f.encode ext64 ++ rest) =
      if maxSize < (collected ctx).length + f.payload.length then .error .lengthError
      else .ok (f.code, f.after ctx, rest) := by
  have h : (f.encode ext64 ++ rest) ++ [] = f.encode ext64 ++ rest := List.append_nil _
  have hlen : 2 ≤ (f.encode ext64 ++ rest).length := by
    rw [encode, List.cons_append, List.cons_append, List.length_cons, List.length_cons]
    omega
  have hwhole : ¬ (f.encode ext64 ++ rest).length < (f.encode ext64).length := by
    rw [List.length_append]
    omega
  have hdrop : (f.encode ext64 ++ rest).drop ((f.dataOffset ext64 + f.payload.length) % 2 ^ 64) =
      rest := by
    rw [Nat.mod_eq_of_lt (f.encode_lt hcodec), ← encode_length]
    exact List.drop_left
  rw [f.decode_eq h hlen hcontrol hcheck, f.decodePayloadLen_arrived hcodec h hlen, if_neg hwhole]
  simp only [f.appendPayload_whole _ hcollected, hdrop]
  split
  · rfl
  · rfl

end

end Frame

end Angel.Websocket
