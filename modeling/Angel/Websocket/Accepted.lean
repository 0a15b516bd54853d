import Angel.Websocket.Messages

/-!
Which frames `decode` accepts. The length is stated by the peer and the sum that
is compared with the buffer wraps at `2 ^ 64`; a wrapped sum is mostly stopped by
the string that would have to take the payload, and sometimes it is not.
-/

namespace Angel.Websocket

open Angel.Lib Util Buffer

/-- `opcode` of `decode`. -/
def opcodeField (buf : Bytes) : Nat := (buf.getD 0 0 &&& 0x0f).toNat

/-- `mask` of `decode`. -/
def maskField (buf : Bytes) : Bool := buf.getD 1 0 >>> 7 ≠ 0

/-- The seven bits of length. -/
def lengthField (buf : Bytes) : Nat := (buf.getD 1 0 &&& 0x7f).toNat

/-- The size of the header without the masking key. -/
def headerSize (buf : Bytes) : Nat :=
  if lengthField buf = 127 then 10 else if lengthField buf = 126 then 4 else 2

def keySize (buf : Bytes) : Nat := if maskField buf then 4 else 0

/-- The length of the payload that the frame states. -/
def statedLength (ntoh64 : Nat → Nat) (buf : Bytes) : Nat :=
  if lengthField buf = 127 then ntoh64 (load ((buf.drop 2).take 8)) % 2 ^ 64
  else if lengthField buf = 126 then Sockops.ntohs (load ((buf.drop 2).take 2))
  else lengthField buf

/-- The size of the whole frame, as an unbounded number. -/
def statedSize (ntoh64 : Nat → Nat) (buf : Bytes) : Nat :=
  headerSize buf + keySize buf + statedLength ntoh64 buf

/-- What a frame that is neither waited for nor refused has to be: all of it is
in the buffer, and the buffer loses just that. A call that throws does not
return; one that leaves the buffer has taken bytes that are not there. -/
def Accepts (ntoh64 : Nat → Nat) (buf : Bytes) : Except Fault (Code × Context × Bytes) → Prop
  | .ok (.notEnough, _, _) => True
  | .ok (.error, _, _) => True
  | .ok (_, _, left) => statedSize ntoh64 buf ≤ buf.length ∧ left = buf.drop (statedSize ntoh64 buf)
  | .error .lengthError => True
  | .error _ => False

/-- A masked continuation whose size passes `2 ^ 64`, when the sizes of what has
been collected and of the payload pass it too. -/
structure Overruns (ntoh64 : Nat → Nat) (ctx : Context) (buf : Bytes) : Prop where
  fragment : ctx.rcvfragment = true
  continuation : opcodeField buf = 0
  mask : maskField buf = true
  wide : lengthField buf = 127
  header : 10 ≤ buf.length
  wraps : 2 ^ 64 ≤ statedSize ntoh64 buf
  fits : statedSize ntoh64 buf - 2 ^ 64 ≤ buf.length
  reserve : 2 ^ 64 ≤ ctx.decodedBuffer.length + statedLength ntoh64 buf

section

variable {ntoh64 : Nat → Nat} {ctx : Context} {buf : Bytes}

theorem lengthField_lt (buf : Bytes) : lengthField buf < 128 := by
  have hand : ∀ b : UInt8, (b &&& 0x7f).toNat < 128 := by
    intro b
    rw [UInt8.toNat_and]
    exact Nat.lt_of_le_of_lt Nat.and_le_right (by decide)
  exact hand _

theorem headerSize_le (buf : Bytes) : headerSize buf ≤ 10 := by
  rw [headerSize]
  split
  · omega
  · split <;> omega

theorem statedLength_lt (ntoh64 : Nat → Nat) (buf : Bytes) :
    statedLength ntoh64 buf < 2 ^ 64 ∧ (lengthField buf ≠ 127 → statedLength ntoh64 buf < 2 ^ 16) := by
  have hseven := lengthField_lt buf
  rw [statedLength]
  split
  · exact ⟨Nat.mod_lt _ (by decide), fun h => absurd ‹_› h⟩
  · have hsmall : (if lengthField buf = 126 then Sockops.ntohs (load ((buf.drop 2).take 2))
        else lengthField buf) < 2 ^ 16 := by
      split
      · exact Sockops.hton_lt 2 _
      · omega
    exact ⟨by omega, fun _ => hsmall⟩

private theorem extendedLen_eq (ntoh64 : Nat → Nat) (buf : Bytes) :
    extendedLen ntoh64 (lengthField buf) buf =
      if lengthField buf ≥ 126 ∧ buf.length < headerSize buf then none
      else some (headerSize buf, statedLength ntoh64 buf) := by
  have hseven := lengthField_lt buf
  rw [extendedLen, headerSize, statedLength]
  by_cases hwide : lengthField buf = 127
  · simp [hwide]
  by_cases hmedium : lengthField buf = 126
  · simp [hmedium]
  · have hshort : ¬ lengthField buf ≥ 126 := by omega
    simp [hwide, hmedium, hshort]

theorem decodePayloadLen_eq (ntoh64 : Nat → Nat) (buf : Bytes) :
    decodePayloadLen ntoh64 (lengthField buf) buf (maskField buf) =
      if (lengthField buf ≥ 126 ∧ buf.length < headerSize buf) ∨
          buf.length < statedSize ntoh64 buf % 2 ^ 64 then none
      else some (statedLength ntoh64 buf, headerSize buf, headerSize buf + keySize buf) := by
  rw [decodePayloadLen, extendedLen_eq]
  by_cases hheader : lengthField buf ≥ 126 ∧ buf.length < headerSize buf
  · simp [hheader]
  · simp only [hheader, false_or]
    rfl

/-- The checks in front of the payload let the frame through. -/
structure Passes (ntoh64 : Nat → Nat) (ctx : Context) (buf : Bytes) : Prop where
  two : ¬ buf.length < 2
  check : checkFragmentation ctx.rcvfragment (decide (buf.getD 0 0 >>> 7 ≠ 0)) (opcodeField buf) = true
  control : ¬ (opcodeField buf ≥ 8 ∧ lengthField buf > 125)
  header : ¬ (lengthField buf ≥ 126 ∧ buf.length < headerSize buf)
  room : statedSize ntoh64 buf % 2 ^ 64 ≤ buf.length

theorem accepts_of_not_passes (h : ¬ Passes ntoh64 ctx buf) :
    Accepts ntoh64 buf (ctx.decode ntoh64 buf) := by
  rw [Context.decode]
  split
  · trivial
  next htwo =>
  dsimp only
  split
  · trivial
  next hcheck =>
  split
  · trivial
  next hcontrol =>
  have hlen : decodePayloadLen ntoh64 (lengthField buf) buf (maskField buf) = none := by
    rw [decodePayloadLen_eq]
    apply if_pos
    by_contra hthere
    rw [not_or, Nat.not_lt] at hthere
    rw [Bool.not_eq_true', Bool.not_eq_false] at hcheck
    exact h ⟨htwo, hcheck, hcontrol, hthere.1, hthere.2⟩
  rw [lengthField, maskField] at hlen
  rw [hlen]
  trivial

/-- The same of what appending the payload comes to. -/
def AppendAccepts (ntoh64 : Nat → Nat) (buf : Bytes) : Except Fault Bytes → Prop
  | .ok _ => statedSize ntoh64 buf ≤ buf.length ∧
      buf.drop (statedSize ntoh64 buf % 2 ^ 64) = buf.drop (statedSize ntoh64 buf)
  | .error fault => fault = .lengthError

theorem Passes.decode_append (h : Passes ntoh64 ctx buf) :
    Accepts ntoh64 buf (ctx.decode ntoh64 buf) ↔
      AppendAccepts ntoh64 buf (appendPayload (if ctx.rcvfragment then ctx.decodedBuffer else []) buf
        (maskField buf) (statedLength ntoh64 buf) (headerSize buf) (headerSize buf + keySize buf)) := by
  have hlen : decodePayloadLen ntoh64 (lengthField buf) buf (maskField buf) =
      some (statedLength ntoh64 buf, headerSize buf, headerSize buf + keySize buf) := by
    rw [decodePayloadLen_eq, if_neg]
    rintro (hheader | hroom)
    · exact h.header hheader
    · exact absurd h.room (Nat.not_le.mpr hroom)
  have hcheck := h.check
  have hcontrol := h.control
  rw [opcodeField] at hcheck hcontrol
  rw [maskField, lengthField] at hlen
  rw [lengthField] at hcontrol
  rw [Context.decode, if_neg h.two]
  simp only [hcheck, Bool.not_true, Bool.false_eq_true, if_false, if_neg hcontrol, hlen, maskField]
  cases appendPayload (if ctx.rcvfragment then ctx.decodedBuffer else []) buf _
      (statedLength ntoh64 buf) (headerSize buf) (headerSize buf + keySize buf) with
  | error fault => cases fault <;> simp [Accepts, AppendAccepts, bind, Except.bind]
  | ok decoded =>
      simp only [bind, Except.bind]
      split <;> exact Iff.rfl

theorem checkFragmentation_fragment (fin : Bool) (opcode : Nat) :
    checkFragmentation true fin opcode = (opcode == 0) := by
  cases fin <;> rfl

theorem Overruns.passes (h : Overruns ntoh64 ctx buf) : Passes ntoh64 ctx buf := by
  have hheader := h.header
  have hcontinuation := h.continuation
  have hten : headerSize buf = 10 := if_pos h.wide
  refine ⟨by omega, ?_, by omega, by omega, ?_⟩
  · rw [h.fragment, hcontinuation, checkFragmentation_fragment]
    rfl
  · have hwraps := h.wraps
    have hfits := h.fits
    have hlong := (statedLength_lt ntoh64 buf).1
    have hkey : keySize buf = 4 := if_pos h.mask
    have hsize : statedSize ntoh64 buf =
      headerSize buf + keySize buf + statedLength ntoh64 buf := rfl
    omega

theorem Passes.overruns (h : Passes ntoh64 ctx buf) (hmask : maskField buf = true)
    (hreserve : ((if ctx.rcvfragment then ctx.decodedBuffer else []).length +
      statedLength ntoh64 buf) % 2 ^ 64 ≤ maxSize)
    (hout : buf.length < statedSize ntoh64 buf) : Overruns ntoh64 ctx buf := by
  have hmax : maxSize = 2 ^ 63 - 1 := rfl
  obtain ⟨hlong, hshort⟩ := statedLength_lt ntoh64 buf
  have hkey : keySize buf = 4 := if_pos hmask
  have hsize : statedSize ntoh64 buf = headerSize buf + keySize buf + statedLength ntoh64 buf := rfl
  have hheader := h.header
  have hheader_le := headerSize_le buf
  have hroom := h.room
  have hcheck := h.check
  have hwraps : 2 ^ 64 ≤ statedSize ntoh64 buf := by
    by_contra hlt
    rw [Nat.mod_eq_of_lt (by omega)] at hroom
    omega
  have hwide : lengthField buf = 127 := by
    by_contra hne
    have hsmall := hshort hne
    omega
  have hten : headerSize buf = 10 := if_pos hwide
  have hfragment : ctx.rcvfragment = true := by
    by_contra hnot
    rw [Bool.not_eq_true] at hnot
    rw [hnot, if_neg (by decide), List.length_nil, Nat.mod_eq_of_lt (by omega)] at hreserve
    omega
  rw [hfragment, checkFragmentation_fragment, beq_iff_eq] at hcheck
  rw [hfragment, if_pos rfl] at hreserve
  refine ⟨hfragment, hcheck, hmask, hwide, by omega, hwraps, by omega, ?_⟩
  by_contra hlt
  rw [Nat.mod_eq_of_lt (by omega)] at hreserve
  omega

theorem Overruns.reserve_fits (h : Overruns ntoh64 ctx buf)
    (hdecoded : ctx.decodedBuffer.length ≤ maxSize) :
    ((if ctx.rcvfragment then ctx.decodedBuffer else []).length + statedLength ntoh64 buf) % 2 ^ 64 ≤
      maxSize := by
  have hmax : maxSize = 2 ^ 63 - 1 := rfl
  have hreserve := h.reserve
  have hlong := (statedLength_lt ntoh64 buf).1
  rw [h.fragment, if_pos rfl]
  omega

/-- A payload without a mask is not appended unless the string has room for it,
and then the sum has not wrapped. -/
theorem Passes.unmasked (h : Passes ntoh64 ctx buf) (hmask : maskField buf = false)
    {decoded : Bytes} (happend : ¬ maxSize - decoded.length < statedLength ntoh64 buf) :
    statedSize ntoh64 buf ≤ buf.length := by
  have hmax : maxSize = 2 ^ 63 - 1 := rfl
  have hheader_le := headerSize_le buf
  have hkey : keySize buf = 0 := by
    rw [keySize, hmask]
    rfl
  have hsize : statedSize ntoh64 buf = headerSize buf + keySize buf + statedLength ntoh64 buf := rfl
  have hroom := h.room
  rwa [Nat.mod_eq_of_lt (by omega)] at hroom

theorem Passes.accepts_iff (h : Passes ntoh64 ctx buf) (hbuf : buf.length < 2 ^ 64)
    (hdecoded : ctx.decodedBuffer.length ≤ maxSize) :
    Accepts ntoh64 buf (ctx.decode ntoh64 buf) ↔ ¬ Overruns ntoh64 ctx buf := by
  have hsize : statedSize ntoh64 buf = headerSize buf + keySize buf + statedLength ntoh64 buf := rfl
  rw [h.decode_append, appendPayload]
  by_cases hreserve : maxSize < ((if ctx.rcvfragment then ctx.decodedBuffer else []).length +
      statedLength ntoh64 buf) % 2 ^ 64
  · rw [if_pos hreserve]
    refine iff_of_true rfl ?_
    intro hover
    exact absurd hreserve (Nat.not_lt.mpr (hover.reserve_fits hdecoded))
  rw [if_neg hreserve]
  have hwhole : statedSize ntoh64 buf ≤ buf.length →
      buf.drop (statedSize ntoh64 buf % 2 ^ 64) = buf.drop (statedSize ntoh64 buf) := by
    intro hle
    rw [Nat.mod_eq_of_lt (by omega)]
  cases hmask : maskField buf with
  | true =>
      by_cases hout : buf.length < statedSize ntoh64 buf
      · simp only [if_true, ← hsize, if_pos hout]
        refine iff_of_false (fun hfault => by cases hfault) ?_
        rw [not_not]
        exact h.overruns hmask (by omega) hout
      · simp only [if_true, ← hsize, if_neg hout]
        refine iff_of_true ⟨by omega, hwhole (by omega)⟩ ?_
        intro hover
        have hwraps := hover.wraps
        omega
  | false =>
      have hnot : ¬ Overruns ntoh64 ctx buf := by
        intro hover
        rw [hover.mask] at hmask
        cases hmask
      refine iff_of_true ?_ hnot
      simp only [Bool.false_eq_true, if_false, ← hsize]
      by_cases happend : maxSize - (if ctx.rcvfragment then ctx.decodedBuffer else []).length <
          statedLength ntoh64 buf
      · rw [if_pos happend]
        exact rfl
      rw [if_neg happend]
      have hin := h.unmasked hmask happend
      rw [if_neg (by omega)]
      exact ⟨hin, hwhole hin⟩

/-- A frame that is accepted is in the buffer as a whole and is what is taken
from it, exactly when no masked continuation makes both sums wrap. -/
theorem decode_accepts_iff (ntoh64 : Nat → Nat) (ctx : Context) (buf : Bytes)
    (hbuf : buf.length < 2 ^ 64) (hdecoded : ctx.decodedBuffer.length ≤ maxSize) :
    Accepts ntoh64 buf (ctx.decode ntoh64 buf) ↔ ¬ Overruns ntoh64 ctx buf := by
  by_cases hpasses : Passes ntoh64 ctx buf
  · exact hpasses.accepts_iff hbuf hdecoded
  · refine iff_of_true (accepts_of_not_passes hpasses) ?_
    exact fun hover => hpasses hover.passes

end

/-- A masked continuation of `2 ^ 64 - 1` bytes behind the first fragment. -/
def hugeContinuation : Bytes := [0x00, 0xff] ++ List.replicate 8 0xff ++ [1, 2, 3, 4]

theorem decode_accepts_fragment :
    Accepts (Sockops.ntoh64 true) (firstFragment.encode (bigEndian 8))
      (established.ctx.decode (Sockops.ntoh64 true) (firstFragment.encode (bigEndian 8))) := by
  refine (decode_accepts_iff _ _ _ (by decide) (by decide)).mpr ?_
  intro h
  cases h.fragment

/-- It is taken from a buffer that holds none of its payload. -/
theorem decode_accepts_absent :
    ¬ Accepts (Sockops.ntoh64 true) hugeContinuation
      ((firstFragment.after established.ctx).decode (Sockops.ntoh64 true) hugeContinuation) := by
  have hdecode : (firstFragment.after established.ctx).decode (Sockops.ntoh64 true) hugeContinuation =
      .error .outOfBounds := by decide
  rw [hdecode]
  exact id

end Angel.Websocket
