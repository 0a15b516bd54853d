import Angel.Websocket.Messages

/-!
What the message handler sends in reply to a Ping or a Close. The reply is a
`uint16_t` sent as it lies in memory, so on a little-endian host its low byte,
the length, goes first, and it never carries a payload.
-/

namespace Angel.Websocket

open Angel.Lib Util Buffer

def Event.sent? : Event → Option Bytes
  | .send bytes => some bytes
  | _ => none

/-- The bytes that the events hand to the connection. -/
def sentBytes (events : List Event) : Bytes := (events.filterMap Event.sent?).flatten

/-- The connection after a pass of the loop that returns. -/
def afterPass : Pass Connection (Except Fault Connection) → Option Connection
  | .again c => some c
  | .done (.ok c) => some c
  | .done (.error _) => none

/-- One control frame with FIN that answers `f`: a Pong with the payload of the
Ping, or a Close. -/
def IsReply (f : Frame) (bytes : Bytes) : Prop :=
  ∃ reply : Frame, bytes = reply.encode (bigEndian 8) ∧ reply.fin = true ∧
    reply.maskingKey = none ∧ reply.payload.length ≤ 125 ∧
    (f.opcode = 0x9 → reply.opcode = 0xA ∧ reply.payload = f.payload) ∧
    (f.opcode = 0x8 → reply.opcode = 0x8)

section

variable {ntoh64 : Nat → Nat} {ctx : Context} {f : Frame}

private theorem lengthCodec_bigEndian : LengthCodec (Sockops.ntoh64 true) (bigEndian 8) :=
  ⟨fun n => bigEndian_length 8 n,
    fun n hn => (Sockops.hton64_eq_hton _).trans (Sockops.hton_hton 8 n hn)⟩

private theorem decode_narrow {buf : Bytes} (h : (buf.getD 1 0 &&& 0x7f).toNat ≠ 127) :
    ctx.decode ntoh64 buf = ctx.decode (Sockops.ntoh64 true) buf := by
  simp only [Context.decode, decodePayloadLen, extendedLen, if_neg h]

private theorem decode_control (hopcode : f.opcode = 0x9 ∨ f.opcode = 0x8)
    (hshort : f.payload.length ≤ 125) (hidle : ctx.rcvfragment = false) (rest : Bytes) :
    ctx.decode ntoh64 (f.encode (bigEndian 8) ++ rest) = .ok (f.code, f.after ctx, rest) := by
  have hlen : 2 ≤ (f.encode (bigEndian 8) ++ rest).length := by
    have hpos : 2 ≤ (f.encode (bigEndian 8)).length := encode_pos f
    rw [List.length_append]
    omega
  have hcode : ((f.encode (bigEndian 8) ++ rest).getD 1 0 &&& 0x7f).toNat ≠ 127 := by
    obtain ⟨_, _, _, hlength⟩ := f.decode_bits hlen (List.append_nil _)
    rw [hlength, Frame.lengthCode, if_pos hshort]
    omega
  have hcheck : checkFragmentation ctx.rcvfragment f.fin f.opcode.toNat = true := by
    rw [hidle]
    rcases hopcode with hop | hop <;> rw [hop] <;> cases f.fin <;> rfl
  have hcollected : Frame.collected ctx = [] := by
    rw [Frame.collected, hidle]
    rfl
  have hmax : maxSize = 2 ^ 63 - 1 := rfl
  rw [decode_narrow hcode, f.decode_whole lengthCodec_bigEndian (fun _ => hshort) hcheck
    (by rw [hcollected]; exact Nat.zero_le _), hcollected, List.length_nil, if_neg (by omega)]

end

section

variable (hton64 ntoh64 : Nat → Nat) (handlers : Handlers) (c : Connection) (f : Frame)
  (rest : Bytes)

/-- What the pass that takes the frame, or refuses it inside a message, sends. -/
theorem control_pass (hstate : c.ctx.state = .establish) (hopcode : f.opcode = 0x9 ∨ f.opcode = 0x8)
    (hshort : f.payload.length ≤ 125) :
    ∃ c' events, afterPass (messagePass hton64 ntoh64 handlers
        { c with buf := f.encode (bigEndian 8) ++ rest }) = some c' ∧
      c'.events = c.events ++ events ∧
      sentBytes events =
        if c.ctx.rcvfragment then [] else [0x00, if f.opcode = 0x9 then 0x8A else 0x88] := by
  have hne : f.encode (bigEndian 8) ++ rest ≠ [] := by simp [Frame.encode]
  cases hfragment : c.ctx.rcvfragment with
  | true =>
      have hcheck : checkFragmentation c.ctx.rcvfragment f.fin f.opcode.toNat = false := by
        rw [hfragment]
        rcases hopcode with hop | hop <;> rw [hop] <;> cases f.fin <;> rfl
      have hlen : 2 ≤ (f.encode (bigEndian 8) ++ rest).length := by
        have hpos : 2 ≤ (f.encode (bigEndian 8)).length := encode_pos f
        rw [List.length_append]
        omega
      have hpass : messagePass hton64 ntoh64 handlers
          { c with buf := f.encode (bigEndian 8) ++ rest } =
            .done (.ok (Connection.fail handlers { c with buf := f.encode (bigEndian 8) ++ rest })) :=
        messagePass_refused hstate (List.append_nil _) hlen hcheck
      refine ⟨_, [.onerror, .close], by rw [hpass]; rfl, ?_, rfl⟩
      simp [Connection.fail, Connection.call, Connection.emit]
  | false =>
      have hdecode : c.ctx.decode ntoh64 (f.encode (bigEndian 8) ++ rest) =
          .ok (f.code, f.after c.ctx, rest) := decode_control hopcode hshort hfragment rest
      rw [messagePass, if_neg hne]
      simp only [hstate, hdecode]
      rcases hopcode with hop | hop
      · have hcode : f.code = .ping := by
          rw [Frame.code, hop]
          rfl
        rw [hcode, hop]
        exact ⟨_, [.send (controlReply 0x8A)], rfl, rfl, by decide⟩
      · have hcode : f.code = .close := by
          rw [Frame.code, hop]
          rfl
        rw [hcode, hop]
        refine ⟨_, [.onclose, .send (controlReply 0x88), .close], rfl, ?_, by decide⟩
        simp [Connection.call, Connection.emit]

theorem not_isReply {bytes : Bytes} (h : bytes.headD 0 >>> 7 = 0) : ¬ IsReply f bytes := by
  rintro ⟨reply, rfl, hfin, _⟩
  have hbit := first_bits reply.fin reply.opcode reply.opcode_lt
  rw [hfin] at hbit
  have hfirst : reply.first >>> 7 ≠ 0 := by
    rw [Frame.first, hfin]
    exact of_decide_eq_true hbit
  exact hfirst h

/-- No Ping and no Close gets a frame in reply that answers it. -/
theorem control_reply_never (hstate : c.ctx.state = .establish)
    (hopcode : f.opcode = 0x9 ∨ f.opcode = 0x8) (hshort : f.payload.length ≤ 125) :
    ∃ c' events, afterPass (messagePass hton64 ntoh64 handlers
        { c with buf := f.encode (bigEndian 8) ++ rest }) = some c' ∧
      c'.events = c.events ++ events ∧
      sentBytes events =
        (if c.ctx.rcvfragment then [] else [0x00, if f.opcode = 0x9 then 0x8A else 0x88]) ∧
      ¬ IsReply f (sentBytes events) := by
  obtain ⟨c', events, hpass, hevents, hsent⟩ :=
    control_pass hton64 ntoh64 handlers c f rest hstate hopcode hshort
  refine ⟨c', events, hpass, hevents, hsent, not_isReply f ?_⟩
  have hzero : (0 : UInt8) >>> 7 = 0 := by decide
  rw [hsent]
  split
  · rfl
  · exact hzero

end

theorem ping_not_answered :
    ∃ c' events, afterPass (messagePass (Sockops.hton64 true) (Sockops.ntoh64 true) quietHandlers
        { established with buf := pingFrame.encode (bigEndian 8) ++ [] }) = some c' ∧
      c'.events = established.events ++ events ∧ sentBytes events = [0x00, 0x8A] ∧
      ¬ IsReply pingFrame (sentBytes events) :=
  control_reply_never (Sockops.hton64 true) (Sockops.ntoh64 true) quietHandlers established
    pingFrame [] rfl (.inl rfl) (by decide)

/-- A Ping arrives, and what goes out is no Pong. -/
theorem ping_reply_swapped :
    (receive (Sockops.hton64 true) (Sockops.ntoh64 true) quietHandlers (.ok established)
        (pingFrame.encode (bigEndian 8))).map (·.events) = .ok [.send [0x00, 0x8A]] ∧
      ¬ IsReply pingFrame [0x00, 0x8A] :=
  ⟨by decide, not_isReply pingFrame rfl⟩

end Angel.Websocket
