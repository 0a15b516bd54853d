import Angel.Websocket.Frames

/-!
Messages on an established connection: what one pass of the message handler does
with a frame, and from it what a whole stream of frames comes to in every
segmentation.
-/

namespace Angel.Websocket

open Angel.Lib Util Buffer

section

variable {hton64 ntoh64 : Nat → Nat} {ext64 : Nat → Bytes} {handlers : Handlers}

/-- The connection after a frame that is neither refused nor a close. -/
def Connection.accept (handlers : Handlers) (c : Connection) (f : Frame) (rest : Bytes) :
    Connection :=
  let c := { c with ctx := f.after c.ctx, buf := rest }
  match f.code with
  | .ok =>
      if f.fin then
        c.call handlers.onmessage (.onmessage c.ctx.decodedBuffer c.ctx.isBinaryType)
      else c
  | .ping => c.emit [.send (controlReply 0x8A)]
  | _ => c

/-- What the message handler leaves behind after an error. -/
def Connection.fail (handlers : Handlers) (c : Connection) : Connection :=
  (c.call handlers.onerror .onerror).emit [.close]

theorem messagePass_idle {c : Connection} (hbuf : c.buf = []) :
    messagePass hton64 ntoh64 handlers c = .done (.ok c) := if_pos hbuf

theorem messagePass_tiny {c : Connection} (hstate : c.ctx.state = .establish)
    (hlen : c.buf.length < 2) : messagePass hton64 ntoh64 handlers c = .done (.ok c) := by
  rw [messagePass]
  split
  · rfl
  · simp only [hstate, Context.decode, if_pos hlen]

theorem messagePass_short {c : Connection} {f : Frame} {more rest : Bytes}
    (hcodec : LengthCodec ntoh64 ext64) (hstate : c.ctx.state = .establish)
    (h : c.buf ++ more = f.encode ext64 ++ rest) (hshort : c.buf.length < (f.encode ext64).length)
    (hcontrol : f.ControlFits)
    (hcheck : checkFragmentation c.ctx.rcvfragment f.fin f.opcode.toNat = true) :
    messagePass hton64 ntoh64 handlers c = .done (.ok c) := by
  rw [messagePass]
  split
  · rfl
  · simp only [hstate, f.decode_short hcodec h hshort hcontrol hcheck]

theorem messagePass_refused {c : Connection} {f : Frame} {more rest : Bytes}
    (hstate : c.ctx.state = .establish) (h : c.buf ++ more = f.encode ext64 ++ rest)
    (hlen : 2 ≤ c.buf.length)
    (hcheck : checkFragmentation c.ctx.rcvfragment f.fin f.opcode.toNat = false) :
    messagePass hton64 ntoh64 handlers c = .done (.ok (c.fail handlers)) := by
  have hne : c.buf ≠ [] := List.ne_nil_of_length_pos (by omega)
  rw [messagePass, if_neg hne]
  simp only [hstate, f.decode_error h hlen hcheck]
  rfl

theorem messagePass_overflow {c : Connection} {f : Frame} {rest : Bytes}
    (hcodec : LengthCodec ntoh64 ext64) (hstate : c.ctx.state = .establish)
    (hbuf : c.buf = f.encode ext64 ++ rest) (hcontrol : f.ControlFits)
    (hcheck : checkFragmentation c.ctx.rcvfragment f.fin f.opcode.toNat = true)
    (hcollected : (Frame.collected c.ctx).length ≤ maxSize)
    (hover : maxSize < (Frame.collected c.ctx).length + f.payload.length) :
    messagePass hton64 ntoh64 handlers c = .done (.error .lengthError) := by
  have hne : c.buf ≠ [] := by simp [hbuf, Frame.encode]
  rw [messagePass, if_neg hne]
  simp only [hstate, hbuf, f.decode_whole hcodec hcontrol hcheck hcollected, if_pos hover]

theorem messagePass_accept {c : Connection} {f : Frame} {rest : Bytes}
    (hcodec : LengthCodec ntoh64 ext64) (hstate : c.ctx.state = .establish)
    (hbuf : c.buf = f.encode ext64 ++ rest) (hcontrol : f.ControlFits)
    (hcheck : checkFragmentation c.ctx.rcvfragment f.fin f.opcode.toNat = true)
    (hfits : (Frame.collected c.ctx).length + f.payload.length ≤ maxSize)
    (hcode : f.code = .ok ∨ f.code = .ping ∨ f.code = .pong) :
    messagePass hton64 ntoh64 handlers c = .again (c.accept handlers f rest) := by
  have hne : c.buf ≠ [] := by simp [hbuf, Frame.encode]
  rw [messagePass, if_neg hne]
  simp only [hstate, hbuf, f.decode_whole hcodec hcontrol hcheck (by omega), if_neg (Nat.not_lt.mpr hfits)]
  rcases hcode with hok | hping | hpong
  · have hfragment : (f.after c.ctx).rcvfragment = !f.fin := rfl
    simp only [hok, Connection.accept, hfragment, Bool.not_not]
    split <;> rfl
  · simp only [hping, Connection.accept]
  · simp only [hpong, Connection.accept]

namespace Frame

/-- A Ping or a Pong. -/
structure IsControl (f : Frame) : Prop where
  fin : f.fin = true
  opcode : f.opcode = 0x9 ∨ f.opcode = 0xA
  payload : f.payload.length ≤ 125

/-- A data frame that can come next: the first or only one of a message when
none is in progress, else a continuation. -/
def IsData (inside : Bool) (f : Frame) : Prop :=
  if inside then f.opcode = 0 else f.opcode = 1 ∨ f.opcode = 2

instance (f : Frame) : Decidable f.IsControl :=
  decidable_of_iff (f.fin = true ∧ (f.opcode = 0x9 ∨ f.opcode = 0xA) ∧ f.payload.length ≤ 125)
    ⟨fun h => ⟨h.1, h.2.1, h.2.2⟩, fun h => ⟨h.fin, h.opcode, h.payload⟩⟩

end Frame

/-- The frames that RFC 6455 allows, with Pings and Pongs anywhere. -/
def Legal : (inside : Bool) → List Frame → Prop
  | _, [] => True
  | inside, f :: frames =>
      f.IsControl ∧ Legal inside frames ∨ f.IsData inside ∧ Legal (!f.fin) frames

/-- The messages that the frames complete when `collected` has come of one. -/
def messages : (collected : Bytes) → List Frame → List Bytes
  | _, [] => []
  | collected, f :: frames =>
      if f.IsControl then messages collected frames
      else if f.fin then (collected ++ f.payload) :: messages [] frames
      else messages (collected ++ f.payload) frames

/-- No Ping or Pong stands between the fragments of a message. -/
def Undisturbed : (inside : Bool) → List Frame → Prop
  | _, [] => True
  | inside, f :: frames =>
      if f.IsControl then inside = false ∧ Undisturbed inside frames
      else Undisturbed (!f.fin) frames

/-- No message, complete or not, is longer than a string can be. -/
def MessagesFit : (collected : Bytes) → List Frame → Prop
  | _, [] => True
  | collected, f :: frames =>
      if f.IsControl then MessagesFit collected frames
      else (collected ++ f.payload).length ≤ maxSize ∧
        MessagesFit (if f.fin then [] else collected ++ f.payload) frames

def encodeAll (ext64 : Nat → Bytes) (frames : List Frame) : Bytes :=
  frames.flatMap fun f => f.encode ext64

namespace Frame

variable {f : Frame}

theorem IsData.opcode_le {inside : Bool} (h : f.IsData inside) : f.opcode.toNat ≤ 2 := by
  rw [IsData] at h
  split at h
  · rw [h]
    decide
  · rcases h with h | h <;> rw [h] <;> decide

theorem IsData.not_isControl {inside : Bool} (h : f.IsData inside) : ¬ f.IsControl := by
  intro hcontrol
  have hle := h.opcode_le
  rcases hcontrol.opcode with hop | hop <;> rw [hop] at hle <;> exact absurd hle (by decide)

theorem IsControl.fits (h : f.IsControl) : f.ControlFits := fun _ => h.payload

theorem IsData.fits {inside : Bool} (h : f.IsData inside) : f.ControlFits := by
  intro hop
  have hle := h.opcode_le
  omega

theorem IsData.check {inside : Bool} (h : f.IsData inside) :
    checkFragmentation inside f.fin f.opcode.toNat = true := by
  rw [IsData] at h
  cases inside with
  | false => rcases h with h | h <;> rw [h] <;> cases f.fin <;> rfl
  | true =>
      rw [if_pos rfl] at h
      rw [h]
      cases f.fin <;> rfl

theorem IsControl.check (h : f.IsControl) (inside : Bool) :
    checkFragmentation inside f.fin f.opcode.toNat = !inside := by
  rw [h.fin]
  rcases h.opcode with hop | hop <;> rw [hop] <;> cases inside <;> rfl

theorem IsData.code {inside : Bool} (h : f.IsData inside) : f.code = .ok := by
  have hle := h.opcode_le
  rw [Frame.code]
  generalize f.opcode.toNat = op at hle
  interval_cases op <;> rfl

theorem IsControl.code (h : f.IsControl) : f.code = .ping ∨ f.code = .pong := by
  rw [Frame.code]
  rcases h.opcode with hop | hop <;> rw [hop]
  · exact .inl rfl
  · exact .inr rfl

end Frame

/-- The message that an event hands over. -/
def Event.message? : Event → Option Bytes
  | .onmessage decodedBuffer _ => some decodedBuffer
  | _ => none

/-- The connection has handed over `past` and collected a part of the next
message. -/
structure InSync (c : Connection) (inside : Bool) (collected : Bytes) (past : List Bytes) : Prop where
  state : c.ctx.state = .establish
  fragment : c.ctx.rcvfragment = inside
  collected_eq : Frame.collected c.ctx = collected
  size : collected.length ≤ maxSize
  noError : .onerror ∉ c.events
  past_eq : c.events.filterMap Event.message? = past

theorem InSync.collected_nil {c : Connection} {collected : Bytes} {past : List Bytes}
    (h : InSync c false collected past) : collected = [] := by
  rw [← h.collected_eq, Frame.collected, h.fragment]
  rfl

theorem InSync.accept_data {c : Connection} {inside : Bool} {collected rest : Bytes}
    {past : List Bytes} {f : Frame} (h : InSync c inside collected past) (hdata : f.IsData inside)
    (hfits : (collected ++ f.payload).length ≤ maxSize) :
    InSync (c.accept handlers f rest) (!f.fin) (if f.fin then [] else collected ++ f.payload)
      (past ++ if f.fin then [collected ++ f.payload] else []) := by
  have hafter : (f.after c.ctx).decodedBuffer = collected ++ f.payload := by
    rw [← h.collected_eq]
    rfl
  cases hfin : f.fin with
  | true =>
      have hfragment : (f.after c.ctx).rcvfragment = false := by
        rw [Frame.after, hfin]
        rfl
      have haccept : c.accept handlers f rest =
          Connection.call { c with ctx := f.after c.ctx, buf := rest } handlers.onmessage
            (.onmessage (collected ++ f.payload) (f.after c.ctx).isBinaryType) := by
        simp only [Connection.accept, hdata.code, hfin, if_true, hafter]
      rw [haccept]
      refine ⟨h.state, hfragment, ?_, Nat.zero_le _, ?_, ?_⟩
      · simp only [Frame.collected, Connection.call, hfragment]
        rfl
      · simp only [Connection.call, List.mem_append, List.mem_singleton, not_or]
        exact ⟨h.noError, fun heq => by cases heq⟩
      · simp only [Connection.call, List.filterMap_append, h.past_eq]
        rfl
  | false =>
      have hfragment : (f.after c.ctx).rcvfragment = true := by
        rw [Frame.after, hfin]
        rfl
      have haccept : c.accept handlers f rest = { c with ctx := f.after c.ctx, buf := rest } := by
        simp only [Connection.accept, hdata.code, hfin, Bool.false_eq_true, if_false]
      rw [haccept]
      refine ⟨h.state, hfragment, ?_, hfits, h.noError, ?_⟩
      · simp only [Frame.collected, hfragment, if_true, hafter]
        rfl
      · rw [h.past_eq]
        simp

theorem InSync.accept_control {c : Connection} {collected rest : Bytes} {past : List Bytes}
    {f : Frame} (h : InSync c false collected past) (hcontrol : f.IsControl) :
    InSync (c.accept handlers f rest) false collected past := by
  have hfragment : (f.after c.ctx).rcvfragment = false := by
    rw [Frame.after, hcontrol.fin]
    rfl
  have hcollected : Frame.collected (f.after c.ctx) = collected := by
    rw [Frame.collected, hfragment, h.collected_nil]
    rfl
  rcases hcontrol.code with hping | hpong
  · have haccept : c.accept handlers f rest =
        Connection.emit { c with ctx := f.after c.ctx, buf := rest } [.send (controlReply 0x8A)] := by
      simp only [Connection.accept, hping]
    rw [haccept]
    refine ⟨h.state, hfragment, hcollected, h.size, ?_, ?_⟩
    · simp only [Connection.emit, List.mem_append, List.mem_singleton, not_or]
      exact ⟨h.noError, fun heq => by cases heq⟩
    · simp only [Connection.emit, List.filterMap_append, h.past_eq]
      exact List.append_nil past
  · have haccept : c.accept handlers f rest = { c with ctx := f.after c.ctx, buf := rest } := by
      simp only [Connection.accept, hpong]
    rw [haccept]
    exact ⟨h.state, hfragment, hcollected, h.size, h.noError, h.past_eq⟩

theorem accept_buf (c : Connection) (f : Frame) (rest : Bytes) :
    (c.accept handlers f rest).buf = rest := by
  rw [Connection.accept]
  split
  · split <;> rfl
  · rfl
  · rfl

/-- The frames are undisturbed and their messages fit. -/
def Clean (frames : List Frame) : Prop := Undisturbed false frames ∧ MessagesFit [] frames

/-- The rest of the stream holds `frames`, of the sequence `all`. -/
structure Awaits (ext64 : Nat → Bytes) (all : List Frame) (c : Connection) (rest : Bytes)
    (frames : List Frame) (inside : Bool) (collected : Bytes) (past : List Bytes) : Prop where
  sync : InSync c inside collected past
  stream : c.buf ++ rest = encodeAll ext64 frames
  legal : Legal inside frames
  messages_eq : past ++ messages collected frames = messages [] all
  clean_iff : Undisturbed inside frames ∧ MessagesFit collected frames ↔ Clean all

/-- An error has been reported, or the call has not returned. -/
def Failed : Except Fault Connection → Prop
  | .error _ => True
  | .ok c => c.ctx.state = .establish ∧ .onerror ∈ c.events

/-- Between two segments: no whole frame is left in the buffer, or the sequence
was not clean and the connection has failed on it. -/
def Settled (ext64 : Nat → Bytes) (all : List Frame) (s : Except Fault Connection)
    (rest : Bytes) : Prop :=
  (∃ c frames inside collected past, s = .ok c ∧
    Awaits ext64 all c rest frames inside collected past ∧
    ∀ f later, frames = f :: later → c.buf.length < (f.encode ext64).length) ∨
  (Failed s ∧ ¬ Clean all)

theorem fail_failed {c : Connection} (hstate : c.ctx.state = .establish) :
    Failed (.ok (c.fail handlers)) := by
  refine ⟨hstate, ?_⟩
  simp [Connection.fail, Connection.call, Connection.emit]

theorem encodeAll_cons (f : Frame) (frames : List Frame) :
    encodeAll ext64 (f :: frames) = f.encode ext64 ++ encodeAll ext64 frames := rfl

theorem encode_pos (f : Frame) : 2 ≤ (f.encode ext64).length := by
  rw [Frame.encode, List.length_cons, List.length_cons]
  omega

section

variable {all frames : List Frame} {c : Connection} {rest collected : Bytes} {inside : Bool}
  {past : List Bytes} {f : Frame}

/-- What a pass comes to: a frame is taken, or the handler returns. -/
def Proceeds (ext64 : Nat → Bytes) (all : List Frame) (c : Connection) (rest : Bytes)
    (p : Pass Connection (Except Fault Connection)) : Prop :=
  (∃ c', p = .again c' ∧
    (∃ frames inside collected past, Awaits ext64 all c' rest frames inside collected past) ∧
    c'.buf.length < c.buf.length) ∨
  ∃ r, p = .done r ∧ Settled ext64 all r rest

theorem Awaits.wait (h : Awaits ext64 all c rest (f :: frames) inside collected past)
    (hshort : c.buf.length < (f.encode ext64).length)
    (hpass : messagePass hton64 ntoh64 handlers c = .done (.ok c)) :
    Proceeds ext64 all c rest (messagePass hton64 ntoh64 handlers c) := by
  refine .inr ⟨_, hpass, .inl ⟨c, _, _, _, _, rfl, h, ?_⟩⟩
  intro f' later heq
  obtain ⟨rfl, rfl⟩ := List.cons.inj heq
  exact hshort

theorem accept_length {extra : Bytes} (hbuf : c.buf = f.encode ext64 ++ extra) :
    (c.accept handlers f extra).buf.length < c.buf.length := by
  have hpos : 2 ≤ (f.encode ext64).length := encode_pos f
  rw [accept_buf, hbuf, List.length_append]
  omega

theorem Awaits.pass_data (hcodec : LengthCodec ntoh64 ext64)
    (h : Awaits ext64 all c rest (f :: frames) inside collected past) (hdata : f.IsData inside)
    (hlegal : Legal (!f.fin) frames) :
    Proceeds ext64 all c rest (messagePass hton64 ntoh64 handlers c) := by
  have hcheck : checkFragmentation c.ctx.rcvfragment f.fin f.opcode.toNat = true :=
    h.sync.fragment.symm ▸ hdata.check
  have hnot := hdata.not_isControl
  have hsize : (Frame.collected c.ctx).length ≤ maxSize := h.sync.collected_eq.symm ▸ h.sync.size
  have htotal : (Frame.collected c.ctx).length + f.payload.length =
      (collected ++ f.payload).length := by
    rw [h.sync.collected_eq, List.length_append]
  rcases arrived_cases (h.stream.trans (encodeAll_cons f frames)) with
    ⟨more, hmore, hbuf, hrest⟩ | ⟨extra, hbuf, hextra⟩
  · have hshort := arrived_length_lt hmore hbuf
    have hframe : c.buf ++ more = f.encode ext64 ++ [] := by rw [hbuf, List.append_nil]
    exact h.wait hshort
      (messagePass_short hcodec h.sync.state hframe hshort hdata.fits hcheck)
  · rcases Nat.lt_or_ge maxSize ((collected ++ f.payload).length) with hover | hfits
    · refine .inr ⟨_, messagePass_overflow hcodec h.sync.state hbuf hdata.fits hcheck hsize
        (htotal ▸ hover), .inr ⟨trivial, ?_⟩⟩
      rw [← h.clean_iff]
      rintro ⟨_, hmessages⟩
      rw [MessagesFit, if_neg hnot] at hmessages
      omega
    · have hnext : Awaits ext64 all (c.accept handlers f extra) rest frames (!f.fin)
          (if f.fin then [] else collected ++ f.payload)
          (past ++ if f.fin then [collected ++ f.payload] else []) := by
        refine ⟨h.sync.accept_data hdata hfits, ?_, hlegal, ?_, ?_⟩
        · rw [accept_buf]
          exact hextra
        · rw [← h.messages_eq, messages, if_neg hnot, List.append_assoc]
          cases f.fin <;> rfl
        · rw [← h.clean_iff, Undisturbed, MessagesFit, if_neg hnot, if_neg hnot]
          tauto
      exact .inl ⟨_, messagePass_accept hcodec h.sync.state hbuf hdata.fits hcheck (htotal ▸ hfits)
        (.inl hdata.code), ⟨_, _, _, _, hnext⟩, accept_length hbuf⟩

/-- The control frame in front is taken between messages and refused inside
one, as soon as its first two bytes are there. -/
theorem Awaits.pass_control (hcodec : LengthCodec ntoh64 ext64)
    (h : Awaits ext64 all c rest (f :: frames) inside collected past) (hcontrol : f.IsControl)
    (hlegal : Legal inside frames) :
    Proceeds ext64 all c rest (messagePass hton64 ntoh64 handlers c) := by
  have hcheck : checkFragmentation c.ctx.rcvfragment f.fin f.opcode.toNat = !inside :=
    h.sync.fragment.symm ▸ hcontrol.check _
  have hstream := h.stream.trans (encodeAll_cons f frames)
  cases inside with
  | true =>
      rcases Nat.lt_or_ge c.buf.length 2 with hone | htwo
      · have hpos : 2 ≤ (f.encode ext64).length := encode_pos f
        exact h.wait (by omega) (messagePass_tiny h.sync.state hone)
      · refine .inr ⟨_, messagePass_refused h.sync.state hstream htwo hcheck,
          .inr ⟨fail_failed h.sync.state, ?_⟩⟩
        rw [← h.clean_iff]
        rintro ⟨hundisturbed, _⟩
        rw [Undisturbed, if_pos hcontrol] at hundisturbed
        cases hundisturbed.1
  | false =>
      rcases arrived_cases hstream with ⟨more, hmore, hbuf, hrest⟩ | ⟨extra, hbuf, hextra⟩
      · have hshort := arrived_length_lt hmore hbuf
        have hframe : c.buf ++ more = f.encode ext64 ++ [] := by rw [hbuf, List.append_nil]
        exact h.wait hshort
          (messagePass_short hcodec h.sync.state hframe hshort hcontrol.fits hcheck)
      · have hnext : Awaits ext64 all (c.accept handlers f extra) rest frames false collected past := by
          refine ⟨h.sync.accept_control hcontrol, ?_, hlegal, ?_, ?_⟩
          · rw [accept_buf]
            exact hextra
          · rw [← h.messages_eq, messages, if_pos hcontrol]
          · rw [← h.clean_iff, Undisturbed, MessagesFit, if_pos hcontrol, if_pos hcontrol]
            simp only [true_and]
        have hfits : (Frame.collected c.ctx).length + f.payload.length ≤ maxSize := by
          have hmax : maxSize = 2 ^ 63 - 1 := rfl
          have hpayload := hcontrol.payload
          rw [h.sync.collected_eq, h.sync.collected_nil, List.length_nil]
          omega
        exact .inl ⟨_, messagePass_accept hcodec h.sync.state hbuf hcontrol.fits hcheck hfits
          (.inr hcontrol.code), ⟨_, _, _, _, hnext⟩, accept_length hbuf⟩

theorem Awaits.pass (hcodec : LengthCodec ntoh64 ext64)
    (h : Awaits ext64 all c rest frames inside collected past) :
    Proceeds ext64 all c rest (messagePass hton64 ntoh64 handlers c) := by
  cases frames with
  | nil =>
      have hnil : c.buf = [] := (List.append_eq_nil_iff.mp h.stream).1
      refine .inr ⟨_, messagePass_idle hnil, .inl ⟨c, _, _, _, _, rfl, h, ?_⟩⟩
      intro f later heq
      cases heq
  | cons f frames =>
      rcases h.legal with ⟨hcontrol, hlegal⟩ | ⟨hdata, hlegal⟩
      · exact h.pass_control hcodec hcontrol hlegal
      · exact h.pass_data hcodec hdata hlegal

theorem messageHandler_settled (hcodec : LengthCodec ntoh64 ext64)
    (h : Awaits ext64 all c rest frames inside collected past) :
    Settled ext64 all (messageHandler hton64 ntoh64 handlers c) rest := by
  have hpass : ∀ c, (∃ frames inside collected past,
      Awaits ext64 all c rest frames inside collected past) →
      Proceeds ext64 all c rest (messagePass hton64 ntoh64 handlers c) := by
    rintro c ⟨_, _, _, _, h⟩
    exact h.pass hcodec
  obtain ⟨r, hloop, hsettled⟩ := loop_spec (fun c : Connection => c.buf.length) hpass
    ⟨_, _, _, _, h⟩ (Nat.lt_succ_self c.buf.length)
  rw [messageHandler, hloop]
  exact hsettled

end

theorem decode_state {ctx ctx' : Context} {buf buf' : Bytes} {code : Code}
    (h : ctx.decode ntoh64 buf = .ok (code, ctx', buf')) : ctx'.state = ctx.state := by
  rw [Context.decode] at h
  split at h
  · cases h
    rfl
  simp only at h
  split at h
  · cases h
    rfl
  split at h
  · cases h
    rfl
  split at h
  · cases h
    rfl
  · next payloadLen key data _ =>
    generalize appendPayload (if ctx.rcvfragment then ctx.decodedBuffer else []) buf _ payloadLen
      key data = r at h
    cases r with
    | error fault => cases h
    | ok decoded =>
        simp only [bind, Except.bind] at h
        split at h <;> cases h <;> rfl

private theorem messagePass_failed {c : Connection} (hc : Failed (.ok c)) :
    (∃ c', messagePass hton64 ntoh64 handlers c = .again c' ∧ Failed (.ok c')) ∨
      ∃ r, messagePass hton64 ntoh64 handlers c = .done r ∧ Failed r := by
  obtain ⟨hstate, herror⟩ := hc
  have hkept : ∀ events, .onerror ∈ c.events ++ events :=
    fun events => List.mem_append_left events herror
  rw [messagePass]
  split
  · exact .inr ⟨_, rfl, hstate, herror⟩
  simp only [hstate]
  cases hdecode : c.ctx.decode ntoh64 c.buf with
  | error fault => exact .inr ⟨_, rfl, trivial⟩
  | ok r =>
      obtain ⟨code, ctx, buf⟩ := r
      have hctx : ctx.state = .establish := (decode_state hdecode).trans hstate
      cases code with
      | ok =>
          simp only
          split
          · exact .inl ⟨_, rfl, hctx, hkept _⟩
          · exact .inl ⟨_, rfl, hctx, herror⟩
      | error => exact .inr ⟨_, rfl, fail_failed hctx⟩
      | notEnough => exact .inr ⟨_, rfl, hctx, herror⟩
      | ping => exact .inl ⟨_, rfl, hctx, hkept _⟩
      | pong => exact .inl ⟨_, rfl, hctx, herror⟩
      | close => exact .inr ⟨_, rfl, hctx, List.mem_append_left _ (hkept _)⟩

private theorem messageHandler_failed {c : Connection} (hc : Failed (.ok c)) :
    Failed (messageHandler hton64 ntoh64 handlers c) := by
  rw [messageHandler]
  cases hloop : loop (messagePass hton64 ntoh64 handlers) (c.buf.length + 1) c with
  | none => trivial
  | some r => exact loop_sound_of_pass (fun _ => messagePass_failed) hc hloop

theorem Settled.receive {all : List Frame} {s : Except Fault Connection} {seg rest : Bytes}
    (hcodec : LengthCodec ntoh64 ext64) (h : Settled ext64 all s (seg ++ rest)) :
    Settled ext64 all (receive hton64 ntoh64 handlers s seg) rest := by
  rcases h with ⟨c, frames, inside, collected, past, rfl, h, _⟩ | ⟨hfailed, hclean⟩
  · have hmore : Awaits ext64 all { c with buf := c.buf ++ seg } rest frames inside collected past :=
      ⟨⟨h.sync.state, h.sync.fragment, h.sync.collected_eq, h.sync.size, h.sync.noError,
        h.sync.past_eq⟩, by rw [← h.stream, List.append_assoc], h.legal, h.messages_eq, h.clean_iff⟩
    exact messageHandler_settled hcodec hmore
  · refine .inr ⟨?_, hclean⟩
    cases s with
    | error fault => trivial
    | ok c => exact messageHandler_failed hfailed

/-- A connection that waits for the first frame of a message. -/
structure Connection.Ready (c : Connection) : Prop where
  state : c.ctx.state = .establish
  fragment : c.ctx.rcvfragment = false
  buf : c.buf = []

/-- No error, and each message of the frames handed over once and in order. -/
def Processed (frames : List Frame) (r : Except Fault Connection) : Prop :=
  ∃ c, r = .ok c ∧ .onerror ∉ c.events ∧ c.events.filterMap Event.message? = messages [] frames

/-- Frames that are legal are processed in every segmentation exactly when no
Ping or Pong comes between the fragments of a message and every message fits a
string. -/
theorem frames_processed_iff
    (hbig : ∀ n < 2 ^ 64, ntoh64 (load (bigEndian 8 n)) = n) (c : Connection) (hready : c.Ready)
    (hfresh : c.events = []) (frames : List Frame) (hlegal : Legal false frames)
    (segments : List Bytes) (hstream : segments.flatten = encodeAll (bigEndian 8) frames) :
    Processed frames (run (receive hton64 ntoh64 handlers) (.ok c) segments) ↔
      Undisturbed false frames ∧ MessagesFit [] frames := by
  have hcodec : LengthCodec ntoh64 (bigEndian 8) := ⟨fun n => bigEndian_length 8 n, hbig⟩
  have hcollected : Frame.collected c.ctx = [] := by
    rw [Frame.collected, hready.fragment]
    rfl
  have hsync : InSync c false [] [] :=
    ⟨hready.state, hready.fragment, hcollected, Nat.zero_le _, by simp [hfresh], by simp [hfresh]⟩
  have hstart : Settled (bigEndian 8) frames (.ok c) (segments.flatten ++ []) := by
    refine .inl ⟨c, frames, false, [], [], rfl, ⟨hsync, ?_, hlegal, rfl, Iff.rfl⟩, ?_⟩
    · rw [hready.buf, List.append_nil, List.nil_append, hstream]
    · intro f later _
      have hpos : 2 ≤ (f.encode (bigEndian 8)).length := encode_pos f
      rw [hready.buf, List.length_nil]
      omega
  have hstep : ∀ s seg rest, Settled (bigEndian 8) frames s (seg ++ rest) →
      Settled (bigEndian 8) frames (receive hton64 ntoh64 handlers s seg) rest :=
    fun _ _ _ h => h.receive hcodec
  rcases run_segments hstep hstart with ⟨c', left, _, _, past, hok, h, hshort⟩ | ⟨hfailed, hclean⟩
  · have hleft : left = [] := by
      cases left with
      | nil => rfl
      | cons f later =>
          have hlong := hshort f later rfl
          have hbuf : c'.buf ++ [] = f.encode (bigEndian 8) ++ encodeAll (bigEndian 8) later :=
            h.stream
          rw [← List.append_nil c'.buf, hbuf, List.length_append] at hlong
          omega
    subst hleft
    have hclean : Clean frames := h.clean_iff.mp ⟨trivial, trivial⟩
    refine ⟨fun _ => hclean, fun _ => ⟨c', hok, h.sync.noError, ?_⟩⟩
    rw [h.sync.past_eq, ← h.messages_eq]
    exact (List.append_nil past).symm
  · refine ⟨?_, fun h => absurd h hclean⟩
    rintro ⟨c', hok, hno, _⟩
    rw [hok] at hfailed
    exact absurd hfailed.2 hno

end

/-- Handlers that leave the context as it is. -/
def quietHandlers : Handlers := ⟨id, id, id, id⟩

/-- A connection just after the handshake. -/
def established : Connection :=
  { ctx := { Context.create false with state := .establish }, buf := [], events := [] }

def firstFragment : Frame :=
  { fin := false, opcode := 1, maskingKey := some [1, 2, 3, 4], payload := ascii "Hel"
    opcode_lt := by decide, key_length := by simp, payload_lt := by decide }

def finalFragment : Frame :=
  { fin := true, opcode := 0, maskingKey := some [5, 6, 7, 8], payload := ascii "lo"
    opcode_lt := by decide, key_length := by simp, payload_lt := by decide }

def pingFrame : Frame :=
  { fin := true, opcode := 9, maskingKey := some [9, 9, 9, 9], payload := []
    opcode_lt := by decide, key_length := by simp, payload_lt := by decide }

theorem fragments_processed :
    Processed [pingFrame, firstFragment, finalFragment]
      (run (receive (Sockops.hton64 true) (Sockops.ntoh64 true) quietHandlers) (.ok established)
        [encodeAll (bigEndian 8) [pingFrame, firstFragment, finalFragment]]) := by
  have hbig : ∀ n < 2 ^ 64, Sockops.ntoh64 true (load (bigEndian 8 n)) = n := by
    intro n hn
    exact (Sockops.hton64_eq_hton _).trans (Sockops.hton_hton 8 n hn)
  have hlegal : Legal false [pingFrame, firstFragment, finalFragment] :=
    .inl ⟨by decide, .inr ⟨.inl rfl, .inr ⟨rfl, trivial⟩⟩⟩
  have hundisturbed : Undisturbed false [pingFrame, firstFragment, finalFragment] :=
    ⟨rfl, trivial⟩
  have hfits : MessagesFit [] [pingFrame, firstFragment, finalFragment] :=
    ⟨by decide, by decide, trivial⟩
  exact (frames_processed_iff hbig established ⟨rfl, rfl, rfl⟩ rfl _ hlegal _
    (List.append_nil _)).mpr ⟨hundisturbed, hfits⟩

/-- A Ping between two fragments is answered with an error. -/
theorem ping_between_fragments :
    Legal false [firstFragment, pingFrame, finalFragment] ∧
      ¬ Processed [firstFragment, pingFrame, finalFragment]
        (run (receive (Sockops.hton64 true) (Sockops.ntoh64 true) quietHandlers) (.ok established)
          [encodeAll (bigEndian 8) [firstFragment, pingFrame, finalFragment]]) := by
  refine ⟨.inr ⟨.inl rfl, .inl ⟨by decide, .inr ⟨rfl, trivial⟩⟩⟩, ?_⟩
  rintro ⟨c, hok, hno, _⟩
  have hevents : (run (receive (Sockops.hton64 true) (Sockops.ntoh64 true) quietHandlers)
      (.ok established) [encodeAll (bigEndian 8) [firstFragment, pingFrame, finalFragment]]).map
        (·.events) = .ok [.onerror, .close] := by decide
  rw [hok] at hevents
  have heq : c.events = [.onerror, .close] := Except.ok.inj hevents
  exact hno (heq ▸ List.mem_cons_self)

end Angel.Websocket
