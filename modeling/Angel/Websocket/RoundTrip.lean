import Angel.Websocket.Messages

/-!
What `send` puts on the wire is one frame, and a context that receives it, as it
is or masked, hands the message over at its last byte.
-/

namespace Angel.Websocket

open Angel.Lib Util Buffer

/-- The frame of a whole message. -/
def messageFrame (m : Bytes) (isBinaryType : Bool) (h : m.length < 2 ^ 63) : Frame :=
  { fin := true, opcode := opcodeOf isBinaryType, maskingKey := none, payload := m
    opcode_lt := by cases isBinaryType <;> decide
    key_length := by simp
    payload_lt := h }

/-- The same frame with the mask bit, a key and the payload masked. -/
def Frame.masked (f : Frame) (key : Bytes) (h : key.length = 4) : Frame :=
  { f with
    maskingKey := some key
    key_length := by
      rintro key' heq
      exact Option.some.inj heq ▸ h }

section

variable {hton64 ntoh64 : Nat → Nat} {handlers : Handlers}

theorem send_flatten (sender : Context) (m : Bytes) (hm : m.length < 2 ^ 63) :
    (sender.send hton64 m).1.flatten = sender.encodedBuffer ++
      (messageFrame m sender.isBinaryType hm).encode fun n => object 8 (hton64 n) := by
  have hbytes : (sender.send hton64 m).1.flatten =
      encode hton64 sender.encodedBuffer m.length (0x80 ||| opcodeOf sender.isBinaryType) ++ m := by
    rw [Context.send]
    split <;> simp
  rw [hbytes]
  exact (messageFrame m sender.isBinaryType hm).encode_unmasked hton64 sender.encodedBuffer rfl

/-- The bytes of a message cause one `onmessage`, when the last of them has
arrived, and nothing before; of a buffer that starts with them one pass takes
these bytes and no more. -/
structure Delivers (hton64 ntoh64 : Nat → Nat) (handlers : Handlers) (c : Connection)
    (bytes m : Bytes) (isBinaryType : Bool) : Prop where
  waits : ∀ segments more, segments.flatten ++ more = bytes → more ≠ [] →
    run (receive hton64 ntoh64 handlers) (.ok c) segments = .ok { c with buf := segments.flatten }
  delivered : ∃ ctx : Context,
    (∀ segments, segments.flatten = bytes →
      run (receive hton64 ntoh64 handlers) (.ok c) segments =
        .ok { ctx := ctx, buf := [], events := c.events ++ [.onmessage m isBinaryType] }) ∧
    ∀ extra, messagePass hton64 ntoh64 handlers { c with buf := bytes ++ extra } =
      .again { ctx := ctx, buf := extra, events := c.events ++ [.onmessage m isBinaryType] }

section

variable {ext64 : Nat → Bytes} {c : Connection} {f : Frame}

/-- The connection after a frame that is a message of its own. -/
def Connection.deliver (handlers : Handlers) (c : Connection) (f : Frame) (rest : Bytes) :
    Connection :=
  Connection.call { c with ctx := f.after c.ctx, buf := rest } handlers.onmessage
    (.onmessage f.payload (f.opcode == 2))

theorem messagePass_deliver (hcodec : LengthCodec ntoh64 ext64) (hready : c.Ready)
    (hdata : f.IsData false) (hfin : f.fin = true) (extra : Bytes) :
    messagePass hton64 ntoh64 handlers { c with buf := f.encode ext64 ++ extra } =
      .again (c.deliver handlers f extra) := by
  have hcollected : Frame.collected c.ctx = [] := by
    rw [Frame.collected, hready.fragment]
    rfl
  have hpayload := f.payload_lt
  have hmax : maxSize = 2 ^ 63 - 1 := rfl
  have hcheck : checkFragmentation c.ctx.rcvfragment f.fin f.opcode.toNat = true :=
    hready.fragment.symm ▸ hdata.check
  have hfits : (Frame.collected c.ctx).length + f.payload.length ≤ maxSize := by
    rw [hcollected, List.length_nil]
    omega
  have hpass : messagePass hton64 ntoh64 handlers { c with buf := f.encode ext64 ++ extra } =
      .again (Connection.accept handlers { c with buf := f.encode ext64 ++ extra } f extra) :=
    messagePass_accept hcodec hready.state rfl hdata.fits hcheck hfits (.inl hdata.code)
  rw [hpass]
  have hbinary : (f.after c.ctx).isBinaryType = (f.opcode == 2) := by
    rcases hdata with hop | hop <;> simp [Frame.after, hop]
  have hdecoded : (f.after c.ctx).decodedBuffer = f.payload := by
    rw [Frame.after, hcollected]
    rfl
  simp only [Connection.accept, hdata.code, hfin, if_true, Connection.deliver, hbinary, hdecoded]

/-- The frame is still coming, or it has been handed over and nothing is to
come. -/
def Coming (ext64 : Nat → Bytes) (handlers : Handlers) (c : Connection) (f : Frame)
    (s : Except Fault Connection) (rest : Bytes) : Prop :=
  rest ≠ [] ∧ (∃ got, s = .ok { c with buf := got } ∧ got ++ rest = f.encode ext64) ∨
    rest = [] ∧ s = .ok (c.deliver handlers f [])

private theorem coming_receive (hcodec : LengthCodec ntoh64 ext64) (hready : c.Ready)
    (hdata : f.IsData false) (hfin : f.fin = true) {s : Except Fault Connection} {seg rest : Bytes}
    (h : Coming ext64 handlers c f s (seg ++ rest)) :
    Coming ext64 handlers c f (receive hton64 ntoh64 handlers s seg) rest := by
  have hcheck : checkFragmentation c.ctx.rcvfragment f.fin f.opcode.toNat = true :=
    hready.fragment.symm ▸ hdata.check
  rcases h with ⟨hne, got, rfl, hbytes⟩ | ⟨hnil, rfl⟩
  · have hreceive : receive hton64 ntoh64 handlers (.ok { c with buf := got }) seg =
        messageHandler hton64 ntoh64 handlers { c with buf := got ++ seg } := rfl
    rw [hreceive, messageHandler]
    by_cases hrest : rest = []
    · subst hrest
      have hwhole : got ++ seg = f.encode ext64 ++ [] := by
        rw [List.append_nil, ← hbytes, List.append_nil]
      have hlen : (got ++ seg).length + 1 = ((got ++ seg).length - 1) + 1 + 1 := by
        have hpos : 2 ≤ (f.encode ext64).length := encode_pos f
        rw [hwhole, List.append_nil]
        omega
      rw [hlen, hwhole, loop_again (messagePass_deliver hcodec hready hdata hfin []),
        loop_done (messagePass_idle rfl)]
      exact .inr ⟨rfl, rfl⟩
    · have hframe : (got ++ seg) ++ rest = f.encode ext64 ++ [] := by
        rw [List.append_nil, ← hbytes, List.append_assoc]
      have hshort : (got ++ seg).length < (f.encode ext64).length := by
        have hpos := List.length_pos_of_ne_nil hrest
        rw [← hbytes, List.length_append, List.length_append, List.length_append]
        omega
      have hpass : messagePass hton64 ntoh64 handlers { c with buf := got ++ seg } =
          .done (.ok { c with buf := got ++ seg }) :=
        messagePass_short hcodec hready.state hframe hshort hdata.fits hcheck
      rw [loop_done hpass]
      exact .inl ⟨hrest, got ++ seg, rfl, by rw [List.append_assoc, hbytes]⟩
  · obtain ⟨rfl, rfl⟩ := List.append_eq_nil_iff.mp hnil
    have hreceive : ∀ d : Connection, d.buf = [] →
        receive hton64 ntoh64 handlers (.ok d) [] = .ok d := by
      intro d hd
      have hbuf : ({ d with buf := d.buf ++ [] } : Connection) = d := by rw [List.append_nil]
      show messageHandler hton64 ntoh64 handlers { d with buf := d.buf ++ [] } = .ok d
      rw [hbuf, messageHandler, loop_done (messagePass_idle hd)]
      rfl
    exact .inr ⟨rfl, hreceive _ rfl⟩

private theorem frame_delivers (hcodec : LengthCodec ntoh64 ext64) (hready : c.Ready)
    (hdata : f.IsData false) (hfin : f.fin = true) :
    Delivers hton64 ntoh64 handlers c (f.encode ext64) f.payload (f.opcode == 2) := by
  have hne : f.encode ext64 ≠ [] := by simp [Frame.encode]
  have hstart : Coming ext64 handlers c f (.ok c) (f.encode ext64) := by
    refine .inl ⟨hne, [], ?_, rfl⟩
    rw [← hready.buf]
  have hrun : ∀ segments more, segments.flatten ++ more = f.encode ext64 →
      Coming ext64 handlers c f (run (receive hton64 ntoh64 handlers) (.ok c) segments) more := by
    intro segments more hstream
    apply run_segments (fun _ _ _ h => coming_receive hcodec hready hdata hfin h)
    rw [hstream]
    exact hstart
  refine ⟨?_, (c.deliver handlers f []).ctx, ?_, ?_⟩
  · intro segments more hstream hmore
    rcases hrun segments more hstream with ⟨_, got, hok, hgot⟩ | ⟨hnil, _⟩
    · rw [hok, List.append_cancel_right (hgot.trans hstream.symm)]
    · exact absurd hnil hmore
  · intro segments hstream
    rcases hrun segments [] (by rw [List.append_nil, hstream]) with ⟨hnil, _⟩ | ⟨_, hok⟩
    · exact absurd rfl hnil
    · exact hok
  · intro extra
    exact messagePass_deliver hcodec hready hdata hfin extra

end

/-- A message that is sent, its frame as it is or masked, is handed over once,
when its last byte has arrived, with the type it was sent with. -/
theorem send_received (h64 : ∀ x < 2 ^ 64, hton64 x < 2 ^ 64 ∧ ntoh64 (hton64 x) = x)
    (sender : Context) (m : Bytes) (hm : m.length < 2 ^ 63) (c : Connection) (hready : c.Ready) :
    (sender.send hton64 m).1.flatten = sender.encodedBuffer ++
        (messageFrame m sender.isBinaryType hm).encode (fun n => object 8 (hton64 n)) ∧
      Delivers hton64 ntoh64 handlers c
        ((messageFrame m sender.isBinaryType hm).encode fun n => object 8 (hton64 n)) m
        sender.isBinaryType ∧
      ∀ (key : Bytes) (hkey : key.length = 4),
        Delivers hton64 ntoh64 handlers c
          (((messageFrame m sender.isBinaryType hm).masked key hkey).encode
            fun n => object 8 (hton64 n)) m sender.isBinaryType := by
  have hcodec : LengthCodec ntoh64 fun n => object 8 (hton64 n) := by
    refine ⟨fun n => object_length 8 _, ?_⟩
    intro n hn
    have hload : load (object 8 (hton64 n)) = hton64 n := by
      rw [load_object]
      exact Nat.mod_eq_of_lt (h64 n hn).1
    rw [hload, (h64 n hn).2]
  have hdata : (messageFrame m sender.isBinaryType hm).IsData false := by
    cases hbinary : sender.isBinaryType
    · exact .inl rfl
    · exact .inr rfl
  have htype : ((messageFrame m sender.isBinaryType hm).opcode == 2) = sender.isBinaryType := by
    cases hbinary : sender.isBinaryType <;> rfl
  refine ⟨send_flatten sender m hm, ?_, ?_⟩
  · have hplain : Delivers hton64 ntoh64 handlers c _ m _ :=
      frame_delivers hcodec hready hdata rfl
    rwa [htype] at hplain
  · intro key hkey
    have hmasked : Delivers hton64 ntoh64 handlers c _ m _ :=
      frame_delivers hcodec hready
        (show ((messageFrame m sender.isBinaryType hm).masked key hkey).IsData false from hdata) rfl
    have hopcode : (((messageFrame m sender.isBinaryType hm).masked key hkey).opcode == 2) =
        sender.isBinaryType := htype
    rwa [hopcode] at hmasked

end

theorem send_received_hello :
    Delivers (Sockops.hton64 true) (Sockops.ntoh64 true) quietHandlers established
      (((messageFrame (ascii "Hello") false (by decide)).masked [1, 2, 3, 4] rfl).encode
        fun n => object 8 (Sockops.hton64 true n)) (ascii "Hello") false := by
  have h64 : ∀ x < 2 ^ 64,
      Sockops.hton64 true x < 2 ^ 64 ∧ Sockops.ntoh64 true (Sockops.hton64 true x) = x := by
    intro x hx
    refine ⟨?_, Sockops.ntoh64_hton64 x hx⟩
    rw [Sockops.hton64_eq_hton]
    exact Sockops.hton_lt 8 x
  exact (send_received h64 (Context.create false) (ascii "Hello") (by decide) established
    ⟨rfl, rfl, rfl⟩).2.2 [1, 2, 3, 4] rfl

end Angel.Websocket
