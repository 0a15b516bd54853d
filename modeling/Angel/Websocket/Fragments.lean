import Angel.Websocket.RoundTrip

/-!
The frames that `send_fragment` makes of the fragments of a message, and how they
are split between direct sends and `encoded_buffer`.
-/

namespace Angel.Websocket

open Angel.Lib Util Buffer

/-- The calls of `send_fragment` for the fragments of one message, the last of
them with `final_fragment`. -/
def Context.sendFragments (hton64 : Nat → Nat) (ctx : Context) :
    List Bytes → List Bytes × Context
  | [] => ([], ctx)
  | [last] => ctx.sendFragment hton64 last true
  | fragment :: next :: fragments =>
      let (sends, ctx) := ctx.sendFragment hton64 fragment false
      let (later, ctx) := Context.sendFragments hton64 ctx (next :: fragments)
      (sends ++ later, ctx)

/-- The frames of the fragments of one message, `opcode` on the first of them. -/
structure FragmentsOf (opcode : UInt8) (fragments : List Bytes) (frames : List Frame) : Prop where
  payloads : frames.map (·.payload) = fragments
  unmasked : ∀ f ∈ frames, f.maskingKey = none
  opcodes : frames.map (·.opcode) = opcode :: List.replicate (fragments.length - 1) 0
  fins : frames.map (·.fin) = List.replicate (fragments.length - 1) false ++ [true]

/-- The fragments go out as the frames of one message, all of it, and the next
fragment is a first one again. -/
def SendsFragments (hton64 : Nat → Nat) (ctx : Context) (fragments : List Bytes) : Prop :=
  (∃ frames, FragmentsOf (opcodeOf ctx.isBinaryType) fragments frames ∧
    (ctx.sendFragments hton64 fragments).1.flatten =
      encodeAll (fun n => object 8 (hton64 n)) frames) ∧
  (ctx.sendFragments hton64 fragments).2.encodedBuffer = [] ∧
  (ctx.sendFragments hton64 fragments).2.sndfragment = .firstFragment

theorem FragmentsOf.single {f : Frame} (hmask : f.maskingKey = none) (hfin : f.fin = true) :
    FragmentsOf f.opcode [f.payload] [f] := by
  refine ⟨rfl, ?_, rfl, ?_⟩
  · intro g hg
    rw [List.mem_singleton.mp hg, hmask]
  · exact congrArg (fun b => [b]) hfin

theorem FragmentsOf.cons {fragments : List Bytes} {frames : List Frame} {f : Frame}
    (h : FragmentsOf 0 fragments frames) (hne : fragments ≠ []) (hmask : f.maskingKey = none)
    (hfin : f.fin = false) : FragmentsOf f.opcode (f.payload :: fragments) (f :: frames) := by
  have hlen : (f.payload :: fragments).length - 1 = (fragments.length - 1) + 1 := by
    have hpos := List.length_pos_of_ne_nil hne
    rw [List.length_cons]
    omega
  refine ⟨?_, ?_, ?_, ?_⟩
  · rw [List.map_cons, h.payloads]
  · intro g hg
    rcases List.mem_cons.mp hg with rfl | hlater
    · exact hmask
    · exact h.unmasked g hlater
  · rw [List.map_cons, h.opcodes, hlen, List.replicate_succ]
  · rw [List.map_cons, h.fins, hlen, List.replicate_succ, hfin, List.cons_append]

section

variable (hton64 : Nat → Nat) (ctx : Context)

/-- Whether it is sent or kept, the frame comes behind what the buffer held. -/
theorem sendFragment_stream (f : Frame) (finalFragment : Bool) (sndfragment : SndFragment)
    (hmask : f.maskingKey = none)
    (hfirst : (if finalFragment then .finalFragment else ctx.sndfragment : SndFragment).firstByte
      ctx.isBinaryType = (f.first, sndfragment)) :
    (ctx.sendFragment hton64 f.payload finalFragment).1.flatten ++
        (ctx.sendFragment hton64 f.payload finalFragment).2.encodedBuffer =
      ctx.encodedBuffer ++ f.encode fun n => object 8 (hton64 n) := by
  have hframe := f.encode_unmasked hton64 ctx.encodedBuffer hmask
  rw [Context.sendFragment, hfirst]
  simp only
  split
  · simpa using hframe
  · split
    · simpa using hframe
    · simpa using hframe

theorem sendFragment_context (fragment : Bytes) (finalFragment : Bool) {first : UInt8}
    {sndfragment : SndFragment}
    (hfirst : (if finalFragment then .finalFragment else ctx.sndfragment : SndFragment).firstByte
      ctx.isBinaryType = (first, sndfragment)) :
    (ctx.sendFragment hton64 fragment finalFragment).2 =
      { ctx with
        sndfragment := sndfragment
        encodedBuffer := (ctx.sendFragment hton64 fragment finalFragment).2.encodedBuffer } := by
  rw [Context.sendFragment, hfirst]
  simp only
  split
  · rfl
  · split <;> rfl

theorem sendFragment_final (fragment : Bytes) :
    (ctx.sendFragment hton64 fragment true).2 =
      { ctx with sndfragment := .firstFragment, encodedBuffer := [] } := by
  rw [Context.sendFragment]
  simp only [if_true, SndFragment.firstByte, true_or]
  split <;> rfl

private theorem no_key_length : ∀ key : Bytes, none = some key → key.length = 4 := nofun

/-- An unmasked frame with a fragment. -/
def fragmentFrame (fin : Bool) (opcode : UInt8) (fragment : Bytes) (hopcode : opcode.toNat < 16)
    (h : fragment.length < 2 ^ 63) : Frame :=
  { fin := fin, opcode := opcode, maskingKey := none, payload := fragment
    opcode_lt := hopcode
    key_length := no_key_length
    payload_lt := h }

theorem opcodeOf_lt (isBinaryType : Bool) : (opcodeOf isBinaryType).toNat < 16 := by
  cases isBinaryType <;> decide

theorem sendFragments_last {last : Bytes} (h : last.length < 2 ^ 63) :
    (ctx.sendFragments hton64 [last]).1.flatten = ctx.encodedBuffer ++
      (fragmentFrame true 0 last (by decide) h).encode fun n => object 8 (hton64 n) := by
  have hfirst : (fragmentFrame true 0 last (by decide) h).first = 0x80 := UInt8.or_zero
  have hstream := sendFragment_stream hton64 ctx (fragmentFrame true 0 last (by decide) h) true
    .firstFragment rfl (by rw [hfirst]; rfl)
  have hbuffer : (ctx.sendFragment hton64 last true).2.encodedBuffer = [] :=
    congrArg (fun c => c.encodedBuffer) (sendFragment_final hton64 ctx last)
  rw [← hstream]
  show (ctx.sendFragment hton64 last true).1.flatten =
    (ctx.sendFragment hton64 last true).1.flatten ++
      (ctx.sendFragment hton64 last true).2.encodedBuffer
  rw [hbuffer, List.append_nil]

/-- A fragment that is not final adds its frame to the stream, be it to the part
that is sent or to the part that is kept. -/
theorem sendFragments_more (fragment next : Bytes) (fragments : List Bytes) (opcode : UInt8)
    (hopcode : opcode.toNat < 16) (h : fragment.length < 2 ^ 63)
    (hfirst : ctx.sndfragment.firstByte ctx.isBinaryType = (opcode, .middleFragment)) :
    ∃ encodedBuffer sends, sends.flatten ++ encodedBuffer = ctx.encodedBuffer ++
        (fragmentFrame false opcode fragment hopcode h).encode (fun n => object 8 (hton64 n)) ∧
      ctx.sendFragments hton64 (fragment :: next :: fragments) =
        let ctx := { ctx with sndfragment := .middleFragment, encodedBuffer := encodedBuffer }
        (sends ++ (ctx.sendFragments hton64 (next :: fragments)).1,
          (ctx.sendFragments hton64 (next :: fragments)).2) := by
  have hbyte : (fragmentFrame false opcode fragment hopcode h).first = opcode := by
    rw [Frame.first]
    exact UInt8.zero_or
  refine ⟨(ctx.sendFragment hton64 fragment false).2.encodedBuffer,
    (ctx.sendFragment hton64 fragment false).1, ?_, ?_⟩
  · exact sendFragment_stream hton64 ctx (fragmentFrame false opcode fragment hopcode h) false
      .middleFragment rfl (by rw [hbyte]; exact hfirst)
  · have hctx := sendFragment_context hton64 ctx fragment false hfirst
    rw [← hctx]
    rfl

private theorem sendFragments_later {fragments : List Bytes} (hne : fragments ≠ [])
    (hsize : ∀ fragment ∈ fragments, fragment.length < 2 ^ 63)
    (hstate : ctx.sndfragment = .middleFragment) :
    ∃ frames, FragmentsOf 0 fragments frames ∧
      (ctx.sendFragments hton64 fragments).1.flatten =
        ctx.encodedBuffer ++ encodeAll (fun n => object 8 (hton64 n)) frames ∧
      (ctx.sendFragments hton64 fragments).2 =
        { ctx with sndfragment := .firstFragment, encodedBuffer := [] } := by
  induction fragments generalizing ctx with
  | nil => exact absurd rfl hne
  | cons fragment rest ih =>
      have hfragment := hsize fragment List.mem_cons_self
      cases rest with
      | nil =>
          have hframe : FragmentsOf 0 [fragment]
              [fragmentFrame true 0 fragment (by decide) hfragment] :=
            FragmentsOf.single (f := fragmentFrame true 0 fragment (by decide) hfragment) rfl rfl
          refine ⟨_, hframe, ?_, sendFragment_final hton64 ctx fragment⟩
          rw [sendFragments_last hton64 ctx hfragment, encodeAll_cons]
          exact congrArg _ (List.append_nil _).symm
      | cons next fragments =>
          obtain ⟨encodedBuffer, sends, hstream, heq⟩ :=
            sendFragments_more hton64 ctx fragment next fragments 0 (by decide) hfragment
              (by rw [hstate]; rfl)
          have hrest : ∀ g ∈ next :: fragments, g.length < 2 ^ 63 :=
            fun g hg => hsize g (List.mem_cons_of_mem _ hg)
          obtain ⟨frames, hframes, hlater, hctx⟩ :=
            ih { ctx with sndfragment := .middleFragment, encodedBuffer := encodedBuffer }
              (by simp) hrest rfl
          have hall : FragmentsOf 0 (fragment :: next :: fragments)
              (fragmentFrame false 0 fragment (by decide) hfragment :: frames) :=
            FragmentsOf.cons (f := fragmentFrame false 0 fragment (by decide) hfragment) hframes
              (by simp) rfl rfl
          refine ⟨_, hall, ?_, ?_⟩
          · rw [heq, encodeAll_cons]
            simp only [List.flatten_append, hlater]
            rw [← List.append_assoc, hstream, List.append_assoc]
          · rw [heq]
            simp only [hctx]

/-- The only fragment of a message is a final one and goes out as a continuation. -/
theorem not_sendsFragments_single {last : Bytes} (h : last.length < 2 ^ 63)
    (hbuffer : ctx.encodedBuffer = []) : ¬ SendsFragments hton64 ctx [last] := by
  rintro ⟨⟨frames, hframes, hbytes⟩, _⟩
  have hone : frames.length = 1 := by
    have hlen := congrArg List.length hframes.payloads
    rwa [List.length_map] at hlen
  obtain ⟨f, rfl⟩ := List.length_eq_one_iff.mp hone
  have hopcode : f.opcode = opcodeOf ctx.isBinaryType := (List.cons.inj hframes.opcodes).1
  rw [sendFragments_last hton64 ctx h, hbuffer, encodeAll_cons] at hbytes
  have hfirst : (fragmentFrame true 0 last (by decide) h).first = f.first :=
    (List.cons.inj hbytes).1
  have hzero : opcodeOf ctx.isBinaryType = 0 :=
    calc opcodeOf ctx.isBinaryType
        = f.first &&& 0x0f := by rw [← hopcode]; exact (opcode_bits f.fin f.opcode f.opcode_lt).symm
      _ = 0 := by rw [← hfirst]; exact opcode_bits true 0 (by decide)
  cases hbinary : ctx.isBinaryType <;> rw [hbinary] at hzero <;> exact absurd hzero (by decide)

/-- The fragments of a message go out as its frames when there is a first one
that is not final. -/
theorem sends_fragments_iff (fragments : List Bytes) (hne : fragments ≠ [])
    (hsize : ∀ fragment ∈ fragments, fragment.length < 2 ^ 63)
    (hfirst : ctx.sndfragment = .firstFragment) (hbuffer : ctx.encodedBuffer = []) :
    SendsFragments hton64 ctx fragments ↔ 2 ≤ fragments.length := by
  rcases fragments with _ | ⟨fragment, _ | ⟨next, fragments⟩⟩
  · exact absurd rfl hne
  · constructor
    · intro h
      exact absurd h (not_sendsFragments_single hton64 ctx (hsize _ List.mem_cons_self) hbuffer)
    · intro h
      exact absurd h (by simp)
  · constructor
    · intro _
      simp
    · intro _
      have hfragment := hsize fragment List.mem_cons_self
      obtain ⟨encodedBuffer, sends, hstream, heq⟩ :=
        sendFragments_more hton64 ctx fragment next fragments (opcodeOf ctx.isBinaryType)
          (opcodeOf_lt _) hfragment (by rw [hfirst]; rfl)
      obtain ⟨frames, hframes, hlater, hctx⟩ :=
        sendFragments_later hton64
          { ctx with sndfragment := .middleFragment, encodedBuffer := encodedBuffer }
          (List.cons_ne_nil next fragments) (fun g hg => hsize g (List.mem_cons_of_mem _ hg)) rfl
      have hall : FragmentsOf (opcodeOf ctx.isBinaryType) (fragment :: next :: fragments)
          (fragmentFrame false (opcodeOf ctx.isBinaryType) fragment (opcodeOf_lt _) hfragment ::
            frames) :=
        FragmentsOf.cons
          (f := fragmentFrame false (opcodeOf ctx.isBinaryType) fragment (opcodeOf_lt _) hfragment)
          hframes (List.cons_ne_nil next fragments) rfl rfl
      refine ⟨⟨_, hall, ?_⟩, ?_, ?_⟩
      · rw [heq, encodeAll_cons]
        simp only [List.flatten_append, hlater]
        rw [← List.append_assoc, hstream, hbuffer, List.nil_append]
      · rw [heq]
        simp only [hctx]
      · rw [heq]
        simp only [hctx]

theorem sends_three_fragments :
    SendsFragments (Sockops.hton64 true) (Context.create true) [ascii "Hel", [], ascii "lo"] :=
  (sends_fragments_iff (Sockops.hton64 true) (Context.create true) _ (by decide) (by decide) rfl
    rfl).mpr (by decide)

/-- A message of one fragment: FIN and the opcode of a continuation. -/
theorem sends_single_fragment :
    (Context.create false).sendFragments (Sockops.hton64 true) [ascii "Hello"] =
        ([[0x80, 5] ++ ascii "Hello"], Context.create false) ∧
      ¬ SendsFragments (Sockops.hton64 true) (Context.create false) [ascii "Hello"] :=
  ⟨by decide, not_sendsFragments_single _ _ (by decide) rfl⟩

end

end Angel.Websocket
