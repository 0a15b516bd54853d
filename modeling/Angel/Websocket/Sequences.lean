import Angel.Websocket.Messages

/-!
The sequences of data frames that `decode` lets through, beside the sequences
that the messages of RFC 6455 are made of.
-/

namespace Angel.Websocket

open Angel.Lib Util Buffer

/-- Frames between the first and the last one of a message. -/
def IsMiddle (frames : List Frame) : Prop := ∀ f ∈ frames, f.fin = false ∧ f.opcode = 0

/-- The frames of one message. -/
inductive IsMessage : List Frame → Prop
  | unfragmented (f : Frame) : f.fin = true → f.opcode ≠ 0 → IsMessage [f]
  | fragmented (first : Frame) (middle : List Frame) (last : Frame) :
      first.fin = false → first.opcode ≠ 0 → IsMiddle middle → last.fin = true →
      last.opcode = 0 → IsMessage (first :: (middle ++ [last]))

/-- The frames of a message that is still to be ended. -/
inductive IsUnfinished : List Frame → Prop
  | mk (first : Frame) (middle : List Frame) :
      first.fin = false → first.opcode ≠ 0 → IsMiddle middle → IsUnfinished (first :: middle)

/-- Messages one after the other, and behind them an unfinished one or nothing. -/
def MessageFrames (frames : List Frame) : Prop :=
  ∃ (messages : List (List Frame)) (unfinished : List Frame),
    frames = messages.flatten ++ unfinished ∧ (∀ message ∈ messages, IsMessage message) ∧
      (unfinished = [] ∨ IsUnfinished unfinished)

/-- No final continuation comes where no message is in progress: first of all or
behind a frame with FIN. -/
def NoStray : (inside : Bool) → List Frame → Prop
  | _, [] => True
  | inside, f :: frames =>
      ¬ (inside = false ∧ f.fin = true ∧ f.opcode = 0) ∧ NoStray (!f.fin) frames

/-- A context decodes the frames one after the other, each from a buffer that
starts with it, and none of them with an error. In between the handlers may
change what they can reach. -/
inductive Decodes (ntoh64 : Nat → Nat) (ext64 : Nat → Bytes) : Context → List Frame → Prop
  | nil (ctx : Context) : Decodes ntoh64 ext64 ctx []
  | cons {ctx ctx' : Context} {f : Frame} {frames : List Frame} {rest : Bytes} (v : Visible) :
      ctx.decode ntoh64 (f.encode ext64 ++ rest) = .ok (.ok, ctx', rest) →
      Decodes ntoh64 ext64 { ctx' with toVisible := v } frames →
      Decodes ntoh64 ext64 ctx (f :: frames)

section

variable {f : Frame} {frames rest middle : List Frame}

/-- For a data frame the two opcodes of a message's first frame are those that
are not 0. -/
theorem Frame.isData_false_iff (hdata : f.opcode.toNat ≤ 2) : f.IsData false ↔ f.opcode ≠ 0 := by
  have hall : ∀ n : Fin 3, (UInt8.ofNat n.1 = 1 ∨ UInt8.ofNat n.1 = 2) ↔ UInt8.ofNat n.1 ≠ 0 := by
    decide
  have hop := hall ⟨f.opcode.toNat, by omega⟩
  rwa [UInt8.ofNat_toNat] at hop

theorem Frame.not_isControl (hdata : f.opcode.toNat ≤ 2) : ¬ f.IsControl := by
  intro h
  rcases h.opcode with hop | hop <;> rw [hop] at hdata <;> exact absurd hdata (by decide)

theorem legal_cons (hdata : f.opcode.toNat ≤ 2) (inside : Bool) :
    Legal inside (f :: frames) ↔ f.IsData inside ∧ Legal (!f.fin) frames := by
  constructor
  · rintro (⟨hcontrol, _⟩ | h)
    · exact absurd hcontrol (Frame.not_isControl hdata)
    · exact h
  · exact .inr

theorem legal_middle (hmiddle : IsMiddle middle) (hdata : ∀ f ∈ middle, f.opcode.toNat ≤ 2) :
    Legal true (middle ++ rest) ↔ Legal true rest := by
  induction middle with
  | nil => rfl
  | cons f middle ih =>
      obtain ⟨hfin, hopcode⟩ := hmiddle f List.mem_cons_self
      have hlater := ih (fun g hg => hmiddle g (List.mem_cons_of_mem _ hg))
        (fun g hg => hdata g (List.mem_cons_of_mem _ hg))
      rw [List.cons_append, legal_cons (hdata f List.mem_cons_self), hfin]
      exact ⟨fun h => hlater.mp h.2, fun h => ⟨hopcode, hlater.mpr h⟩⟩

theorem legal_message {message : List Frame} (h : IsMessage message)
    (hdata : ∀ f ∈ message, f.opcode.toNat ≤ 2) :
    Legal false (message ++ rest) ↔ Legal false rest := by
  cases h with
  | unfragmented f hfin hopcode =>
      have hop := hdata f List.mem_cons_self
      rw [List.singleton_append, legal_cons hop, hfin, Frame.isData_false_iff hop]
      exact and_iff_right hopcode
  | fragmented first middle last hfin hopcode hmiddle hlast hlastop =>
      have hop := hdata first List.mem_cons_self
      have hmiddleop : ∀ f ∈ middle, f.opcode.toNat ≤ 2 :=
        fun f hf => hdata f (List.mem_cons_of_mem _ (List.mem_append_left _ hf))
      have hlastle : last.opcode.toNat ≤ 2 := by
        rw [hlastop]
        decide
      rw [List.cons_append, List.append_assoc, legal_cons hop, hfin, Frame.isData_false_iff hop,
        Bool.not_false, legal_middle hmiddle hmiddleop, List.singleton_append, legal_cons hlastle,
        hlast]
      exact (and_iff_right hopcode).trans (and_iff_right hlastop)

theorem legal_unfinished (h : IsUnfinished frames) (hdata : ∀ f ∈ frames, f.opcode.toNat ≤ 2) :
    Legal false frames := by
  obtain ⟨first, middle, hfin, hopcode, hmiddle⟩ := h
  have hop := hdata first List.mem_cons_self
  have hmiddleop : ∀ f ∈ middle, f.opcode.toNat ≤ 2 :=
    fun f hf => hdata f (List.mem_cons_of_mem _ hf)
  have hlater : Legal true (middle ++ []) := (legal_middle hmiddle hmiddleop).mpr trivial
  rw [List.append_nil] at hlater
  rw [legal_cons hop, hfin, Frame.isData_false_iff hop]
  exact ⟨hopcode, hlater⟩

/-- What can follow inside a message: more of it, and behind its last frame
other messages. -/
def Continuation (frames : List Frame) : Prop :=
  ∃ middle tail, frames = middle ++ tail ∧ IsMiddle middle ∧
    (tail = [] ∨ ∃ last rest, tail = last :: rest ∧ last.fin = true ∧ last.opcode = 0 ∧
      MessageFrames rest)

theorem MessageFrames.nil : MessageFrames [] :=
  ⟨[], [], rfl, fun _ h => absurd h List.not_mem_nil, .inl rfl⟩

theorem MessageFrames.message {message : List Frame} (h : IsMessage message)
    (hrest : MessageFrames rest) : MessageFrames (message ++ rest) := by
  obtain ⟨messages, unfinished, rfl, hmessages, hunfinished⟩ := hrest
  refine ⟨message :: messages, unfinished, ?_, ?_, hunfinished⟩
  · rw [List.flatten_cons, List.append_assoc]
  · intro m hm
    rcases List.mem_cons.mp hm with rfl | hlater
    · exact h
    · exact hmessages m hlater

theorem Continuation.first (h : Continuation frames) (hfin : f.fin = false)
    (hopcode : f.opcode ≠ 0) : MessageFrames (f :: frames) := by
  obtain ⟨middle, tail, rfl, hmiddle, rfl | ⟨last, rest, rfl, hlast, hlastop, hrest⟩⟩ := h
  · rw [List.append_nil]
    exact ⟨[], f :: middle, rfl, fun _ hm => absurd hm List.not_mem_nil,
      .inr (.mk f middle hfin hopcode hmiddle)⟩
  · have hmessage : IsMessage (f :: (middle ++ [last])) :=
      .fragmented f middle last hfin hopcode hmiddle hlast hlastop
    have hall := hrest.message hmessage
    rwa [List.cons_append, List.append_assoc] at hall

theorem Continuation.later (h : Continuation frames) (hfin : f.fin = false)
    (hopcode : f.opcode = 0) : Continuation (f :: frames) := by
  obtain ⟨middle, tail, rfl, hmiddle, htail⟩ := h
  refine ⟨f :: middle, tail, rfl, ?_, htail⟩
  intro g hg
  rcases List.mem_cons.mp hg with rfl | hlater
  · exact ⟨hfin, hopcode⟩
  · exact hmiddle g hlater

private theorem language_of_legal (frames : List Frame) (hdata : ∀ f ∈ frames, f.opcode.toNat ≤ 2) :
    (Legal false frames → MessageFrames frames) ∧ (Legal true frames → Continuation frames) := by
  induction frames with
  | nil =>
      exact ⟨fun _ => .nil, fun _ => ⟨[], [], rfl, fun _ h => absurd h List.not_mem_nil, .inl rfl⟩⟩
  | cons f frames ih =>
      obtain ⟨houtside, hinside⟩ := ih fun g hg => hdata g (List.mem_cons_of_mem _ hg)
      have hop := hdata f List.mem_cons_self
      constructor
      · intro h
        obtain ⟨hnew, hlater⟩ := (legal_cons hop false).mp h
        have hopcode := (Frame.isData_false_iff hop).mp hnew
        cases hfin : f.fin with
        | true =>
            rw [hfin] at hlater
            exact (houtside hlater).message (.unfragmented f hfin hopcode)
        | false =>
            rw [hfin] at hlater
            exact (hinside hlater).first hfin hopcode
      · intro h
        obtain ⟨hopcode, hlater⟩ := (legal_cons hop true).mp h
        cases hfin : f.fin with
        | true =>
            rw [hfin] at hlater
            exact ⟨[], f :: frames, rfl, fun _ hg => absurd hg List.not_mem_nil,
              .inr ⟨f, frames, rfl, hfin, hopcode, houtside hlater⟩⟩
        | false =>
            rw [hfin] at hlater
            exact (hinside hlater).later hfin hopcode

theorem messageFrames_iff_legal (hdata : ∀ f ∈ frames, f.opcode.toNat ≤ 2) :
    MessageFrames frames ↔ Legal false frames := by
  constructor
  · rintro ⟨messages, unfinished, rfl, hmessages, hunfinished⟩
    have htail : Legal false unfinished := by
      rcases hunfinished with rfl | hunfinished
      · trivial
      · exact legal_unfinished hunfinished fun f hf => hdata f (List.mem_append_right _ hf)
    induction messages with
    | nil => exact htail
    | cons message messages ih =>
        rw [List.flatten_cons, List.append_assoc] at hdata ⊢
        apply (legal_message (hmessages message List.mem_cons_self)
          fun f hf => hdata f (List.mem_append_left _ hf)).mpr
        exact ih (fun f hf => hdata f (List.mem_append_right _ hf))
          fun m hm => hmessages m (List.mem_cons_of_mem _ hm)
  · exact (language_of_legal frames hdata).1

variable {ntoh64 : Nat → Nat} {ext64 : Nat → Bytes} {ctx ctx' : Context}

theorem two_le_encode (f : Frame) (rest : Bytes) : 2 ≤ (f.encode ext64 ++ rest).length := by
  have hpos : 2 ≤ (f.encode ext64).length := encode_pos f
  rw [List.length_append]
  omega

theorem Frame.controlFits_of_data (hdata : f.opcode.toNat ≤ 2) : f.ControlFits := by
  intro hop
  omega

theorem Frame.code_of_data (hdata : f.opcode.toNat ≤ 2) : f.code = .ok := by
  rw [Frame.code]
  generalize f.opcode.toNat = op at hdata
  interval_cases op <;> rfl

/-- A data frame that passes the check is waited for, or it is taken and FIN
decides whether a message is in progress. -/
theorem decode_data_inv (hdata : f.opcode.toNat ≤ 2) {tail left : Bytes} {code : Code}
    (hcheck : checkFragmentation ctx.rcvfragment f.fin f.opcode.toNat = true)
    (heq : ctx.decode ntoh64 (f.encode ext64 ++ tail) = .ok (code, ctx', left)) :
    code = .notEnough ∨ code = .ok ∧ ctx'.rcvfragment = !f.fin := by
  have h : (f.encode ext64 ++ tail) ++ [] = f.encode ext64 ++ tail := List.append_nil _
  rw [f.decode_eq h (two_le_encode f tail) (Frame.controlFits_of_data hdata) hcheck] at heq
  cases hlen : decodePayloadLen ntoh64 f.lengthCode (f.encode ext64 ++ tail)
      f.maskingKey.isSome with
  | none =>
      simp only [hlen] at heq
      exact .inl (Prod.mk.inj (Except.ok.inj heq)).1.symm
  | some r =>
      obtain ⟨payloadLen, key, data⟩ := r
      simp only [hlen] at heq
      cases happend : appendPayload (Frame.collected ctx) (f.encode ext64 ++ tail)
          f.maskingKey.isSome payloadLen key data with
      | error fault =>
          rw [happend] at heq
          cases heq
      | ok decoded =>
          rw [happend] at heq
          obtain ⟨hcode, hctx, _⟩ := Prod.mk.inj (Except.ok.inj heq) |>.imp_right Prod.mk.inj
          rw [← hcode, ← hctx, Frame.code_of_data hdata]
          exact .inr ⟨rfl, rfl⟩

/-- The error of a data frame depends on the state of the context, FIN and the
opcode alone. -/
theorem decode_data_error_iff (hdata : f.opcode.toNat ≤ 2) (tail : Bytes) :
    (∃ ctx' left, ctx.decode ntoh64 (f.encode ext64 ++ tail) = .ok (.error, ctx', left)) ↔
      checkFragmentation ctx.rcvfragment f.fin f.opcode.toNat = false := by
  constructor
  · rintro ⟨ctx', left, heq⟩
    by_contra hcheck
    rw [Bool.not_eq_false] at hcheck
    rcases decode_data_inv hdata hcheck heq with hcode | ⟨hcode, _⟩
    · cases hcode
    · cases hcode
  · intro hcheck
    exact ⟨_, _, f.decode_error (List.append_nil _) (two_le_encode f tail) hcheck⟩

/-- Of the frames that come where they should not, only the final continuation
passes the check. -/
theorem isData_iff_of_check (hdata : f.opcode.toNat ≤ 2) {inside : Bool}
    (hcheck : checkFragmentation inside f.fin f.opcode.toNat = true) :
    f.IsData inside ↔ ¬ (inside = false ∧ f.fin = true ∧ f.opcode = 0) := by
  have hzero : f.opcode.toNat = 0 → f.opcode = 0 := fun h => UInt8.toNat_inj.mp h
  cases inside with
  | true =>
      have hopcode : f.opcode.toNat = 0 := by
        cases hfin : f.fin <;> rw [hfin] at hcheck <;> exact beq_iff_eq.mp hcheck
      exact iff_of_true (hzero hopcode) (fun h => Bool.noConfusion h.1)
  | false =>
      rw [Frame.isData_false_iff hdata]
      cases hfin : f.fin with
      | true => simp
      | false =>
          have hopcode : f.opcode.toNat ≠ 0 := by
            rw [hfin] at hcheck
            exact bne_iff_ne.mp hcheck
          refine iff_of_true ?_ (fun h => Bool.noConfusion h.2.1)
          intro h
          exact hopcode (congrArg UInt8.toNat h)

/-- What has been decoded is legal when no stray continuation was let through. -/
theorem Decodes.legal_iff (h : Decodes ntoh64 ext64 ctx frames)
    (hdata : ∀ f ∈ frames, f.opcode.toNat ≤ 2) :
    Legal ctx.rcvfragment frames ↔ NoStray ctx.rcvfragment frames := by
  induction h with
  | nil ctx => rfl
  | @cons ctx ctx' f frames rest v hdecode hlater ih =>
      have hop := hdata f List.mem_cons_self
      have hcheck : checkFragmentation ctx.rcvfragment f.fin f.opcode.toNat = true := by
        by_contra hnot
        rw [Bool.not_eq_true] at hnot
        rw [f.decode_error (List.append_nil _) (two_le_encode f rest) hnot] at hdecode
        cases (Prod.mk.inj (Except.ok.inj hdecode)).1
      have hfragment : ctx'.rcvfragment = !f.fin := by
        rcases decode_data_inv hop hcheck hdecode with hcode | ⟨_, hfragment⟩
        · cases hcode
        · exact hfragment
      have hrest := ih fun g hg => hdata g (List.mem_cons_of_mem _ hg)
      rw [show ({ ctx' with toVisible := v } : Context).rcvfragment = !f.fin from hfragment] at hrest
      rw [legal_cons hop, NoStray, hrest, isData_iff_of_check hop hcheck]

private theorem decode_data_refused_iff (hdata : f.opcode.toNat ≤ 2) (tail : Bytes) :
    (∃ ctx' left, ctx.decode ntoh64 (f.encode ext64 ++ tail) = .ok (.error, ctx', left)) ↔
      ctx.rcvfragment = false ∧ f.opcode = 0 ∧ f.fin = false ∨
        ctx.rcvfragment = true ∧ f.opcode ≠ 0 := by
  have hzero : f.opcode = 0 ↔ f.opcode.toNat = 0 := UInt8.toNat_inj.symm
  rw [decode_data_error_iff hdata, checkFragmentation, ne_eq, hzero]
  generalize f.opcode.toNat = opcode
  cases ctx.rcvfragment <;> cases f.fin <;> simp

end

/-- The data frames that a context with no message in progress decodes without an
error are those of messages exactly when no final continuation is a stray one.
Every other frame that is out of place gives `Error`: a continuation without FIN
outside a message, and inside one a frame that is no continuation. -/
theorem decoded_frames_iff (ntoh64 : Nat → Nat) (ext64 : Nat → Bytes) :
    (∀ (ctx : Context) (frames : List Frame), ctx.rcvfragment = false →
      (∀ f ∈ frames, f.opcode.toNat ≤ 2) → Decodes ntoh64 ext64 ctx frames →
      (MessageFrames frames ↔ NoStray false frames)) ∧
    ∀ (ctx : Context) (f : Frame) (tail : Bytes), f.opcode.toNat ≤ 2 →
      ((∃ ctx' left, ctx.decode ntoh64 (f.encode ext64 ++ tail) = .ok (.error, ctx', left)) ↔
        ctx.rcvfragment = false ∧ f.opcode = 0 ∧ f.fin = false ∨
          ctx.rcvfragment = true ∧ f.opcode ≠ 0) := by
  refine ⟨?_, fun ctx f tail hdata => decode_data_refused_iff hdata tail⟩
  intro ctx frames hidle hdata h
  rw [messageFrames_iff_legal hdata, ← hidle]
  exact h.legal_iff hdata

private theorem decodes_fragments :
    Decodes (Sockops.ntoh64 true) (bigEndian 8) established.ctx [firstFragment, finalFragment] := by
  have hfirst : established.ctx.decode (Sockops.ntoh64 true)
      (firstFragment.encode (bigEndian 8) ++ []) =
        .ok (.ok, firstFragment.after established.ctx, []) := by decide
  have hfinal : (firstFragment.after established.ctx).decode (Sockops.ntoh64 true)
      (finalFragment.encode (bigEndian 8) ++ []) =
        .ok (.ok, finalFragment.after (firstFragment.after established.ctx), []) := by decide
  exact .cons (firstFragment.after established.ctx).toVisible hfirst
    (.cons established.ctx.toVisible hfinal (.nil _))

theorem decoded_fragments : MessageFrames [firstFragment, finalFragment] := by
  have hdata : ∀ f ∈ [firstFragment, finalFragment], f.opcode.toNat ≤ 2 := by decide
  have hstray : NoStray false [firstFragment, finalFragment] := ⟨by decide, by decide, trivial⟩
  exact ((decoded_frames_iff (Sockops.ntoh64 true) (bigEndian 8)).1 established.ctx _ rfl hdata
    decodes_fragments).mpr hstray

/-- A final continuation alone is taken for a message. -/
theorem stray_final_decoded :
    Decodes (Sockops.ntoh64 true) (bigEndian 8) established.ctx [finalFragment] ∧
      ¬ MessageFrames [finalFragment] := by
  have hfinal : established.ctx.decode (Sockops.ntoh64 true)
      (finalFragment.encode (bigEndian 8) ++ []) =
        .ok (.ok, finalFragment.after established.ctx, []) := by decide
  refine ⟨.cons established.ctx.toVisible hfinal (.nil _), ?_⟩
  intro h
  rcases (messageFrames_iff_legal (by decide)).mp h with ⟨hcontrol, _⟩ | ⟨hdata, _⟩
  · exact absurd hcontrol (by decide)
  · rcases hdata with hop | hop <;> exact absurd hop (by decide)

end Angel.Websocket
