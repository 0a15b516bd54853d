import Angel.Websocket.Messages

/-!
The opening handshake over all runs. Presence of the required headers is tracked
by one counter; the invariant relates it to the lines that have been read, and a
connection that is established has read six lines with required headers, which
are the six headers exactly when none of them was repeated.
-/

namespace Angel.Websocket

open Angel.Lib Util Buffer

/-- The lines of a stream, each without its end. -/
def linesUpTo : Nat → Bytes → List Bytes
  | 0, _ => []
  | fuel + 1, stream =>
      match findCrlf stream with
      | none => []
      | some crlf => stream.take crlf :: linesUpTo fuel (stream.drop (crlf + 2))

def lines (stream : Bytes) : List Bytes := linesUpTo stream.length stream

/-- The lines behind the request line and before the first empty one. -/
def headerBlock (stream : Bytes) : List Bytes := (lines stream).tail.takeWhile fun line => line ≠ []

namespace Required

/-- The line has the name of the header. -/
def Names (r : Required) (line : Bytes) : Prop := startsWithCase line r.field = true

instance (r : Required) (line : Bytes) : Decidable (r.Names line) :=
  inferInstanceAs (Decidable (_ = true))

/-- The value that is asked for. -/
def Asks : Required → Bytes → Prop
  | connection, value => equalCase value (ascii "Upgrade") = true
  | upgrade, value => equalCase value (ascii "websocket") = true
  | secWebSocketVersion, value => svtoi value = some 13
  | _, _ => True

/-- The line has the header with such a value. -/
def Meets (r : Required) (line : Bytes) : Prop :=
  r.Names line ∧ r.Asks (trim (line.drop r.field.length))

/-- The number of lines with the header. -/
def occurrences (r : Required) (headers : List Bytes) : Nat :=
  headers.countP fun line => startsWithCase line r.field

end Required

/-- Each of the six headers is there. -/
def AllPresent (headers : List Bytes) : Prop := ∀ r : Required, ∃ line ∈ headers, r.Meets line

/-- None of the six headers is repeated. -/
def NoneRepeated (headers : List Bytes) : Prop := ∀ r : Required, r.occurrences headers ≤ 1

theorem Required.mem_all (r : Required) : r ∈ Required.all := by
  cases r <;> decide

theorem linesUpTo_line {line : Bytes} (h : ¬ CRLF <:+: line) (rest : Bytes) (fuel : Nat) :
    linesUpTo (fuel + 1) (line ++ CRLF ++ rest) = line :: linesUpTo fuel rest := by
  rw [linesUpTo, findCrlf_line h]
  simp only [take_line, drop_line]

private theorem linesUpTo_fuel {stream : Bytes} {fuel : Nat} (h : stream.length ≤ fuel) :
    linesUpTo fuel stream = lines stream := by
  rw [lines]
  induction hlen : stream.length using Nat.strong_induction_on generalizing stream fuel with
  | _ n ih =>
      subst hlen
      cases hcrlf : findCrlf stream with
      | none =>
          have hnone : ∀ fuel, linesUpTo fuel stream = [] := by
            intro fuel
            cases fuel with
            | zero => rfl
            | succ fuel => rw [linesUpTo, hcrlf]
          rw [hnone, hnone]
      | some crlf =>
          obtain ⟨line, tail, rfl, _, hfree⟩ := findCrlf_some hcrlf
          have htail : (line ++ CRLF ++ tail).length = line.length + tail.length + 1 + 1 := by
            simp only [List.length_append, CRLF, List.length_cons, List.length_nil]
            omega
          obtain ⟨fuel, rfl⟩ : ∃ m, fuel = m + 1 := ⟨fuel - 1, by omega⟩
          have hleft := ih tail.length (by omega) (show tail.length ≤ fuel by omega) rfl
          have hright := ih tail.length (by omega)
            (show tail.length ≤ line.length + tail.length + 1 by omega) rfl
          rw [htail, linesUpTo_line hfree, linesUpTo_line hfree, hleft, hright]

theorem lines_line {line : Bytes} (h : ¬ CRLF <:+: line) (rest : Bytes) :
    lines (line ++ CRLF ++ rest) = line :: lines rest := by
  have hlen : (line ++ CRLF ++ rest).length = line.length + rest.length + 1 + 1 := by
    simp only [List.length_append, CRLF, List.length_cons, List.length_nil]
    omega
  rw [lines, hlen, linesUpTo_line h, linesUpTo_fuel (by omega)]

theorem lines_read {read : List Bytes} (h : ∀ line ∈ read, ¬ CRLF <:+: line) (rest : Bytes) :
    lines (read.flatMap (· ++ CRLF) ++ rest) = read ++ lines rest := by
  induction read with
  | nil => rfl
  | cons line read ih =>
      have hfirst := h line List.mem_cons_self
      have hread := ih fun l hl => h l (List.mem_cons_of_mem line hl)
      rw [List.flatMap_cons, List.append_assoc, lines_line hfirst, hread, List.cons_append]

private theorem strncasecmpEq_getD {s name : Bytes} (h : strncasecmpEq s name = true)
    (hname : ∀ b ∈ name, tolower b ≠ 0) (i : Nat) (hi : i < name.length) (hs : i < s.length) :
    tolower (s.getD i 0) = tolower (name.getD i 0) := by
  induction name generalizing s i with
  | nil => simp at hi
  | cons b name ih =>
      cases s with
      | nil => simp at hs
      | cons a s =>
          simp only [strncasecmpEq, Bool.and_eq_true, Bool.or_eq_true, decide_eq_true_eq] at h
          obtain ⟨hfirst, hnext⟩ := h
          cases i with
          | zero => exact hfirst
          | succ i =>
              rcases hnext with rfl | hnext
              · exact absurd hfirst.symm (hname b List.mem_cons_self)
              · exact ih hnext (fun c hc => hname c (List.mem_cons_of_mem b hc)) i
                  (by simpa using hi) (by simpa using hs)

theorem startsWithCase_getD {s name : Bytes} (h : startsWithCase s name = true)
    (hname : ∀ b ∈ name, tolower b ≠ 0) (i : Nat) (hi : i < name.length) :
    tolower (s.getD i 0) = tolower (name.getD i 0) := by
  simp only [startsWithCase, Bool.and_eq_true, decide_eq_true_eq] at h
  have htake := strncasecmpEq_getD h.2 hname i hi (by rw [List.length_take]; omega)
  rwa [List.getD_eq_getElem?_getD, List.getElem?_take_of_lt hi, ← List.getD_eq_getElem?_getD] at htake

theorem field_bytes (r : Required) : ∀ b ∈ r.field, tolower b ≠ 0 ∧ tolower b ≠ tolower CR := by
  cases r <;> decide

theorem names_unique {r r' : Required} {line : Bytes} (h : r.Names line) (h' : r'.Names line) :
    r = r' := by
  have hat : ∀ i, i < r.field.length → i < r'.field.length →
      tolower (r.field.getD i 0) = tolower (r'.field.getD i 0) := by
    intro i hi hi'
    rw [← startsWithCase_getD h (fun b hb => (field_bytes r b hb).1) i hi,
      startsWithCase_getD h' (fun b hb => (field_bytes r' b hb).1) i hi']
  have hzero := hat 0
  have hmiddle := hat 14
  cases r <;> cases r' <;> first | rfl | exact absurd (hzero (by decide) (by decide)) (by decide) |
    exact absurd (hmiddle (by decide) (by decide)) (by decide)

/-- The name is compared with the buffer; it does not reach over the end of the
line. -/
theorem names_buffer (r : Required) (line tail : Bytes) :
    startsWithCase (line ++ CRLF ++ tail) r.field = startsWithCase line r.field := by
  by_cases hlen : r.field.length ≤ line.length
  · have htake : (line ++ CRLF ++ tail).take r.field.length = line.take r.field.length := by
      rw [List.append_assoc, List.take_append_of_le_length hlen]
    have hlonger : r.field.length ≤ (line ++ CRLF ++ tail).length := by
      rw [List.append_assoc, List.length_append]
      omega
    rw [startsWithCase, startsWithCase, htake, decide_eq_true hlen, decide_eq_true hlonger]
  · have hshort : startsWithCase line r.field = false := by
      rw [startsWithCase, decide_eq_false hlen, Bool.false_and]
    rw [hshort, ← Bool.not_eq_true]
    intro hstarts
    have hcr := startsWithCase_getD hstarts (fun b hb => (field_bytes r b hb).1) line.length (by omega)
    have hget : (line ++ CRLF ++ tail).getD line.length 0 = CR := by
      simp [CRLF]
    have hmem : r.field.getD line.length 0 ∈ r.field := by
      rw [List.getD_eq_getElem _ _ (by omega)]
      exact List.getElem_mem _
    rw [hget] at hcr
    exact (field_bytes r _ hmem).2 hcr.symm

/-- The number of lines with one of the headers. -/
def required (headers : List Bytes) : Nat :=
  (Required.all.map fun r => r.occurrences headers).sum

theorem required_append (headers headers' : List Bytes) :
    required (headers ++ headers') = required headers + required headers' := by
  simp only [required, Required.all, Required.occurrences, List.countP_append, List.map_cons,
    List.map_nil, List.sum_cons, List.sum_nil]
  omega

theorem required_names {r : Required} {line : Bytes} (h : r.Names line) : required [line] = 1 := by
  have hone : ∀ r', r'.occurrences [line] = if r = r' then 1 else 0 := by
    intro r'
    rw [Required.occurrences, List.countP_singleton]
    by_cases heq : r = r'
    · subst heq
      rw [if_pos rfl]
      exact if_pos h
    · rw [if_neg heq, if_neg]
      intro h'
      exact heq (names_unique h h')
  simp only [required, Required.all, List.map_cons, List.map_nil, hone]
  cases r <;> rfl

theorem required_other {line : Bytes} (h : ∀ r : Required, ¬ r.Names line) : required [line] = 0 := by
  have hzero : ∀ r : Required, r.occurrences [line] = 0 := by
    intro r
    rw [Required.occurrences, List.countP_singleton]
    exact if_neg (h r)
  simp only [required, Required.all, List.map_cons, List.map_nil, hzero]
  rfl

/-- What reading a line can come to. -/
inductive LineRead (ctx : Context) (line : Bytes) : State → Context → Prop where
  | failed {ctx' : Context} : LineRead ctx line .handshakeError ctx'
  | request (hfirst : ctx.readRequestLine = true) :
      LineRead ctx line .handshake { ctx with readRequestLine := false }
  | header {ctx' : Context} (hfirst : ctx.readRequestLine = false) (hne : line ≠ [])
      (hnext : ctx'.readRequestLine = false)
      (hcount : ctx'.requiredRequestHeaders = ctx.requiredRequestHeaders - required [line])
      (hvalid : ∀ r : Required, r.Names line → r.Meets line) : LineRead ctx line .handshake ctx'
  | last (hfirst : ctx.readRequestLine = false) (hline : line = [])
      (hzero : ctx.requiredRequestHeaders = 0) : LineRead ctx line .handshakeOK ctx

section

variable {hton64 ntoh64 : Nat → Nat} {handlers : Handlers}

private theorem enter_some {r : Required} {ctx ctx' : Context} {value : Bytes}
    (h : r.enter hton64 ctx value = .ok (some ctx')) :
    ctx'.readRequestLine = ctx.readRequestLine ∧
      ctx'.requiredRequestHeaders = ctx.requiredRequestHeaders ∧ r.Asks value := by
  cases r with
  | host =>
      cases h
      exact ⟨rfl, rfl, trivial⟩
  | connection =>
      simp only [Required.enter, Except.ok.injEq, Option.ite_none_right_eq_some] at h
      obtain ⟨hvalue, heq⟩ := h
      cases heq
      exact ⟨rfl, rfl, hvalue⟩
  | upgrade =>
      simp only [Required.enter, Except.ok.injEq, Option.ite_none_right_eq_some] at h
      obtain ⟨hvalue, heq⟩ := h
      cases heq
      exact ⟨rfl, rfl, hvalue⟩
  | secWebSocketKey =>
      simp only [Required.enter] at h
      cases haccept : secWebSocketAccept hton64 value with
      | error fault =>
          rw [haccept] at h
          cases h
      | ok accept =>
          rw [haccept] at h
          cases h
          exact ⟨rfl, rfl, trivial⟩
  | secWebSocketVersion =>
      simp only [Required.enter, Except.ok.injEq, Option.ite_none_right_eq_some] at h
      obtain ⟨hvalue, heq⟩ := h
      cases heq
      refine ⟨rfl, rfl, ?_⟩
      cases hversion : svtoi value with
      | none =>
          rw [hversion] at hvalue
          exact absurd hvalue (by decide)
      | some version =>
          rw [hversion, Option.getD_some] at hvalue
          rw [Required.Asks, hversion, hvalue]
  | origin =>
      cases h
      exact ⟨rfl, rfl, trivial⟩

private theorem requestLine_read {ctx ctx' : Context} {line tail buf' : Bytes} {state : State}
    (hfirst : ctx.readRequestLine = true)
    (h : requestLine ctx (line ++ CRLF ++ tail) line.length = .ok (state, ctx', buf')) :
    LineRead ctx line state ctx' ∧ (state ≠ .handshakeError → buf' = tail) := by
  rw [requestLine] at h
  simp only [drop_line] at h
  split at h
  · cases h
    exact ⟨.failed, fun hne => absurd rfl hne⟩
  split at h
  · cases h
  split at h
  · cases h
    exact ⟨.failed, fun hne => absurd rfl hne⟩
  · cases h
    exact ⟨.request hfirst, fun _ => rfl⟩

private theorem headerLine_read {ctx ctx' : Context} {line tail buf' : Bytes} {state : State}
    (hfirst : ctx.readRequestLine = false) (hne : line ≠ [])
    (h : headerLine hton64 ctx (line ++ CRLF ++ tail) line.length = .ok (state, ctx', buf')) :
    LineRead ctx line state ctx' ∧ (state ≠ .handshakeError → buf' = tail) := by
  rw [headerLine] at h
  simp only [names_buffer, drop_line, take_line] at h
  cases hfind : Required.all.find? fun r => startsWithCase line r.field with
  | none =>
      have hnone : ∀ r : Required, ¬ r.Names line := by
        intro r
        rw [Required.Names]
        exact List.find?_eq_none.mp hfind r r.mem_all
      rw [hfind] at h
      cases h
      refine ⟨.header hfirst hne hfirst ?_ (fun r hr => absurd hr (hnone r)), fun _ => rfl⟩
      rw [required_other hnone]
      exact (Int.sub_zero _).symm
  | some r =>
      have hnames : r.Names line :=
        List.find?_some (p := fun r : Required => startsWithCase line r.field) hfind
      rw [hfind] at h
      simp only at h
      cases henter : r.enter hton64
          { ctx with requiredRequestHeaders := ctx.requiredRequestHeaders - 1 }
          (trim (line.drop r.field.length)) with
      | error fault =>
          rw [henter] at h
          cases h
      | ok entered =>
          rw [henter] at h
          cases entered with
          | none =>
              cases h
              exact ⟨.failed, fun hne => absurd rfl hne⟩
          | some ctx'' =>
              obtain ⟨hline, hcount, hasks⟩ := enter_some henter
              cases h
              refine ⟨.header hfirst hne (hline.trans hfirst) ?_ ?_, fun _ => rfl⟩
              · rw [hcount, required_names hnames]
                rfl
              · intro r' hr'
                rw [← names_unique hnames hr']
                exact ⟨hnames, hasks⟩

theorem handshakeLine_read {ctx ctx' : Context} {line tail buf' : Bytes} {state : State}
    (hfree : ¬ CRLF <:+: line)
    (h : handshakeLine hton64 ctx (line ++ CRLF ++ tail) line.length = .ok (state, ctx', buf')) :
    LineRead ctx line state ctx' ∧ (state ≠ .handshakeError → buf' = tail) := by
  rw [handshakeLine] at h
  cases hfirst : ctx.readRequestLine with
  | true =>
      rw [hfirst, if_pos rfl] at h
      exact requestLine_read hfirst h
  | false =>
      rw [hfirst, if_neg (by decide)] at h
      by_cases hempty : line = []
      · subst hempty
        have hstart : startsWith ([] ++ CRLF ++ tail) CRLF = true :=
          startsWith_append CRLF tail
        rw [if_pos hstart] at h
        by_cases hzero : ctx.requiredRequestHeaders = 0
        · rw [if_pos hzero] at h
          cases h
          exact ⟨.last hfirst rfl hzero, fun _ => rfl⟩
        · rw [if_neg hzero] at h
          cases h
          exact ⟨.failed, fun hne => absurd rfl hne⟩
      · have hstart : ¬ startsWith (line ++ CRLF ++ tail) CRLF = true := by
          intro hpre
          exact hfree (crlf_infix_of_start hempty tail (List.isPrefixOf_iff_prefix.mp hpre))
        rw [if_neg hstart] at h
        exact headerLine_read hfirst hempty h

/-- The states that a connection can be in, between two passes of the message
handler, when `stream` has arrived. -/
inductive Reached (hton64 ntoh64 : Nat → Nat) (handlers : Handlers) : Bytes → Connection → Prop where
  | start (isBinaryType : Bool) :
      Reached hton64 ntoh64 handlers [] { ctx := Context.create isBinaryType, buf := [], events := [] }
  | segment {stream : Bytes} {c : Connection} (h : Reached hton64 ntoh64 handlers stream c)
      (segment : Bytes) :
      Reached hton64 ntoh64 handlers (stream ++ segment) { c with buf := c.buf ++ segment }
  | again {stream : Bytes} {c c' : Connection} (h : Reached hton64 ntoh64 handlers stream c)
      (hpass : messagePass hton64 ntoh64 handlers c = .again c') :
      Reached hton64 ntoh64 handlers stream c'
  | done {stream : Bytes} {c c' : Connection} (h : Reached hton64 ntoh64 handlers stream c)
      (hpass : messagePass hton64 ntoh64 handlers c = .done (.ok c')) :
      Reached hton64 ntoh64 handlers stream c'

private theorem reached_receive {stream segment : Bytes} {c c' : Connection}
    (h : Reached hton64 ntoh64 handlers stream c)
    (hreceive : receive hton64 ntoh64 handlers (.ok c) segment = .ok c') :
    Reached hton64 ntoh64 handlers (stream ++ segment) c' := by
  have hhandler : messageHandler hton64 ntoh64 handlers { c with buf := c.buf ++ segment } = .ok c' :=
    hreceive
  rw [messageHandler] at hhandler
  cases hloop : loop (messagePass hton64 ntoh64 handlers) ((c.buf ++ segment).length + 1)
      { c with buf := c.buf ++ segment } with
  | none =>
      rw [hloop] at hhandler
      cases hhandler
  | some r =>
      rw [hloop] at hhandler
      have hdone : ∀ c r, Reached hton64 ntoh64 handlers (stream ++ segment) c →
          messagePass hton64 ntoh64 handlers c = .done r →
          ∀ c', r = .ok c' → Reached hton64 ntoh64 handlers (stream ++ segment) c' := by
        rintro c r hc hpass c' rfl
        exact .done hc hpass
      exact loop_sound (fun _ _ hc hpass => .again hc hpass) hdone (h.segment segment) hloop c'
        hhandler

theorem reached_run {stream : Bytes} {c c' : Connection}
    (h : Reached hton64 ntoh64 handlers stream c) {segments : List Bytes}
    (hrun : run (receive hton64 ntoh64 handlers) (.ok c) segments = .ok c') :
    Reached hton64 ntoh64 handlers (stream ++ segments.flatten) c' := by
  induction segments generalizing stream c with
  | nil =>
      cases hrun
      rwa [List.flatten_nil, List.append_nil]
  | cons segment segments ih =>
      rw [run_cons] at hrun
      cases hreceive : receive hton64 ntoh64 handlers (.ok c) segment with
      | error fault =>
          rw [hreceive] at hrun
          have hstuck : ∀ segments : List Bytes,
              run (receive hton64 ntoh64 handlers) (.error fault) segments = .error fault := by
            intro segments
            induction segments with
            | nil => rfl
            | cons segment segments ih => exact ih
          rw [hstuck] at hrun
          cases hrun
      | ok next =>
          rw [hreceive] at hrun
          rw [List.flatten_cons, ← List.append_assoc]
          exact ih (reached_receive h hreceive) hrun

/-- The lines that have been read of the stream. -/
structure Read (stream requestLine : Bytes) (headers : List Bytes) (left : Bytes) : Prop where
  stream_eq : stream = (requestLine :: headers).flatMap (· ++ CRLF) ++ left
  oneLine : ∀ line ∈ requestLine :: headers, ¬ CRLF <:+: line
  nonempty : ∀ line ∈ headers, line ≠ []
  valid : ∀ line ∈ headers, ∀ r : Required, r.Names line → r.Meets line

/-- During the handshake the counter is six less the lines with required
headers. -/
def Handshaking (stream : Bytes) (ctx : Context) (buf : Bytes) : Prop :=
  (ctx.readRequestLine = true ∧ ctx.requiredRequestHeaders = 6 ∧ stream = buf) ∨
    (ctx.readRequestLine = false ∧ ∃ requestLine headers, Read stream requestLine headers buf ∧
      ctx.requiredRequestHeaders = 6 - (required headers : Int))

/-- The handshake was accepted with six such lines. -/
def Accepted (stream : Bytes) : Prop :=
  ∃ requestLine headers rest, Read stream requestLine headers (CRLF ++ rest) ∧ required headers = 6

theorem Read.segment {stream requestLine left : Bytes} {headers : List Bytes}
    (h : Read stream requestLine headers left) (segment : Bytes) :
    Read (stream ++ segment) requestLine headers (left ++ segment) := by
  refine ⟨?_, h.oneLine, h.nonempty, h.valid⟩
  rw [h.stream_eq, List.append_assoc]

theorem Read.line {stream requestLine line tail : Bytes} {headers : List Bytes}
    (h : Read stream requestLine headers (line ++ CRLF ++ tail)) (hfree : ¬ CRLF <:+: line)
    (hne : line ≠ []) (hvalid : ∀ r : Required, r.Names line → r.Meets line) :
    Read stream requestLine (headers ++ [line]) tail := by
  refine ⟨?_, ?_, ?_, ?_⟩
  · rw [h.stream_eq]
    simp
  · intro l hl
    rw [← List.cons_append, List.mem_append, List.mem_singleton] at hl
    rcases hl with hl | rfl
    · exact h.oneLine l hl
    · exact hfree
  · intro l hl
    rw [List.mem_append, List.mem_singleton] at hl
    rcases hl with hl | rfl
    · exact h.nonempty l hl
    · exact hne
  · intro l hl
    rw [List.mem_append, List.mem_singleton] at hl
    rcases hl with hl | rfl
    · exact h.valid l hl
    · exact hvalid

theorem Handshaking.line {stream line tail : Bytes} {ctx ctx' : Context} {state : State}
    (h : Handshaking stream ctx (line ++ CRLF ++ tail)) (hfree : ¬ CRLF <:+: line)
    (hread : LineRead ctx line state ctx') :
    (state = .handshake → Handshaking stream ctx' tail) ∧
      (state = .handshakeOK → Accepted stream) ∧ state ≠ .establish := by
  cases hread with
  | failed => exact ⟨nofun, nofun, nofun⟩
  | request hfirst =>
      refine ⟨fun _ => ?_, nofun, nofun⟩
      rcases h with ⟨_, hcount, rfl⟩ | ⟨hnext, _⟩
      · refine .inr ⟨rfl, line, [], ⟨?_, ?_, nofun, nofun⟩, ?_⟩
        · simp
        · intro l hl
          rw [List.mem_singleton] at hl
          exact hl ▸ hfree
        · exact hcount
      · rw [hfirst] at hnext
        cases hnext
  | header hfirst hne hnext hcount hvalid =>
      refine ⟨fun _ => ?_, nofun, nofun⟩
      rcases h with ⟨htrue, _⟩ | ⟨_, requestLine, headers, hread, hcounter⟩
      · rw [hfirst] at htrue
        cases htrue
      · refine .inr ⟨hnext, requestLine, headers ++ [line], hread.line hfree hne hvalid, ?_⟩
        rw [hcount, hcounter, required_append]
        omega
  | last hfirst hline hzero =>
      refine ⟨nofun, fun _ => ?_, nofun⟩
      rcases h with ⟨htrue, _⟩ | ⟨_, requestLine, headers, hread, hcounter⟩
      · rw [hfirst] at htrue
        cases htrue
      · subst hline
        rw [List.nil_append] at hread
        exact ⟨requestLine, headers, tail, hread, by omega⟩

/-- What the loop over the lines leaves behind. -/
def HandshakeLeft (stream : Bytes) : Except Fault (State × Connection) → Prop
  | .error _ => True
  | .ok (.handshake, c) => c.ctx.state = .handshake ∧ Handshaking stream c.ctx c.buf
  | .ok (.handshakeOK, c) => c.ctx.state = .establish ∧ Accepted stream
  | .ok (.handshakeError, c) => c.ctx.state = .handshakeError
  | .ok (.establish, _) => False

private theorem handshakePass_left {stream : Bytes} {c : Connection}
    (hc : c.ctx.state = .handshake ∧ Handshaking stream c.ctx c.buf) :
    (∃ c', handshakePass hton64 c = .again c' ∧
      (c'.ctx.state = .handshake ∧ Handshaking stream c'.ctx c'.buf)) ∨
    ∃ r, handshakePass hton64 c = .done r ∧ HandshakeLeft stream r := by
  rw [handshakePass]
  split
  · exact .inr ⟨_, rfl, hc⟩
  cases hcrlf : findCrlf c.buf with
  | none => exact .inr ⟨_, rfl, hc⟩
  | some crlf =>
      obtain ⟨line, tail, hbuf, rfl, hfree⟩ := findCrlf_some hcrlf
      simp only [hbuf]
      cases hline : handshakeLine hton64 c.ctx (line ++ CRLF ++ tail) line.length with
      | error fault => exact .inr ⟨_, rfl, trivial⟩
      | ok read =>
          obtain ⟨state, ctx, buf⟩ := read
          obtain ⟨hread, htail⟩ := handshakeLine_read hfree hline
          obtain ⟨hnext, haccepted, hnever⟩ := (hbuf ▸ hc.2).line hfree hread
          cases state with
          | handshake =>
              refine .inl ⟨_, rfl, rfl, ?_⟩
              rw [htail (by decide)]
              exact hnext rfl
          | handshakeOK => exact .inr ⟨_, rfl, rfl, haccepted rfl⟩
          | handshakeError => exact .inr ⟨_, rfl, rfl⟩
          | establish => exact absurd rfl hnever

theorem handshake_left {stream : Bytes} {c : Connection}
    (hc : c.ctx.state = .handshake ∧ Handshaking stream c.ctx c.buf) :
    HandshakeLeft stream (handshake hton64 c) := by
  rw [handshake]
  cases hloop : loop (handshakePass hton64) (c.buf.length + 1) c with
  | none => trivial
  | some r => exact loop_sound_of_pass (fun _ => handshakePass_left) hc hloop

/-- What is known of the lines in each state of the connection. -/
def LinesKnown (stream : Bytes) (c : Connection) : Prop :=
  match c.ctx.state with
  | .handshake => Handshaking stream c.ctx c.buf
  | .establish => Accepted stream
  | _ => True

theorem LinesKnown.of_handshake {stream : Bytes} {c : Connection} (hstate : c.ctx.state = .handshake)
    (h : Handshaking stream c.ctx c.buf) : LinesKnown stream c := by
  rwa [LinesKnown, hstate]

theorem LinesKnown.of_establish {stream : Bytes} {c : Connection} (hstate : c.ctx.state = .establish)
    (h : Accepted stream) : LinesKnown stream c := by
  rwa [LinesKnown, hstate]

theorem LinesKnown.segment {stream : Bytes} {c : Connection} (h : LinesKnown stream c)
    (segment : Bytes) : LinesKnown (stream ++ segment) { c with buf := c.buf ++ segment } := by
  rw [LinesKnown] at h ⊢
  cases hstate : c.ctx.state with
  | handshake =>
      rw [hstate] at h
      rcases h with ⟨hfirst, hcount, rfl⟩ | ⟨hfirst, requestLine, headers, hread, hcount⟩
      · exact .inl ⟨hfirst, hcount, rfl⟩
      · exact .inr ⟨hfirst, requestLine, headers, hread.segment segment, hcount⟩
  | establish =>
      rw [hstate] at h
      obtain ⟨requestLine, headers, rest, hread, hcount⟩ := h
      refine ⟨requestLine, headers, rest ++ segment, ?_, hcount⟩
      rw [← List.append_assoc]
      exact hread.segment segment
  | handshakeOK => trivial
  | handshakeError => trivial

/-- The same where the handler has left. -/
def LinesKnownLeft (stream : Bytes) : Except Fault Connection → Prop
  | .error _ => True
  | .ok c => LinesKnown stream c

private theorem messagePass_linesKnown {stream : Bytes} {c : Connection} (h : LinesKnown stream c) :
    (∃ c', messagePass hton64 ntoh64 handlers c = .again c' ∧ LinesKnown stream c') ∨
      ∃ r, messagePass hton64 ntoh64 handlers c = .done r ∧ LinesKnownLeft stream r := by
  rw [messagePass]
  split
  · exact .inr ⟨_, rfl, h⟩
  cases hstate : c.ctx.state with
  | handshake =>
      rw [LinesKnown, hstate] at h
      have hleft : HandshakeLeft stream (handshake hton64 c) := handshake_left ⟨hstate, h⟩
      cases hresult : handshake hton64 c with
      | error fault => exact .inr ⟨_, rfl, trivial⟩
      | ok result =>
          obtain ⟨state, d⟩ := result
          rw [hresult] at hleft
          cases state with
          | handshake => exact .inr ⟨_, rfl, .of_handshake hleft.1 hleft.2⟩
          | handshakeOK => exact .inl ⟨_, rfl, .of_establish hleft.1 hleft.2⟩
          | handshakeError =>
              have herror : ((d.call handlers.onerror .onerror).emit [.close]).ctx.state =
                .handshakeError := hleft
              refine .inr ⟨_, rfl, ?_⟩
              rw [LinesKnownLeft, LinesKnown, herror]
              trivial
          | establish => exact hleft.elim
  | establish =>
      rw [LinesKnown, hstate] at h
      cases hdecode : c.ctx.decode ntoh64 c.buf with
      | error fault => exact .inr ⟨_, rfl, trivial⟩
      | ok result =>
          obtain ⟨code, ctx, buf⟩ := result
          have hctx : ctx.state = .establish := (decode_state hdecode).trans hstate
          cases code with
          | ok =>
              simp only
              split
              · exact .inl ⟨_, rfl, .of_establish hctx h⟩
              · exact .inl ⟨_, rfl, .of_establish hctx h⟩
          | error => exact .inr ⟨_, rfl, .of_establish hctx h⟩
          | notEnough => exact .inr ⟨_, rfl, .of_establish hctx h⟩
          | ping => exact .inl ⟨_, rfl, .of_establish hctx h⟩
          | pong => exact .inl ⟨_, rfl, .of_establish hctx h⟩
          | close => exact .inr ⟨_, rfl, .of_establish hctx h⟩
  | handshakeOK => exact .inl ⟨_, rfl, h⟩
  | handshakeError => exact .inl ⟨_, rfl, h⟩

theorem reached_linesKnown {stream : Bytes} {c : Connection}
    (h : Reached hton64 ntoh64 handlers stream c) : LinesKnown stream c := by
  induction h with
  | start isBinaryType => exact .inl ⟨rfl, rfl, rfl⟩
  | segment _ segment ih => exact ih.segment segment
  | again _ hpass ih =>
      rcases messagePass_linesKnown ih with ⟨_, hagain, hknown⟩ | ⟨_, hdone, _⟩
      · cases hpass.symm.trans hagain
        exact hknown
      · cases hpass.symm.trans hdone
  | done _ hpass ih =>
      rcases messagePass_linesKnown ih with ⟨_, hagain, _⟩ | ⟨_, hdone, hknown⟩
      · cases hpass.symm.trans hagain
      · cases hpass.symm.trans hdone
        exact hknown

theorem Read.headerBlock_eq {stream requestLine rest : Bytes} {headers : List Bytes}
    (h : Read stream requestLine headers (CRLF ++ rest)) : headerBlock stream = headers := by
  have hfree : ¬ CRLF <:+: ([] : Bytes) := by simp [CRLF]
  have hempty : lines (CRLF ++ rest) = [] :: lines rest := lines_line hfree rest
  rw [headerBlock, h.stream_eq, lines_read h.oneLine, hempty, List.cons_append, List.tail_cons,
    List.takeWhile_append_of_pos]
  · simp
  · intro line hline
    exact decide_eq_true (h.nonempty line hline)

private theorem occurrences_pos {headers : List Bytes} (r : Required)
    (hvalid : ∀ line ∈ headers, ∀ r : Required, r.Names line → r.Meets line) :
    0 < r.occurrences headers ↔ ∃ line ∈ headers, r.Meets line := by
  rw [Required.occurrences, List.countP_pos_iff]
  constructor
  · rintro ⟨line, hline, hnames⟩
    exact ⟨line, hline, hvalid line hline r hnames⟩
  · rintro ⟨line, hline, hmeets⟩
    exact ⟨line, hline, hmeets.1⟩

private theorem allPresent_iff {headers : List Bytes}
    (hvalid : ∀ line ∈ headers, ∀ r : Required, r.Names line → r.Meets line)
    (hsix : required headers = 6) : AllPresent headers ↔ NoneRepeated headers := by
  simp only [required, Required.all, List.map_cons, List.map_nil, List.sum_cons, List.sum_nil] at hsix
  constructor
  · intro hall r
    have hpos : ∀ r : Required, 0 < r.occurrences headers :=
      fun r => (occurrences_pos r hvalid).mpr (hall r)
    have hhost := hpos .host
    have hconnection := hpos .connection
    have hupgrade := hpos .upgrade
    have hkey := hpos .secWebSocketKey
    have hversion := hpos .secWebSocketVersion
    have horigin := hpos .origin
    cases r <;> omega
  · intro hnone r
    have hhost := hnone .host
    have hconnection := hnone .connection
    have hupgrade := hnone .upgrade
    have hkey := hnone .secWebSocketKey
    have hversion := hnone .secWebSocketVersion
    have horigin := hnone .origin
    apply (occurrences_pos r hvalid).mp
    cases r <;> omega

/-- A connection that is established has read all of the six headers exactly
when its header block repeats none of them. -/
theorem establish_sound_iff {stream : Bytes} {c : Connection}
    (h : Reached hton64 ntoh64 handlers stream c) (hstate : c.ctx.state = .establish) :
    AllPresent (headerBlock stream) ↔ NoneRepeated (headerBlock stream) := by
  have hknown := reached_linesKnown h
  rw [LinesKnown, hstate] at hknown
  obtain ⟨requestLine, headers, rest, hread, hsix⟩ := hknown
  rw [hread.headerBlock_eq]
  exact allPresent_iff hread.valid hsix

end

/-- A request with the six headers. -/
def upgradeRequest : Bytes :=
  ascii "GET /chat HTTP/1.1\r\nHost: a\r\nUpgrade: websocket\r\nConnection: Upgrade\r\n" ++
    ascii "Sec-WebSocket-Key: b\r\nOrigin: c\r\nSec-WebSocket-Version: 13\r\n\r\n"

/-- A request with one header six times. -/
def sixHosts : Bytes :=
  ascii "GET /chat HTTP/1.1\r\nHost: a\r\nHost: a\r\nHost: a\r\nHost: a\r\nHost: a\r\nHost: a\r\n\r\n"

/-- A connection that nothing has come on. -/
def opened : Connection := { ctx := Context.create false, buf := [], events := [] }

theorem reached_opened {stream : Bytes}
    (h : (run (receive (Sockops.hton64 true) (Sockops.ntoh64 true) quietHandlers) (.ok opened)
      [stream]).map (·.ctx.state) = .ok .establish) :
    ∃ c, Reached (Sockops.hton64 true) (Sockops.ntoh64 true) quietHandlers stream c ∧
      c.ctx.state = .establish := by
  cases hrun : run (receive (Sockops.hton64 true) (Sockops.ntoh64 true) quietHandlers) (.ok opened)
      [stream] with
  | error fault =>
      rw [hrun] at h
      cases h
  | ok c =>
      rw [hrun] at h
      refine ⟨c, ?_, Except.ok.inj h⟩
      have hreached := reached_run (.start false) hrun
      rwa [List.nil_append, List.flatten_singleton] at hreached

theorem establish_sound_upgradeRequest : AllPresent (headerBlock upgradeRequest) := by
  have hrun : (run (receive (Sockops.hton64 true) (Sockops.ntoh64 true) quietHandlers) (.ok opened)
      [upgradeRequest]).map (·.ctx.state) = .ok .establish := by decide +kernel
  obtain ⟨c, hreached, hstate⟩ := reached_opened hrun
  apply (establish_sound_iff hreached hstate).mpr
  have hnone : ∀ r ∈ Required.all, r.occurrences (headerBlock upgradeRequest) ≤ 1 := by
    decide +kernel
  exact fun r => hnone r r.mem_all

/-- A request with six Host lines and nothing else establishes the connection. -/
theorem establish_sixHosts :
    (∃ c, Reached (Sockops.hton64 true) (Sockops.ntoh64 true) quietHandlers sixHosts c ∧
      c.ctx.state = .establish) ∧ ¬ AllPresent (headerBlock sixHosts) := by
  refine ⟨reached_opened (by decide +kernel), ?_⟩
  intro hall
  obtain ⟨line, hline, hmeets⟩ := hall .origin
  have hnone : ∀ line ∈ headerBlock sixHosts, ¬ Required.origin.Names line := by decide +kernel
  exact hnone line hline hmeets.1

end Angel.Websocket
