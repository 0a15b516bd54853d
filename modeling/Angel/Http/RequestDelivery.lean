import Angel.Http.RequestLine
import Angel.Http.RoundTrip

/-!
What the server makes of a request of the client. `http_request::str` writes
the header map and stops there: the body that was set is not sent, and no
length is announced for it.
-/

namespace Angel.Http

open Util Buffer Lib

/-- A header value that comes back as it was sent. -/
def CleanValue (value : Bytes) : Prop :=
  value ≠ [] ∧ trim value = value ∧ ¬ CRLF <:+: value

def CleanHeaders (headers : Headers) : Prop := ∀ entry ∈ headers, CleanValue entry.2

theorem clean_nil : CleanHeaders [] := fun _ h => absurd h List.not_mem_nil

private theorem clean_emplace {headers : Headers} (h : CleanHeaders headers) {value : Bytes}
    (hvalue : CleanValue value) (field : Bytes) : CleanHeaders (headers.emplace field value) := by
  unfold Headers.emplace
  split
  · exact h
  · intro entry hentry
    rcases List.mem_append.mp hentry with hold | hnew
    · exact h entry hold
    · rw [List.mem_singleton.mp hnew]
      exact hvalue

private theorem headerPass_clean {s : Message × Bytes} (h : CleanHeaders s.1.headers) :
    (∃ s', headerPass s = .again s' ∧ CleanHeaders s'.1.headers) ∨
      ∃ r, headerPass s = .done r ∧ ∀ p, r = some p → CleanHeaders p.1.headers := by
  obtain ⟨m, buf⟩ := s
  unfold headerPass
  dsimp only
  split
  · exact Or.inr ⟨_, rfl, fun p hp => by cases hp; exact h⟩
  next crlf hcrlf =>
    split
    · exact Or.inr ⟨_, rfl, fun p hp => by cases hp; exact h⟩
    · split
      · exact Or.inr ⟨_, rfl, fun p hp => by cases hp; exact h⟩
      next pos hpos =>
        split
        · exact Or.inr ⟨_, rfl, nofun⟩
        · refine Or.inl ⟨_, rfl, ?_⟩
          dsimp only
          split
          · exact h
          · next hne =>
              obtain ⟨line, tail, rfl, rfl, hfree⟩ := findCrlf_some hcrlf
              refine clean_emplace h ⟨hne, Lib.trimmed_trimmed _, fun hin => hfree ?_⟩ _
              have htext : (((line ++ CRLF ++ tail).drop (pos + 1)).take (line.length - pos - 1)) =
                  line.drop (pos + 1) := by
                rw [Nat.sub_sub, ← List.drop_take, take_line]
              rw [htext] at hin
              exact hin.trans ((Lib.trimmed_infix _).trans (List.drop_suffix _ _).isInfix)

theorem parseHeader_clean {m m' : Message} {buf buf' : Bytes} {code : StatusCode}
    (h : CleanHeaders m.headers) (hparse : m.parseHeader buf = some (m', buf', code)) :
    CleanHeaders m'.headers := by
  have hloop : loop headerPass (buf.length + 1) (m, buf) = some (some (m', buf', code)) :=
    Option.join_eq_some_iff.mp hparse
  exact loop_sound_of_pass (fun _ hs => headerPass_clean hs) h hloop _ rfl

theorem parseBodyLength_headers (m : Message) : m.parseBodyLength.1.headers = m.headers := by
  unfold Message.parseBodyLength
  split
  · rfl
  · split
    · rfl
    · dsimp only
      split <;> rfl

private theorem chunkData_headers (m : Message) (buf : Bytes) :
    (∃ s', chunkData m buf = .again s' ∧ s'.1.headers = m.headers) ∨
      ∃ p, chunkData m buf = .done (some p) ∧ p.1.headers = m.headers := by
  unfold chunkData
  dsimp only
  split
  · split
    · exact Or.inr ⟨_, rfl, rfl⟩
    · split
      · exact Or.inl ⟨_, rfl, rfl⟩
      · exact Or.inr ⟨_, rfl, rfl⟩
  · exact Or.inr ⟨_, rfl, rfl⟩

private theorem chunkPass_clean {s : Message × Bytes} (h : CleanHeaders s.1.headers) :
    (∃ s', chunkPass s = .again s' ∧ CleanHeaders s'.1.headers) ∨
      ∃ r, chunkPass s = .done r ∧ ∀ p, r = some p → CleanHeaders p.1.headers := by
  obtain ⟨m, buf⟩ := s
  have hdata : ∀ {m' : Message} (buf : Bytes), m'.headers = m.headers →
      (∃ s', chunkData m' buf = .again s' ∧ CleanHeaders s'.1.headers) ∨
        ∃ r, chunkData m' buf = .done r ∧ ∀ p, r = some p → CleanHeaders p.1.headers := by
    intro m' buf hsame
    rcases chunkData_headers m' buf with ⟨s', hagain, hheaders⟩ | ⟨p, hdone, hheaders⟩
    · exact Or.inl ⟨s', hagain, hheaders.trans hsame ▸ h⟩
    · refine Or.inr ⟨_, hdone, fun q hq => ?_⟩
      cases hq
      exact hheaders.trans hsame ▸ h
  have hstop : ∀ (r : Parsed) (q : Message × Bytes × StatusCode), r = some q →
      q.1.headers = m.headers → ∀ p, r = some p → CleanHeaders p.1.headers := by
    rintro r q rfl hsame p hp
    cases hp
    exact hsame ▸ h
  unfold chunkPass
  dsimp only
  split
  · exact Or.inr ⟨_, rfl, hstop _ _ rfl rfl⟩
  · split
    · split
      · exact Or.inr ⟨_, rfl, hstop _ _ rfl rfl⟩
      · split
        · exact Or.inr ⟨_, rfl, hstop _ _ rfl rfl⟩
        · split
          · exact Or.inr ⟨_, rfl, hstop _ _ rfl rfl⟩
          · split
            · exact Or.inl ⟨_, rfl, h⟩
            · exact hdata _ rfl
    · split
      · right
        unfold chunkTrailer
        split
        · next m' left hparse =>
            have hclean : CleanHeaders m'.headers := parseHeader_clean h hparse
            exact ⟨_, rfl, fun p hp => by cases hp; exact hclean⟩
        · next parsed hnot =>
            exact ⟨_, rfl, fun p hp => parseHeader_clean h hp⟩
      · exact hdata _ rfl

theorem parseBody_clean {m m' : Message} {buf buf' : Bytes} {code : StatusCode}
    (h : CleanHeaders m.headers) (hparse : m.parseBody buf = some (m', buf', code)) :
    CleanHeaders m'.headers := by
  unfold Message.parseBody at hparse
  split at hparse
  · have hloop : loop chunkPass (buf.length + 1) (m, buf) = some (some (m', buf', code)) :=
      Option.join_eq_some_iff.mp hparse
    exact loop_sound_of_pass (fun _ hs => chunkPass_clean hs) h hloop _ rfl
  · unfold Message.parseBodyByContentLength at hparse
    split at hparse
    · cases hparse
      exact h
    · cases hparse
      exact h

private theorem parseTarget_message {req req' : Request} {method : Method} {target : Bytes}
    {ok : Bool}
    (h : ({ req with reqMethod := method } : Request).parseTarget target = some (req', ok)) :
    req'.message = req.message := by
  unfold Request.parseTarget at h
  dsimp only at h
  split at h
  · cases h
    rfl
  · split at h
    · cases h
      rfl
    · split at h
      · cases h
      · obtain ⟨rfl, -⟩ := Prod.mk.inj (Option.some.inj h)
        rfl

private theorem parseLine_message {req req' : Request} {buf buf' : Bytes} {code : StatusCode}
    (h : req.parseLine buf = some (req', buf', code)) : req'.message = req.message := by
  unfold Request.parseLine at h
  split at h
  · cases h
    rfl
  · split at h
    · cases h
      rfl
    · split at h
      · split at h
        · cases h
          rfl
        · split at h
          · cases h
          · next hparse =>
              cases h
              exact parseTarget_message hparse
          · next hparse =>
              split at h
              · obtain ⟨rfl, -⟩ := Prod.mk.inj (Option.some.inj h)
                exact parseTarget_message hparse
              · have hmessage := parseTarget_message hparse
                obtain ⟨rfl, -⟩ := Prod.mk.inj (Option.some.inj h)
                exact hmessage
      · cases h
        rfl

theorem parseLine_clean {req req' : Request} {buf buf' : Bytes} {code : StatusCode}
    (h : CleanHeaders req.message.headers) (hparse : req.parseLine buf = some (req', buf', code)) :
    CleanHeaders req'.message.headers := by
  rw [parseLine_message hparse]
  exact h

/-- The requests behind `past` have clean headers, and so has the one that is
being read. -/
structure CleanSession (past : List Record) (s : Session Recorder) : Prop where
  requests : ∃ more, s.env.requests = past ++ more ∧ ∀ r ∈ more, CleanHeaders r.headers
  headers : CleanHeaders s.req.message.headers

/-- A pass that keeps the session clean. -/
def PassClean (past : List Record) (p : Pass (Session Recorder) (Option (Session Recorder))) :
    Prop :=
  (∃ s', p = .again s' ∧ CleanSession past s') ∨
    ∃ r, p = .done r ∧ ∀ s', r = some s' → CleanSession past s'

section Clean

variable {past : List Record}

theorem passClean_again {s : Session Recorder} (h : CleanSession past s) :
    PassClean past (.again s) := Or.inl ⟨s, rfl, h⟩

theorem passClean_done {s : Session Recorder} (h : CleanSession past s) :
    PassClean past (.done (some s)) :=
  Or.inr ⟨_, rfl, fun _ hs => Option.some.inj hs ▸ h⟩

theorem passClean_none : PassClean past (.done none) := by
  refine Or.inr ⟨none, rfl, ?_⟩
  intro s' hs
  cases hs

theorem dispatch_clean {env : Recorder} {req : Request} {buf : Bytes}
    (h : CleanSession past ⟨env, req, buf⟩) : PassClean past (recorder.dispatch env req buf) := by
  obtain ⟨more, hmore, hclean⟩ := h.requests
  apply passClean_again
  refine ⟨⟨more ++ [req.record], ?_, ?_⟩, clean_nil⟩
  · change env.requests ++ [req.record] = _
    rw [← List.append_assoc, ← hmore]
  · intro r hr
    rcases List.mem_append.mp hr with hold | hnew
    · exact hclean r hold
    · rw [List.mem_singleton.mp hnew]
      exact h.headers

private theorem headerDone_clean {env : Recorder} {req : Request} {buf : Bytes}
    (h : CleanSession past ⟨env, req, buf⟩) : PassClean past (recorder.headerDone env req buf) := by
  have hlength := parseBodyLength_headers req.message
  have hcall : recorder.expect env req = (env, expectCode req.headers) := rfl
  unfold Service.headerDone
  split
  · exact passClean_done ⟨h.requests, h.headers⟩
  rw [hcall]
  split
  · next hpair =>
      cases (Prod.mk.inj hpair).1
      exact passClean_done ⟨h.requests, clean_nil⟩
  · next hpair =>
      cases (Prod.mk.inj hpair).1
      split
      · next m hm =>
          rw [hm] at hlength
          exact passClean_again ⟨h.requests, hlength ▸ h.headers⟩
      · next m hm =>
          rw [hm] at hlength
          exact dispatch_clean ⟨h.requests, hlength ▸ h.headers⟩
      · next m code _ _ hm =>
          rw [hm] at hlength
          exact passClean_done ⟨h.requests, hlength ▸ h.headers⟩

private theorem pass_clean {s : Session Recorder} (h : CleanSession past s) :
    PassClean past (recorder.pass s) := by
  unfold Service.pass
  split
  · exact passClean_done h
  · split
    · -- the line
      unfold Service.linePass
      split
      · exact passClean_none
      · next req buf hparse =>
          have hclean := parseLine_clean h.headers hparse
          exact passClean_again ⟨h.requests, hclean⟩
      · next req buf hparse =>
          exact passClean_done ⟨h.requests, parseLine_clean h.headers hparse⟩
      · next req buf code _ _ hparse =>
          exact passClean_done ⟨h.requests, parseLine_clean h.headers hparse⟩
    · -- the header block
      unfold Service.headerPass
      split
      · exact passClean_none
      · next m buf hparse =>
          exact headerDone_clean ⟨h.requests, parseHeader_clean h.headers hparse⟩
      · next m buf hparse =>
          exact passClean_done ⟨h.requests, parseHeader_clean h.headers hparse⟩
      · next m buf code _ _ hparse =>
          exact passClean_done ⟨h.requests, parseHeader_clean h.headers hparse⟩
    · -- the body
      unfold Service.bodyPass
      split
      · exact passClean_none
      · next m buf hparse =>
          exact dispatch_clean ⟨h.requests, parseBody_clean h.headers hparse⟩
      · next m buf hparse =>
          exact passClean_done ⟨h.requests, parseBody_clean h.headers hparse⟩
      · next m buf code _ _ hparse =>
          exact passClean_done ⟨h.requests, parseBody_clean h.headers hparse⟩

theorem receive_clean {s s' : Session Recorder} {seg : Bytes} (h : CleanSession past s)
    (hreceive : recorder.receive (some s) seg = some s') : CleanSession past s' := by
  have hnext : CleanSession past { s with buf := s.buf ++ seg } := ⟨h.requests, h.headers⟩
  change recorder.messageHandler { s with buf := s.buf ++ seg } = some s' at hreceive
  unfold Service.messageHandler at hreceive
  split at hreceive
  · cases hreceive
    exact hnext
  · have hloop := Option.join_eq_some_iff.mp hreceive
    exact loop_sound_of_pass (fun _ hs => pass_clean hs) hnext hloop s' rfl

end Clean

/-- An entry that a line can carry. -/
structure Sendable (entry : Bytes × Bytes) : Prop where
  nameFree : COLON ∉ entry.1
  nameLine : CR ∉ entry.1
  clean : CleanValue entry.2

theorem exists_fields {headers : Headers} (hsendable : ∀ entry ∈ headers, Sendable entry)
    (before : Headers) (hdistinct : DistinctEntries (before ++ headers)) :
    ∃ fields, renderFields fields =
        headers.flatMap (fun entry => formatHeader entry.1 entry.2) ∧
      before.enterAll fields = before ++ headers := by
  induction headers generalizing before with
  | nil => exact ⟨[], rfl, (List.append_nil _).symm⟩
  | cons entry headers ih =>
      obtain ⟨hentry, hrest⟩ := List.forall_mem_cons.mp hsendable
      have hshape : before ++ entry :: headers = (before ++ [entry]) ++ headers := by simp
      obtain ⟨fields, hrender, henter⟩ := ih hrest (before ++ [entry]) (hshape ▸ hdistinct)
      let field : FieldLine :=
        { name := entry.1
          text := 32 :: entry.2
          nameFree := hentry.nameFree
          oneLine := by
            intro hin
            rcases crlf_infix_append_cons (by decide) (by decide) hin with hname | htext
            · exact not_crlf_of_not_mem hentry.nameLine hname
            · rcases List.infix_cons_iff.mp htext with hpre | hvalue
              · exact absurd (List.cons_prefix_cons.mp hpre).1 (by decide)
              · exact hentry.clean.2.2 hvalue }
      have hnew : before.find entry.1 = none := by
        have hother := (List.pairwise_append.mp hdistinct).2.2
        simp only [Headers.find, Option.map_eq_none_iff, List.find?_eq_none]
        intro other hmem
        simpa using hother other hmem entry List.mem_cons_self
      have hfirst : before.enter field = before ++ [entry] := by
        have htrim : trim field.text = entry.2 := trim_cons_space hentry.clean.2.1
        rw [Headers.enter, htrim, if_neg hentry.clean.1, Headers.emplace, Headers.count, hnew]
        rfl
      refine ⟨field :: fields, ?_, ?_⟩
      · have hcons : renderFields (field :: fields) = field.line ++ CRLF ++ renderFields fields := rfl
        rw [hcons, hrender]
        simp [formatHeader, FieldLine.line, field, SEP, ascii, COLON]
      · rw [enterAll_cons, hfirst, henter, ← hshape]

section Stream

-- A request line that is read into `lined`, and a block that announces no body.
variable (past : List Record) (req lined : Request) (line : Bytes) (fields : List FieldLine)

/-- The request with some of its header lines read. -/
def Request.entered (fields : List FieldLine) : Request :=
  { lined with
    message := { lined.message with headers := Headers.enterAll [] fields }
    state := .parseHeader }

/-- Where the server stands in a request without a body. -/
inductive BodylessAwaits (s : Session Recorder) (rest : Bytes) : Prop where
  | line (henv : s.env = ⟨past, true⟩) (hreq : s.req = req)
      (hstream : s.buf ++ rest = line ++ CRLF ++ (renderFields fields ++ CRLF))
  | header (done todo : List FieldLine) (henv : s.env = ⟨past, true⟩)
      (hreq : s.req = lined.entered done) (hfields : fields = done ++ todo)
      (hstream : s.buf ++ rest = renderFields todo ++ CRLF)
  | finished (henv : s.env = ⟨past ++ [(lined.entered fields).record], true⟩)
      (hbuf : s.buf = []) (hrest : rest = [])

/-- The result of a call: the handler stops with bytes in the buffer only when
more are to come. -/
def BodylessSettled (s : Option (Session Recorder)) (rest : Bytes) : Prop :=
  ∃ s', s = some s' ∧ BodylessAwaits past req lined line fields s' rest ∧ (s'.buf = [] ∨ rest ≠ [])

def BodylessProceeds (s : Session Recorder) (rest : Bytes)
    (p : Pass (Session Recorder) (Option (Session Recorder))) : Prop :=
  (∃ s', p = .again s' ∧ BodylessAwaits past req lined line fields s' rest ∧
      s'.buf.length < s.buf.length) ∨
    ∃ r, p = .done r ∧ BodylessSettled past req lined line fields r rest

variable {past req lined line fields}

/-- How the parts of the request are read. -/
structure Bodyless (req lined : Request) (line : Bytes) (fields : List FieldLine) : Prop where
  state : req.state = .parseLine
  oneLine : ¬ CRLF <:+: line
  read : ∀ after, req.parseLine (line ++ CRLF ++ after) = some (lined, after, .ok)
  noHeaders : lined.message.headers = []
  noBody : lined.message.body = []
  host : (Headers.enterAll [] fields).count (ascii "Host") = true
  expected : expectCode (Headers.enterAll [] fields) ≠ .failed
  noEncoding : (Headers.enterAll [] fields).find (ascii "Transfer-Encoding") = none
  noLength : (Headers.enterAll [] fields).find (ascii "Content-Length") = none

theorem bodyless_line (h : Bodyless req lined line fields) {s : Session Recorder} {rest : Bytes}
    (henv : s.env = ⟨past, true⟩) (hreq : s.req = req)
    (hstream : s.buf ++ rest = line ++ CRLF ++ (renderFields fields ++ CRLF)) :
    BodylessProceeds past req lined line fields s rest (recorder.linePass s) := by
  unfold Service.linePass
  rcases arrived_cases hstream with ⟨more, hmore, hbuf, hrest⟩ | ⟨extra, hbuf, hextra⟩
  · right
    have hne : rest ≠ [] := by simp [hrest, hmore]
    have hwait : s.req.parseLine s.buf = some (s.req, s.buf, .continue) := by
      rw [Request.parseLine, findCrlf_incomplete h.oneLine hbuf hmore]
    rw [hwait]
    exact ⟨_, rfl, _, rfl, .line henv hreq hstream, Or.inr hne⟩
  · left
    rw [hreq, hbuf, h.read]
    refine ⟨_, rfl, .header [] fields henv ?_ rfl hextra, ?_⟩
    · simp [Request.entered, ← h.noHeaders]
    · simp only [List.length_append, CRLF, List.length_cons, List.length_nil]
      omega

private theorem bodyless_done (h : Bodyless req lined line fields) :
    recorder.headerDone ⟨past, true⟩ (lined.entered fields) [] =
      .again ⟨⟨past ++ [(lined.entered fields).record], true⟩, (lined.entered fields).clear, []⟩ := by
  have hheaders : (lined.entered fields).headers = Headers.enterAll [] fields := rfl
  have hcall : recorder.expect ⟨past, true⟩ (lined.entered fields) =
      (⟨past, true⟩, expectCode (Headers.enterAll [] fields)) := rfl
  have hlength : (lined.entered fields).message.parseBodyLength =
      ((lined.entered fields).message, .continue) := by
    apply parseBodyLength_none
    · exact h.noEncoding ▸ by simp
    · exact h.noLength
  have hexpected := h.expected
  unfold Service.headerDone
  rw [hheaders, h.host, if_neg (by simp), hcall, hlength]
  cases hcode : expectCode (Headers.enterAll [] fields) with
  | noHeader => rfl
  | successful => rfl
  | failed => exact absurd hcode hexpected

private theorem bodyless_header (h : Bodyless req lined line fields) {s : Session Recorder}
    {rest : Bytes}
    {done todo : List FieldLine} (henv : s.env = ⟨past, true⟩) (hreq : s.req = lined.entered done)
    (hfields : fields = done ++ todo) (hstream : s.buf ++ rest = renderFields todo ++ CRLF) :
    BodylessProceeds past req lined line fields s rest (recorder.headerPass s) := by
  have hentered : ∀ more, ({ (lined.entered done).message with
      headers := (lined.entered done).message.headers.enterAll more } : Message) =
        (lined.entered (done ++ more)).message := by
    intro more
    simp [Request.entered]
  have hblock : s.buf ++ rest = renderFields todo ++ CRLF ++ [] := by simpa using hstream
  unfold Service.headerPass
  rw [hreq, henv]
  rcases parseHeader_fields todo (lined.entered done).message hblock with
    ⟨extra, hextra, hshape, hparse⟩ | ⟨done', todo', left, htodo, _, hleft, hne, hparse⟩
  · obtain ⟨rfl, rfl⟩ := List.append_eq_nil_iff.mp hextra
    left
    rw [hparse, hentered, ← hfields]
    refine ⟨_, bodyless_done h, .finished rfl rfl rfl, ?_⟩
    rw [hshape]
    simp [CRLF]
  · right
    rw [hparse, hentered]
    refine ⟨_, rfl, _, rfl, ?_, Or.inr hne⟩
    exact .header (done ++ done') todo' rfl rfl (by simp [hfields, htodo]) (by simpa using hleft)

private theorem bodyless_pass (h : Bodyless req lined line fields) {s : Session Recorder}
    {rest : Bytes}
    (hawaits : BodylessAwaits past req lined line fields s rest) :
    BodylessProceeds past req lined line fields s rest (recorder.pass s) := by
  unfold Service.pass
  by_cases hbuf : s.buf = []
  · rw [if_pos hbuf]
    exact Or.inr ⟨_, rfl, s, rfl, hawaits, Or.inl hbuf⟩
  rw [if_neg hbuf]
  cases hawaits with
  | line henv hreq hstream =>
      rw [hreq, h.state]
      exact bodyless_line h henv hreq hstream
  | header done todo henv hreq hfields hstream =>
      rw [hreq]
      exact bodyless_header h henv hreq hfields hstream
  | finished henv hnil => exact absurd hnil hbuf

private theorem bodyless_receive (h : Bodyless req lined line fields)
    {s : Option (Session Recorder)}
    {seg rest : Bytes} (hsettled : BodylessSettled past req lined line fields s (seg ++ rest)) :
    BodylessSettled past req lined line fields (recorder.receive s seg) rest := by
  obtain ⟨s, rfl, hawaits, -⟩ := hsettled
  have hconnected : recorder.isConnected s.env = true := by
    cases hawaits with
    | line henv => rw [henv]; rfl
    | header done todo henv => rw [henv]; rfl
    | finished henv => rw [henv]; rfl
  have hnext : BodylessAwaits past req lined line fields { s with buf := s.buf ++ seg } rest := by
    cases hawaits with
    | line henv hreq hstream => exact .line henv hreq (by simpa using hstream)
    | header done todo henv hreq hfields hstream =>
        exact .header done todo henv hreq hfields (by simpa using hstream)
    | finished henv hbuf hrest =>
        obtain ⟨rfl, rfl⟩ := List.append_eq_nil_iff.mp hrest
        exact .finished henv (by simp [hbuf]) rfl
  change BodylessSettled past req lined line fields
    (recorder.messageHandler { s with buf := s.buf ++ seg }) rest
  rw [Service.messageHandler, hconnected, if_neg (by simp)]
  have hpass : ∀ t, BodylessAwaits past req lined line fields t rest →
      BodylessProceeds past req lined line fields t rest (recorder.pass t) :=
    fun _ ht => bodyless_pass h ht
  have hfuel : (s.buf ++ seg).length < 2 * (s.buf ++ seg).length + 2 := by omega
  obtain ⟨r, hloop, hdone⟩ :=
    loop_spec (fun t : Session Recorder => t.buf.length) hpass hnext hfuel
  rw [hloop]
  exact hdone

theorem bodyless_run (h : Bodyless req lined line fields) {segments : List Bytes}
    (hsegments : segments.flatten = line ++ CRLF ++ (renderFields fields ++ CRLF)) :
    ∃ req', run recorder.receive (some ⟨⟨past, true⟩, req, []⟩) segments =
      some ⟨⟨past ++ [(lined.entered fields).record], true⟩, req', []⟩ := by
  have hstart : BodylessSettled past req lined line fields (some ⟨⟨past, true⟩, req, []⟩)
      (segments.flatten ++ []) :=
    ⟨_, rfl, .line rfl rfl (by simpa using hsegments), Or.inl rfl⟩
  obtain ⟨⟨env, req', buf⟩, hrun, hawaits, hbuf⟩ :=
    run_segments (fun _ _ _ hs => bodyless_receive h hs) hstart
  have hnil : buf = [] := by simpa using hbuf
  subst hnil
  cases hawaits with
  | line henv hreq hstream => simp [CRLF] at hstream
  | header done todo henv hreq hfields hstream => simp [CRLF] at hstream
  | finished henv =>
      obtain rfl : env = ⟨past ++ [(lined.entered fields).record], true⟩ := henv
      exact ⟨req', hrun⟩

end Stream

section Whole

variable {past : List Record} {req : Request}

theorem run_whole (past : List Record) (req : Request) (text : Bytes) :
    run recorder.receive (some ⟨⟨past, true⟩, req, []⟩) [text] =
      (loop recorder.pass (2 * text.length + 2) ⟨⟨past, true⟩, req, text⟩).join := rfl

private theorem run_long_line (hstate : req.state = .parseLine) {line after : Bytes}
    (hfree : ¬ CRLF <:+: line) (hlong : uriMaxLength < line.length) :
    ∃ req' buf, run recorder.receive (some ⟨⟨past, true⟩, req, []⟩) [line ++ CRLF ++ after] =
      some ⟨⟨past, false⟩, req', buf⟩ := by
  have hparse : req.parseLine (line ++ CRLF ++ after) =
      some (req, line ++ CRLF ++ after, .requestUriTooLong) := by
    rw [Request.parseLine, findCrlf_line hfree]
    exact if_pos hlong
  have hpass : recorder.pass ⟨⟨past, true⟩, req, line ++ CRLF ++ after⟩ =
      .done (some ⟨⟨past, false⟩, req, line ++ CRLF ++ after⟩) := by
    rw [Service.pass, if_neg (by simp [CRLF])]
    dsimp only
    rw [hstate]
    dsimp only
    rw [Service.linePass, hparse]
    rfl
  rw [run_whole, loop_done hpass]
  exact ⟨req, line ++ CRLF ++ after, rfl⟩

theorem short_of_run (hstate : req.state = .parseLine) {line after : Bytes}
    (hfree : ¬ CRLF <:+: line) {s : Session Recorder}
    (hrun : run recorder.receive (some ⟨⟨past, true⟩, req, []⟩) [line ++ CRLF ++ after] = some s)
    (hconnected : s.env.connected = true) : line.length ≤ uriMaxLength := by
  by_contra hlong
  obtain ⟨_, _, hrefused⟩ := run_long_line hstate hfree (Nat.lt_of_not_le hlong)
  rw [hrefused] at hrun
  cases hrun
  cases hconnected

private theorem run_unexpected {lined : Request} {line : Bytes} {fields : List FieldLine}
    (hstate : req.state = .parseLine)
    (hread : ∀ after, req.parseLine (line ++ CRLF ++ after) = some (lined, after, .ok))
    (hnone : lined.message.headers = [])
    (hhost : (Headers.enterAll [] fields).count (ascii "Host") = true)
    (hfailed : expectCode (Headers.enterAll [] fields) = .failed) :
    ∃ req' buf, run recorder.receive (some ⟨⟨past, true⟩, req, []⟩)
        [line ++ CRLF ++ (renderFields fields ++ CRLF)] = some ⟨⟨past, true⟩, req', buf⟩ := by
  have hline : recorder.pass ⟨⟨past, true⟩, req, line ++ CRLF ++ (renderFields fields ++ CRLF)⟩ =
      .again ⟨⟨past, true⟩, { lined with state := .parseHeader }, renderFields fields ++ CRLF⟩ := by
    rw [Service.pass, if_neg (by simp [CRLF])]
    dsimp only
    rw [hstate]
    dsimp only
    rw [Service.linePass, hread]
  have hparse : lined.message.parseHeader (renderFields fields ++ CRLF) =
      some ((lined.entered fields).message, [], .ok) := by
    have hblock : (renderFields fields ++ CRLF) ++ [] = renderFields fields ++ CRLF ++ [] := rfl
    rcases parseHeader_fields fields lined.message hblock with
      ⟨extra, hafter, _, hparse⟩ | ⟨_, _, _, _, _, _, hnil, _⟩
    · rw [hparse, hnone, (List.append_eq_nil_iff.mp hafter).1]
      rfl
    · exact absurd rfl hnil
  have hheader : recorder.pass
      ⟨⟨past, true⟩, { lined with state := .parseHeader }, renderFields fields ++ CRLF⟩ =
      .done (some ⟨⟨past, true⟩, (lined.entered fields).clear, []⟩) := by
    have hheaders : (lined.entered fields).headers = Headers.enterAll [] fields := rfl
    have hcall : recorder.expect ⟨past, true⟩ (lined.entered fields) =
        (⟨past, true⟩, expectCode (Headers.enterAll [] fields)) := rfl
    rw [Service.pass, if_neg (by simp [CRLF])]
    dsimp only
    rw [Service.headerPass, hparse]
    change recorder.headerDone ⟨past, true⟩ (lined.entered fields) [] = _
    rw [Service.headerDone, hheaders, hhost, if_neg (by simp), hcall, hfailed]
  have hfuel : 2 * (line ++ CRLF ++ (renderFields fields ++ CRLF)).length + 2 =
      2 * (line ++ CRLF ++ (renderFields fields ++ CRLF)).length + 1 + 1 := rfl
  rw [run_whole, hfuel, loop_again hline]
  have hmore : 2 * (line ++ CRLF ++ (renderFields fields ++ CRLF)).length + 1 =
      2 * (line ++ CRLF ++ (renderFields fields ++ CRLF)).length + 0 + 1 := rfl
  rw [hmore, loop_done hheader]
  exact ⟨_, _, rfl⟩

theorem expected_of_run {lined : Request} {line : Bytes} {fields : List FieldLine}
    (hstate : req.state = .parseLine)
    (hread : ∀ after, req.parseLine (line ++ CRLF ++ after) = some (lined, after, .ok))
    (hnone : lined.message.headers = [])
    (hhost : (Headers.enterAll [] fields).count (ascii "Host") = true) {s : Session Recorder}
    (hrun : run recorder.receive (some ⟨⟨past, true⟩, req, []⟩)
      [line ++ CRLF ++ (renderFields fields ++ CRLF)] = some s)
    (hmore : s.env.requests ≠ past) : expectCode (Headers.enterAll [] fields) ≠ .failed := by
  intro hfailed
  obtain ⟨_, _, hkept⟩ := run_unexpected hstate hread hnone hhost hfailed
  rw [hkept] at hrun
  cases hrun
  exact hmore rfl

theorem clean_of_run (hheaders : req.message.headers = []) {text : Bytes} {record : Record}
    {req' : Request} {buf : Bytes}
    (hrun : run recorder.receive (some ⟨⟨past, true⟩, req, []⟩) [text] =
      some ⟨⟨past ++ [record], true⟩, req', buf⟩) {field value : Bytes}
    (hfind : record.headers.find field = some value) : CleanValue value := by
  have hstart : CleanSession past ⟨⟨past, true⟩, req, []⟩ :=
    ⟨⟨[], (List.append_nil _).symm, fun _ h => absurd h List.not_mem_nil⟩, by
      rw [hheaders]
      exact clean_nil⟩
  obtain ⟨more, hmore, hall⟩ := (receive_clean hstart hrun).requests
  obtain rfl : [record] = more := List.append_cancel_left hmore
  obtain ⟨entry, hentry, -, rfl⟩ := mem_of_find hfind
  exact hall record List.mem_cons_self entry hentry

end Whole

/-- What the client sends for a POST to a URL, with parameters, headers and a
body. -/
def postText (paramOrder : Params → Params) (order : Headers → Headers) (req : HttpRequest)
    (url : Bytes) (params : Params) (headers : Headers) (body : Bytes) : Option Bytes :=
  (req.setUrl url).map fun req =>
    ((((req.setParams params).setHeaders headers).setBody body).post.str paramOrder order).2

/-- In every segmentation the server hands on one request, with the headers and
the body that were set, and has read everything. -/
def Delivers (past : List Record) (req : Request) (text : Bytes) (lines : List HeaderLine)
    (host body : Bytes) : Prop :=
  ∀ segments : List Bytes, segments.flatten = text → ∃ record req',
    run recorder.receive (some ⟨⟨past, true⟩, req, []⟩) segments =
        some ⟨⟨past ++ [record], true⟩, req', []⟩ ∧
      (∀ line ∈ lines, record.headers.find line.name = some line.value) ∧
      record.headers.find (ascii "Host") = some host ∧ record.body = body

/-- When a request gets through: it has no body, and nothing else of it is
refused. -/
structure Deliverable (target host : Bytes) (lines : List HeaderLine) (body : Bytes) : Prop where
  noBody : body = []
  host : CleanValue host
  expected : expectCode (headerMap lines) ≠ .failed
  shortLine : (firstLine .post target).length ≤ uriMaxLength

section Post

variable {lines : List HeaderLine} {host : Bytes}

/-- The map that is written: the headers that were set and `Host`. -/
def writtenHeaders (lines : List HeaderLine) (host : Bytes) : Headers :=
  headerMap lines ++ [(ascii "Host", host)]

theorem set_host (hnames : ∀ line ∈ lines, toLower line.name ≠ toLower (ascii "Host"))
    (host : Bytes) :
    (headerMap lines).set (ascii "Host") host = writtenHeaders lines host := by
  have hcount : (headerMap lines).count (ascii "Host") = false := by
    rw [Headers.count, find_headerMap_none.mpr hnames]
    rfl
  rw [Headers.set, hcount]
  rfl

theorem distinct_written (hdistinct : DistinctNames lines)
    (hnames : ∀ line ∈ lines, toLower line.name ≠ toLower (ascii "Host")) (host : Bytes) :
    DistinctEntries (writtenHeaders lines host) := by
  apply List.pairwise_append.mpr
  refine ⟨List.pairwise_map.mpr hdistinct, List.pairwise_singleton _ _, ?_⟩
  intro entry hentry other hother
  obtain ⟨line, hline, rfl⟩ := List.mem_map.mp hentry
  rw [List.mem_singleton.mp hother]
  exact hnames line hline

theorem find_written {field : Bytes} (hfield : toLower (ascii "Host") ≠ toLower field) :
    (writtenHeaders lines host).find field = (headerMap lines).find field := by
  have hlast : List.find? (fun entry => toLower entry.1 = toLower field)
      [(ascii "Host", host)] = none := by
    simp [hfield]
  simp [Headers.find, writtenHeaders, List.find?_append, hlast]

theorem sendable_written (hhost : CleanValue host) :
    ∀ entry ∈ writtenHeaders lines host, Sendable entry := by
  intro entry hentry
  rcases List.mem_append.mp hentry with hentry | hentry
  · obtain ⟨line, -, rfl⟩ := List.mem_map.mp hentry
    refine ⟨fun hmem => (line.nameFree COLON hmem).1 rfl,
      fun hmem => (line.nameFree CR hmem).2.1 rfl, line.valueNonempty, line.valueTrimmed, ?_⟩
    exact not_crlf_of_not_mem fun hmem => (line.valueFree CR hmem).1 rfl
  · rw [List.mem_singleton.mp hentry]
    have hname : COLON ∉ ascii "Host" ∧ CR ∉ ascii "Host" := by decide
    exact ⟨hname.1, hname.2, hhost⟩

/-- The request with the line of a POST read. -/
def Request.posted (req : Request) (path : Bytes) (entries : Params) : Request :=
  { req with
    reqMethod := .post
    absPath := path
    queryParams := entries
    httpVersion := .http11 }

theorem read_post {req : Request} (hidle : req.Idle) {path : Bytes} {entries : Params}
    (hreadable : Readable path entries)
    (hkeys : entries.Pairwise fun first second => first.1 ≠ second.1)
    (hshort : (firstLine .post (path ++ queryText entries)).length ≤ uriMaxLength)
    (after : Bytes) :
    req.parseLine (firstLine .post (path ++ queryText entries) ++ CRLF ++ after) =
      some (req.posted path entries, after, .ok) := by
  have hblank : SP ∉ path ++ queryText entries := by
    intro hmem
    rcases List.mem_append.mp hmem with hin | hin
    · exact hreadable.noBlank hin
    · exact (queryText_free entries SP hin).1 rfl
  exact parseLine_firstLine hblank (firstLine_no_crlf .post hreadable.oneLine entries) hshort
    (parseTarget_written { req with reqMethod := .post } hidle.path hidle.params hreadable hkeys)
    after

/-- Headers that a caller sets, which leave the body and the host to the request. -/
structure Settable (lines : List HeaderLine) : Prop where
  distinct : DistinctNames lines
  noLength : ∀ line ∈ lines, toLower line.name ≠ toLower (ascii "Content-Length")
  noEncoding : ∀ line ∈ lines, toLower line.name ≠ toLower (ascii "Transfer-Encoding")
  noHost : ∀ line ∈ lines, toLower line.name ≠ toLower (ascii "Host")

-- A header map in the order in which it is written, and the line of the request.
variable {headers : Headers} {past : List Record} {req : Request} {path body text : Bytes}
  {entries : Params}

theorem Settable.unique (hset : Settable lines) (hperm : headers.Perm (writtenHeaders lines host)) :
    DistinctEntries headers :=
  hperm.symm.pairwise (distinct_written hset.distinct hset.noHost host) fun hne => hne.symm

theorem Settable.find_host (hset : Settable lines)
    (hperm : headers.Perm (writtenHeaders lines host)) :
    headers.find (ascii "Host") = some host :=
  find_of_mem (hset.unique hperm) (hperm.symm.subset (List.mem_append_right _ List.mem_cons_self)) rfl

theorem Settable.count_host (hset : Settable lines)
    (hperm : headers.Perm (writtenHeaders lines host)) : headers.count (ascii "Host") = true := by
  rw [Headers.count, hset.find_host hperm]
  rfl

theorem Settable.find_line (hset : Settable lines)
    (hperm : headers.Perm (writtenHeaders lines host)) {line : HeaderLine} (hline : line ∈ lines) :
    headers.find line.name = some line.value :=
  find_of_mem (hset.unique hperm)
    (hperm.symm.subset (List.mem_append_left _ (List.mem_map_of_mem hline))) rfl

theorem Settable.find_set (hset : Settable lines)
    (hperm : headers.Perm (writtenHeaders lines host)) {field : Bytes}
    (hfield : toLower (ascii "Host") ≠ toLower field) :
    headers.find field = (headerMap lines).find field :=
  (find_perm hperm (hset.unique hperm) field).trans (find_written hfield)

theorem Settable.expectCode_eq (hset : Settable lines)
    (hperm : headers.Perm (writtenHeaders lines host)) :
    expectCode headers = expectCode (headerMap lines) := by
  rw [expectCode, expectCode, hset.find_set hperm (by decide)]

theorem Settable.exists_fields (hset : Settable lines)
    (hperm : headers.Perm (writtenHeaders lines host)) (hclean : CleanValue host) :
    ∃ fields, renderFields fields = headers.flatMap (fun entry => formatHeader entry.1 entry.2) ∧
      Headers.enterAll [] fields = headers := by
  have hsendable : ∀ entry ∈ headers, Sendable entry :=
    fun entry hentry => sendable_written hclean entry (hperm.subset hentry)
  exact Http.exists_fields hsendable [] (hset.unique hperm)

theorem bodyless_post (hidle : req.Idle) (hreadable : Readable path entries)
    (hkeys : entries.Pairwise fun first second => first.1 ≠ second.1) (hset : Settable lines)
    {fields : List FieldLine}
    (hperm : (Headers.enterAll [] fields).Perm (writtenHeaders lines host))
    (hexpected : expectCode (headerMap lines) ≠ .failed)
    (hshort : (firstLine .post (path ++ queryText entries)).length ≤ uriMaxLength) :
    Bodyless req (req.posted path entries) (firstLine .post (path ++ queryText entries)) fields where
  state := hidle.state
  oneLine := firstLine_no_crlf .post hreadable.oneLine entries
  read := read_post hidle hreadable hkeys hshort
  noHeaders := hidle.headers
  noBody := hidle.body
  host := hset.count_host hperm
  expected := (hset.expectCode_eq hperm).symm ▸ hexpected
  noEncoding := (hset.find_set hperm (by decide)).trans (find_headerMap_none.mpr hset.noEncoding)
  noLength := (hset.find_set hperm (by decide)).trans (find_headerMap_none.mpr hset.noLength)

private theorem deliverable_of_run (hidle : req.Idle) (hreadable : Readable path entries)
    (hkeys : entries.Pairwise fun first second => first.1 ≠ second.1) (hset : Settable lines)
    (hperm : headers.Perm (writtenHeaders lines host))
    (hwritten : text = firstLine .post (path ++ queryText entries) ++ CRLF ++
      (headers.flatMap (fun entry => formatHeader entry.1 entry.2) ++ CRLF))
    {record : Record} {req' : Request}
    (hrun : run recorder.receive (some ⟨⟨past, true⟩, req, []⟩) [text] =
      some ⟨⟨past ++ [record], true⟩, req', []⟩)
    (hhost : record.headers.find (ascii "Host") = some host) (hbody : record.body = body) :
    Deliverable (path ++ queryText entries) host lines body := by
  have hclean : CleanValue host := clean_of_run hidle.headers hrun hhost
  obtain ⟨fields, hrender, rfl⟩ := hset.exists_fields hperm hclean
  rw [← hrender] at hwritten
  subst hwritten
  have hshort : (firstLine .post (path ++ queryText entries)).length ≤ uriMaxLength :=
    short_of_run hidle.state (firstLine_no_crlf .post hreadable.oneLine entries) hrun rfl
  have hexpected : expectCode (headerMap lines) ≠ .failed := by
    rw [← hset.expectCode_eq hperm]
    exact expected_of_run hidle.state (read_post hidle hreadable hkeys hshort) hidle.headers
      (hset.count_host hperm) hrun (by simp)
  obtain ⟨_, hdone⟩ := bodyless_run
    (bodyless_post hidle hreadable hkeys hset hperm hexpected hshort) List.flatten_singleton
  rw [hrun] at hdone
  have hsame : record = ((req.posted path entries).entered fields).record := by
    have hrequests := congrArg (Option.map fun s => s.env.requests) hdone
    simpa using hrequests
  refine ⟨?_, hclean, hexpected, hshort⟩
  rw [← hbody, hsame]
  exact hidle.body

private theorem post_delivered_of_written (hidle : req.Idle) (hreadable : Readable path entries)
    (hkeys : entries.Pairwise fun first second => first.1 ≠ second.1) (hset : Settable lines)
    (hperm : headers.Perm (writtenHeaders lines host))
    (hwritten : text = firstLine .post (path ++ queryText entries) ++ CRLF ++
      (headers.flatMap (fun entry => formatHeader entry.1 entry.2) ++ CRLF)) :
    Delivers past req text lines host body ↔
      Deliverable (path ++ queryText entries) host lines body := by
  constructor
  · intro hdelivers
    obtain ⟨record, req', hrun, -, hhost, hbody⟩ := hdelivers [text] List.flatten_singleton
    exact deliverable_of_run hidle hreadable hkeys hset hperm hwritten hrun hhost hbody
  · rintro ⟨rfl, hclean, hexpected, hshort⟩ segments hsegments
    obtain ⟨fields, hrender, rfl⟩ := hset.exists_fields hperm hclean
    rw [← hrender] at hwritten
    obtain ⟨req', hdone⟩ := bodyless_run
      (bodyless_post hidle hreadable hkeys hset hperm hexpected hshort) (hsegments.trans hwritten)
    exact ⟨_, req', hdone, fun line hline => hset.find_line hperm hline, hset.find_host hperm,
      hidle.body⟩

end Post

/-- A POST gets through exactly when its body is empty, `Host` has a value that
comes back, no expectation is refused and the line is not too long. -/
theorem post_delivered_iff (paramOrder : Params → Params)
    (hparamOrder : ∀ params, (paramOrder params).Perm params) (order : Headers → Headers)
    (horder : ∀ headers, (order headers).Perm headers) (client : HttpRequest) (url : Bytes)
    (uri : Uri) (hurl : Uri.parse url = some (uri, true)) (params : Params)
    (hkeys : params.Pairwise fun first second => first.1 ≠ second.1) (lines : List HeaderLine)
    (hdistinct : DistinctNames lines)
    (hlength : ∀ line ∈ lines, toLower line.name ≠ toLower (ascii "Content-Length"))
    (hencoding : ∀ line ∈ lines, toLower line.name ≠ toLower (ascii "Transfer-Encoding"))
    (hnames : ∀ line ∈ lines, toLower line.name ≠ toLower (ascii "Host")) (body : Bytes)
    (hpath : Readable uri.path params) (text : Bytes)
    (htext : postText paramOrder order client url params (headerMap lines) body = some text)
    (past : List Record) (req : Request) (hidle : req.Idle) :
    Delivers past req text lines uri.host body ↔
      Deliverable (uri.path ++ queryText (paramOrder params)) uri.host lines body := by
  have hnil : paramOrder params = [] ↔ params = [] := by
    rw [← List.length_eq_zero_iff, (hparamOrder params).length_eq, List.length_eq_zero_iff]
  have hreadable : Readable uri.path (paramOrder params) :=
    ⟨hpath.noBlank, hpath.noEscape, hpath.noQuestion, hpath.oneLine, hpath.noHash.imp_left hnil.mpr⟩
  have hkeys' := (hparamOrder params).symm.pairwise hkeys fun hne => hne.symm
  have hwritten : text = firstLine .post (uri.path ++ queryText (paramOrder params)) ++ CRLF ++
      ((order (writtenHeaders lines uri.host)).flatMap
        (fun entry => formatHeader entry.1 entry.2) ++ CRLF) := by
    simp only [postText, HttpRequest.setUrl, hurl, Option.map_some, Option.some.injEq] at htext
    rw [← htext, HttpRequest.str]
    dsimp only
    rw [target_eq paramOrder _ (hparamOrder _)]
    simp [firstLine, Method.text, HttpRequest.post, HttpRequest.setParams, HttpRequest.setHeaders,
      HttpRequest.setBody, set_host hnames]
  have hset : Settable lines := ⟨hdistinct, hlength, hencoding, hnames⟩
  exact post_delivered_of_written hidle hreadable hkeys' hset (horder _) hwritten

/-- A POST with one header and no body. -/
def plainPost : Bytes := ascii "POST /p HTTP/1.1\r\nContent-Type: text/html\r\nHost: h\r\n\r\n"

theorem post_delivered_plain : Delivers [] .init plainPost [.html] (ascii "h") [] :=
  (post_delivered_iff id (fun _ => List.Perm.refl _) id (fun _ => List.Perm.refl _) .init
    (ascii "http://h/p") ⟨ascii "http", ascii "h", 80, ascii "/p", [], []⟩ (by decide +kernel) []
    .nil [.html] (List.pairwise_singleton _ _) (by decide) (by decide) (by decide) []
    ⟨by decide, by decide, by decide, by decide, Or.inl rfl⟩ plainPost (by decide +kernel) [] .init
    ⟨rfl, rfl, rfl, rfl, rfl, rfl⟩).mpr
    ⟨rfl, ⟨by decide, by decide, by decide⟩, by decide, by decide⟩

/-- The same text is written for a body of one byte, which does not arrive. -/
theorem post_body_dropped :
    postText id id .init (ascii "http://h/p") [] (headerMap [.html]) (ascii "x") = some plainPost ∧
      ¬ Delivers [] .init plainPost [.html] (ascii "h") (ascii "x") := by
  refine ⟨by decide +kernel, fun hdelivers => ?_⟩
  obtain ⟨record, req', hrun, -, -, hbody⟩ := hdelivers [plainPost] (List.append_nil _)
  have hbodies : (run recorder.receive (some ⟨⟨[], true⟩, .init, []⟩) [plainPost]).map
      (fun s => s.env.requests.map Record.body) = some [[]] := by
    decide +kernel
  rw [hrun, Option.map_some] at hbodies
  have hempty : [record.body] = [[]] := Option.some.inj hbodies
  rw [hbody] at hempty
  exact absurd hempty (by decide)

end Angel.Http
