import Angel.Http.Delivery
import Angel.Http.Leftover

/-!
A reused client connection against a fresh one. Of the members that survive a
delivery, `length` is overwritten before it is read; the status members are
overwritten by every status line with a supported version; `err_code`,
`chunked`, `chunk_size` and the bytes behind the response are not.
-/

namespace Angel.Http

open Util Buffer Lib

def Message.withLength (m : Message) (n : Nat) : Message := { m with length := n }

theorem parseHeader_withLength (m : Message) (n : Nat) (buf : Bytes) :
    (m.withLength n).parseHeader buf =
      (m.parseHeader buf).map fun p => (p.1.withLength n, p.2) := by
  have hsame : (m.withLength n).headers = m.headers := rfl
  rw [parseHeader_frame hsame.symm buf]
  cases hparse : m.parseHeader buf with
  | none => rfl
  | some p =>
      obtain ⟨m', left, code⟩ := p
      have hlength : ({ m.withLength n with headers := m'.headers } : Message) =
          m'.withLength n := by
        rw [parseHeader_headers hparse]
        rfl
      simp only [Option.map_some, hlength]

/-- The outcome of a body parser that leaves the coding of the body alone until
the body is complete. -/
def KeepsChunked (r : Parsed) : Prop :=
  ∀ m buf, r = some (m, buf, .continue) → m.chunked = true

/-- Two chunk parsers that differ in `length`. -/
def ChunkAlike (n : Nat) (s s' : Message × Bytes) : Prop :=
  s.1.chunked = true ∧ s' = (s.1.withLength n, s.2)

def ParsedAlike (n : Nat) (r r' : Parsed) : Prop :=
  KeepsChunked r ∧ r' = r.map fun p => (p.1.withLength n, p.2)

theorem keepsChunked_of {m : Message} (h : m.chunked = true) (buf : Bytes) (code : StatusCode) :
    KeepsChunked (some (m, buf, code)) := by
  intro m' buf' heq
  obtain ⟨rfl, -⟩ := Prod.mk.inj (Option.some.inj heq)
  exact h

private theorem chunkData_alike {m : Message} (hchunked : m.chunked = true) (n : Nat)
    (buf : Bytes) :
    PassRel (ChunkAlike n) (ParsedAlike n) (chunkData m buf)
      (chunkData (m.withLength n) buf) := by
  have hdone : ∀ body buf size code, ParsedAlike n
      (some ({ m with body := body, chunkSize := size }, buf, code))
      (some ({ m.withLength n with body := body, chunkSize := size }, buf, code)) :=
    fun _ _ _ _ => ⟨keepsChunked_of (by exact hchunked) _ _, rfl⟩
  unfold chunkData
  apply PassRel.ite Iff.rfl
  · intro _
    apply PassRel.ite Iff.rfl
    · intro _
      exact .done (hdone m.body buf m.chunkSize _)
    · intro _
      apply PassRel.ite Iff.rfl
      · intro _
        exact .again ⟨hchunked, rfl⟩
      · intro _
        exact .done (hdone _ _ m.chunkSize _)
  · intro _
    exact .done (hdone _ _ _ _)

private theorem chunkTrailer_alike {m : Message} (hchunked : m.chunked = true) (n : Nat)
    (buf : Bytes) :
    PassRel (ChunkAlike n) (ParsedAlike n) (chunkTrailer m buf)
      (chunkTrailer (m.withLength n) buf) := by
  unfold chunkTrailer
  rw [parseHeader_withLength]
  cases hparse : m.parseHeader buf with
  | none => exact .done ⟨by rintro _ _ ⟨⟩, rfl⟩
  | some p =>
      obtain ⟨m', buf', code⟩ := p
      have hkeeps : m'.chunked = true := by
        rw [parseHeader_headers hparse]
        exact hchunked
      rw [Option.map_some]
      cases code with
      | ok =>
          apply PassRel.done
          refine ⟨?_, rfl⟩
          intro _ _ heq
          cases (Prod.mk.inj (Prod.mk.inj (Option.some.inj heq)).2).2
      | _ => exact .done ⟨keepsChunked_of hkeeps _ _, rfl⟩

private theorem chunkPass_alike {n : Nat} {s s' : Message × Bytes} (h : ChunkAlike n s s') :
    PassRel (ChunkAlike n) (ParsedAlike n) (chunkPass s) (chunkPass s') := by
  obtain ⟨m, buf⟩ := s
  obtain ⟨hchunked, rfl⟩ := h
  have hdone : ∀ buf size code, ParsedAlike n (some ({ m with chunkSize := size }, buf, code))
      (some ({ m.withLength n with chunkSize := size }, buf, code)) :=
    fun _ _ _ => ⟨keepsChunked_of (by exact hchunked) _ _, rfl⟩
  unfold chunkPass
  apply PassRel.ite Iff.rfl
  · intro _
    exact .done (hdone buf m.chunkSize _)
  intro _
  apply PassRel.ite Iff.rfl
  · intro _
    -- a size line
    dsimp only
    cases findCrlf buf with
    | none => exact .done (hdone buf m.chunkSize _)
    | some crlf =>
        apply PassRel.ite Iff.rfl
        · intro _
          exact .done (hdone buf m.chunkSize _)
        intro _
        apply PassRel.ite Iff.rfl
        · intro _
          exact .done (hdone _ _ _)
        intro _
        apply PassRel.ite Iff.rfl
        · intro _
          exact .again ⟨hchunked, rfl⟩
        · intro _
          exact chunkData_alike
            (m := { m with chunkSize := fromHexStr (buf.take crlf) }) hchunked n _
  intro _
  apply PassRel.ite Iff.rfl
  · intro _
    exact chunkTrailer_alike hchunked n buf
  · intro _
    exact chunkData_alike hchunked n buf

theorem parseBodyByChunked_withLength {m : Message} (hchunked : m.chunked = true) (n : Nat)
    (buf : Bytes) :
    ParsedAlike n (m.parseBodyByChunked buf) ((m.withLength n).parseBodyByChunked buf) := by
  have hstart : ChunkAlike n (m, buf) (m.withLength n, buf) := ⟨hchunked, rfl⟩
  apply rel_join
  · exact ⟨by rintro _ _ ⟨⟩, rfl⟩
  · exact loop_simulation (fun _ _ => chunkPass_alike) (buf.length + 1) hstart

/-- `parse_body_length` never reads the length that was there before, and
overwrites it for a body of announced length. -/
theorem parseBodyLength_withLength (m : Message) (n : Nat) :
    (m.parseBodyLength = ({ m with chunked := true }, .ok) ∧
      (m.withLength n).parseBodyLength =
        (Message.withLength { m with chunked := true } n, .ok)) ∨
    (∃ code, code ≠ .ok ∧ m.parseBodyLength = (m, code) ∧
      (m.withLength n).parseBodyLength = (m.withLength n, code)) ∨
    (∃ k code, m.parseBodyLength = ({ m with length := k }, code) ∧
      (m.withLength n).parseBodyLength = ({ m with length := k }, code)) := by
  have hheaders : (m.withLength n).headers = m.headers := rfl
  unfold Message.parseBodyLength
  rw [hheaders]
  by_cases hchunked : m.headers.find (ascii "Transfer-Encoding") = some (ascii "chunked")
  · left
    rw [if_pos hchunked, if_pos hchunked]
    exact ⟨rfl, rfl⟩
  rw [if_neg hchunked, if_neg hchunked]
  right
  cases m.headers.find (ascii "Content-Length") with
  | none => exact Or.inl ⟨.continue, by decide, rfl, rfl⟩
  | some value =>
      dsimp only
      by_cases hvalue : (svtoll value).getD (-1) < 0
      · left
        rw [if_pos hvalue, if_pos hvalue]
        exact ⟨.badRequest, by decide, rfl, rfl⟩
      · right
        rw [if_neg hvalue, if_neg hvalue]
        exact ⟨_, _, rfl, rfl⟩

/-- What a requester sees of a response. -/
structure Delivery where
  status : Int
  headers : Headers
  body : Bytes
  errCode : ErrorCode
  deriving DecidableEq, Repr

def HttpResponse.delivery (res : HttpResponse) : Delivery where
  status := res.statusCode
  headers := res.message.headers
  body := res.message.body
  errCode := res.errCode

def HttpResponse.withLength (res : HttpResponse) (n : Nat) : HttpResponse :=
  { res with message := res.message.withLength n }

/-- The first line of the stream, once it is complete, has a version the
client supports. -/
def VersionSupported (stream : Bytes) : Prop :=
  ∀ crlf, findCrlf stream = some crlf →
    let line := stream.take crlf
    line.take (line.idxOf SP) = ascii "HTTP/1.1" ∨ line.take (line.idxOf SP) = ascii "HTTP/1.0"

theorem versionSupported_front {buf rest : Bytes} (h : VersionSupported (buf ++ rest)) :
    VersionSupported buf := by
  intro crlf hcrlf
  obtain ⟨hfind, htake⟩ := findCrlf_append hcrlf rest
  have hline := h crlf hfind
  rwa [htake] at hline

/-- With a supported version the status line overwrites every status member
that the outcome shows. -/
theorem parseLine_supported {buf : Bytes} (h : VersionSupported buf) :
    (∀ res : HttpResponse, res.parseLine buf = some (res, buf, .continue)) ∨
    (∀ res : HttpResponse, res.parseLine buf = none) ∨
    (∃ version status, ∀ res : HttpResponse, res.parseLine buf =
      some ({ res with httpVersion := version, statusCode := status }, buf, .badRequest)) ∨
    (∃ version status reason left, ∀ res : HttpResponse, res.parseLine buf =
      some ({ res with
        httpVersion := version
        statusCode := status
        statusMessage := reason }, left, .ok)) := by
  cases hcrlf : findCrlf buf with
  | none =>
      left
      intro res
      rw [HttpResponse.parseLine, hcrlf]
  | some crlf =>
      right
      let line := buf.take crlf
      let code := line.drop (line.idxOf SP + 1)
      have hversion : ¬ (line.take (line.idxOf SP) ≠ ascii "HTTP/1.1" ∧
          line.take (line.idxOf SP) ≠ ascii "HTTP/1.0") := by
        rintro ⟨hnot11, hnot10⟩
        exact (h crlf hcrlf).elim hnot11 hnot10
      by_cases hblank : line.idxOf SP = line.length
      · left
        intro res
        rw [HttpResponse.parseLine, hcrlf]
        dsimp only
        rw [if_neg hversion, if_pos hblank]
      by_cases hstatus : (svtoi (code.take (code.idxOf SP))).getD 0 ≤ 0
      · right
        left
        refine ⟨if line.take (line.idxOf SP) = ascii "HTTP/1.1" then .http11 else .http10,
          (svtoi (code.take (code.idxOf SP))).getD 0, fun res => ?_⟩
        rw [HttpResponse.parseLine, hcrlf]
        dsimp only
        rw [if_neg hversion, if_neg hblank, if_pos hstatus]
      by_cases hreason : code.idxOf SP = code.length
      · left
        intro res
        rw [HttpResponse.parseLine, hcrlf]
        dsimp only
        rw [if_neg hversion, if_neg hblank, if_neg hstatus, if_pos hreason]
      · right
        right
        refine ⟨if line.take (line.idxOf SP) = ascii "HTTP/1.1" then .http11 else .http10,
          (svtoi (code.take (code.idxOf SP))).getD 0, code.drop (code.idxOf SP + 1),
          buf.drop (crlf + 2), fun res => ?_⟩
        rw [HttpResponse.parseLine, hcrlf]
        dsimp only
        rw [if_neg hversion, if_neg hblank, if_neg hstatus, if_neg hreason]

section Simulation

variable (rest : Bytes)

/-- Two response objects in the same place of the same stream, of which `rest`
is still to come. They differ in what is overwritten before it is read. -/
inductive ResponseAlike : HttpResponse × Bytes → HttpResponse × Bytes → Prop where
  | line {res res' : HttpResponse} {buf : Bytes} (hidle : res.Idle) (hidle' : res'.Idle)
      (hversion : VersionSupported (buf ++ rest)) : ResponseAlike (res, buf) (res', buf)
  | header {res : HttpResponse} {buf : Bytes} (n : Nat) (hstate : res.state = .parseHeader) :
      ResponseAlike (res, buf) (res.withLength n, buf)
  | same {res : HttpResponse} {buf : Bytes} (hstate : res.state = .parseBody) :
      ResponseAlike (res, buf) (res, buf)
  | chunked {res : HttpResponse} {buf : Bytes} (n : Nat) (hstate : res.state = .parseBody)
      (hchunked : res.message.chunked = true) : ResponseAlike (res, buf) (res.withLength n, buf)

/-- Two calls of `receive` that leave their loops alike. -/
inductive ReceivedAlike : Received → Received → Prop where
  | undefined : ReceivedAlike none none
  | waits {res res' : HttpResponse} {buf : Bytes} (h : ResponseAlike rest (res, buf) (res', buf)) :
      ReceivedAlike (some (res, buf, false)) (some (res', buf, false))
  | delivered {res res' : HttpResponse} {buf : Bytes} (h : res.delivery = res'.delivery) :
      ReceivedAlike (some (res, buf, true)) (some (res', buf, true))

variable {rest}

/-- A supported version makes the status line independent of what the response
held before. -/
theorem linePass_alike {res res' : HttpResponse} {buf : Bytes} (hidle : res.Idle)
    (hidle' : res'.Idle) (hversion : VersionSupported (buf ++ rest)) :
    PassRel (ResponseAlike rest) (ReceivedAlike rest) (res.linePass buf) (res'.linePass buf) := by
  unfold HttpResponse.linePass
  rcases parseLine_supported (versionSupported_front hversion) with
    hparse | hparse | ⟨version, status, hparse⟩ | ⟨version, status, reason, left, hparse⟩
  · rw [hparse, hparse]
    exact .done (.waits (.line hidle hidle' hversion))
  · rw [hparse, hparse]
    exact .done .undefined
  · rw [hparse, hparse]
    apply PassRel.done
    apply ReceivedAlike.delivered
    simp only [HttpResponse.delivery, hidle.headers, hidle'.headers, hidle.body, hidle'.body]
  · rw [hparse, hparse]
    apply PassRel.again
    -- the objects now differ in the stale length only
    have hsame : ({ res' with
        httpVersion := version
        statusCode := status
        statusMessage := reason
        state := .parseHeader } : HttpResponse) =
        HttpResponse.withLength { res with
          httpVersion := version
          statusCode := status
          statusMessage := reason
          state := .parseHeader } res'.message.length := by
      obtain ⟨⟨headers, body, length, chunked, chunkSize⟩, _, _, _, _, _⟩ := res
      obtain ⟨⟨headers', body', length', chunked', chunkSize'⟩, _, _, _, _, _⟩ := res'
      obtain ⟨_, rfl, rfl, rfl, rfl, rfl⟩ := hidle
      obtain ⟨_, rfl, rfl, rfl, rfl, rfl⟩ := hidle'
      rfl
    dsimp only
    rw [hsame]
    exact .header _ rfl

theorem headerPass_alike {res : HttpResponse} (hstate : res.state = .parseHeader) (n : Nat)
    (buf : Bytes) :
    PassRel (ResponseAlike rest) (ReceivedAlike rest) (res.headerPass buf)
      ((res.withLength n).headerPass buf) := by
  unfold HttpResponse.headerPass
  have hlength : (res.withLength n).message = res.message.withLength n := rfl
  rw [hlength, parseHeader_withLength]
  cases hparse : res.message.parseHeader buf with
  | none => exact .done .undefined
  | some p =>
      obtain ⟨m, left, code⟩ := p
      rw [Option.map_some]
      cases code with
      | ok =>
          dsimp only
          rcases parseBodyLength_withLength m n with
            ⟨hbody, hbody'⟩ | ⟨code, hcode, hbody, hbody'⟩ | ⟨k, code, hbody, hbody'⟩
          · rw [hbody, hbody']
            exact .again (.chunked n rfl rfl)
          · rw [hbody, hbody']
            cases code with
            | ok => exact absurd rfl hcode
            | _ => exact .done (.delivered rfl)
          · rw [hbody, hbody']
            cases code with
            | ok => exact .again (.same rfl)
            | _ => exact .done (.delivered rfl)
      | «continue» => exact .done (.waits (.header n hstate))
      | _ => exact .done (.delivered rfl)

private theorem bodyPass_same {res : HttpResponse} (hstate : res.state = .parseBody) (buf : Bytes) :
    PassRel (ResponseAlike rest) (ReceivedAlike rest) (res.bodyPass buf) (res.bodyPass buf) := by
  unfold HttpResponse.bodyPass
  cases res.message.parseBody buf with
  | none => exact .done .undefined
  | some p =>
      obtain ⟨m, left, code⟩ := p
      cases code with
      | «continue» => exact .done (.waits (.same hstate))
      | _ => exact .done (.delivered rfl)

private theorem bodyPass_alike {res : HttpResponse} (hstate : res.state = .parseBody)
    (hchunked : res.message.chunked = true) (n : Nat) (buf : Bytes) :
    PassRel (ResponseAlike rest) (ReceivedAlike rest) (res.bodyPass buf)
      ((res.withLength n).bodyPass buf) := by
  have hchunked' : (res.withLength n).message.chunked = true := hchunked
  obtain ⟨hkeeps, hparse⟩ := parseBodyByChunked_withLength hchunked n buf
  have hlength : (res.withLength n).message = res.message.withLength n := rfl
  unfold HttpResponse.bodyPass Message.parseBody
  rw [if_pos hchunked, if_pos hchunked', hlength, hparse]
  generalize hcall : res.message.parseBodyByChunked buf = r at hkeeps
  cases r with
  | none => exact .done .undefined
  | some p =>
      obtain ⟨m, left, code⟩ := p
      cases code with
      | «continue» => exact .done (.waits (.chunked n hstate (hkeeps m left rfl)))
      | _ => exact .done (.delivered rfl)

theorem pass_alike {s s' : HttpResponse × Bytes} (h : ResponseAlike rest s s') :
    PassRel (ResponseAlike rest) (ReceivedAlike rest) (HttpResponse.pass s)
      (HttpResponse.pass s') := by
  unfold HttpResponse.pass
  cases h with
  | line hidle hidle' hversion =>
      apply PassRel.ite Iff.rfl
      · intro _
        exact .done (.waits (.line hidle hidle' hversion))
      · intro _
        dsimp only
        rw [hidle.state, hidle'.state]
        exact linePass_alike hidle hidle' hversion
  | @header res buf n hstate =>
      have hstate' : (res.withLength n).state = .parseHeader := hstate
      apply PassRel.ite Iff.rfl
      · intro _
        exact .done (.waits (.header n hstate))
      · intro _
        dsimp only
        rw [hstate, hstate']
        exact headerPass_alike hstate n buf
  | @same res buf hstate =>
      apply PassRel.ite Iff.rfl
      · intro _
        exact .done (.waits (.same hstate))
      · intro _
        dsimp only
        rw [hstate]
        exact bodyPass_same hstate buf
  | @chunked res buf n hstate hchunked =>
      have hstate' : (res.withLength n).state = .parseBody := hstate
      apply PassRel.ite Iff.rfl
      · intro _
        exact .done (.waits (.chunked n hstate hchunked))
      · intro _
        dsimp only
        rw [hstate, hstate']
        exact bodyPass_alike hstate hchunked n buf

theorem ResponseAlike.buf_eq {s s' : HttpResponse × Bytes} (h : ResponseAlike rest s s') :
    s'.2 = s.2 := by
  cases h <;> rfl

theorem ResponseAlike.receive {seg : Bytes} {res res' : HttpResponse} {buf buf' : Bytes}
    (h : ResponseAlike (seg ++ rest) (res, buf) (res', buf')) :
    ResponseAlike rest (res, buf ++ seg) (res', buf' ++ seg) := by
  cases h with
  | line hidle hidle' hversion =>
      rw [← List.append_assoc] at hversion
      exact .line hidle hidle' hversion
  | header n hstate => exact .header n hstate
  | same hstate => exact .same hstate
  | chunked n hstate hchunked => exact .chunked n hstate hchunked

/-- Two connections that have received the same part of a stream, one of them
behind the deliveries `past`. -/
inductive ConnectionAlike (past : List Delivery) (rest : Bytes) :
    Option HttpConnection → Option HttpConnection → Prop where
  | undefined : ConnectionAlike past rest none none
  | leased {c d : HttpConnection} (hc : c.leased = true) (hd : d.leased = true)
      (hresults : c.results.map HttpResponse.delivery =
        past ++ d.results.map HttpResponse.delivery)
      (halike : ResponseAlike rest (c.response, c.buf) (d.response, d.buf)) :
      ConnectionAlike past rest (some c) (some d)
  | idle {c d : HttpConnection} (hc : c.leased = false) (hd : d.leased = false)
      (hresults : c.results.map HttpResponse.delivery =
        past ++ d.results.map HttpResponse.delivery) : ConnectionAlike past rest (some c) (some d)

private theorem arrives_alike {past : List Delivery} {seg : Bytes} {c d : Option HttpConnection}
    (h : ConnectionAlike past (seg ++ rest) c d) :
    ConnectionAlike past rest (HttpConnection.arrives c seg) (HttpConnection.arrives d seg) := by
  cases h with
  | undefined => exact .undefined
  | @idle c d hc hd hresults =>
      change ConnectionAlike past rest (c.receive seg) (d.receive seg)
      rw [HttpConnection.receive, HttpConnection.receive, hc, hd]
      exact .idle rfl rfl hresults
  | @leased c d hc hd hresults halike =>
      have hbuf : d.buf = c.buf := halike.buf_eq
      have hrel : ReceivedAlike rest
          (loop HttpResponse.pass ((c.buf ++ seg).length + 1) (c.response, c.buf ++ seg)).join
          (loop HttpResponse.pass ((c.buf ++ seg).length + 1) (d.response, d.buf ++ seg)).join :=
        rel_join .undefined (loop_simulation (fun _ _ => pass_alike) _ halike.receive)
      change ConnectionAlike past rest (c.receive seg) (d.receive seg)
      rw [HttpConnection.receive, HttpConnection.receive, hc, hd, if_neg (by simp),
        if_neg (by simp)]
      rw [hbuf] at hrel ⊢
      dsimp only
      generalize (loop HttpResponse.pass ((c.buf ++ seg).length + 1)
        (c.response, c.buf ++ seg)).join = r at hrel
      generalize (loop HttpResponse.pass ((c.buf ++ seg).length + 1)
        (d.response, c.buf ++ seg)).join = r' at hrel
      cases hrel with
      | undefined => exact .undefined
      | waits halike' => exact .leased rfl rfl hresults halike'
      | delivered hsame =>
          refine .idle rfl rfl ?_
          simp only [List.map_append, List.map_cons, List.map_nil, hresults, hsame,
            List.append_assoc]

theorem arrivals_alike {past : List Delivery} {segments : List Bytes}
    {c d : Option HttpConnection} (h : ConnectionAlike past segments.flatten c d) :
    ConnectionAlike past [] (run HttpConnection.arrives c segments)
      (run HttpConnection.arrives d segments) := by
  induction segments generalizing c d with
  | nil => exact h
  | cons seg segments ih =>
      apply ih
      apply arrives_alike
      simpa using h

end Simulation

/-- One request: the connection is leased and the segments of its response
arrive. -/
def HttpConnection.exchange (c : Option HttpConnection) (segments : List Bytes) :
    Option HttpConnection :=
  run HttpConnection.arrives (c.map HttpConnection.lease) segments

/-- What the requesters of a connection have been given. -/
def HttpConnection.deliveries (c : Option HttpConnection) : Option (List Delivery) :=
  c.map fun c => c.results.map HttpResponse.delivery

/-- What a fresh connection delivers for one stream. -/
def freshDeliveries (segments : List Bytes) : Option (List Delivery) :=
  HttpConnection.deliveries (HttpConnection.exchange (some .create) segments)

/-- A complete response and nothing behind it, in segments of which none ends
with the data of a chunk of at least two bytes. -/
def CleanResponse (segments : List Bytes) : Prop :=
  ∃ w : WireResponse, segments.flatten = w.encode ∧
    ∀ front back, segments = front ++ back → ¬ w.BehindData back.flatten

/-- A connection in the pool with nothing left of an earlier response but the
status members and the length. -/
structure HttpConnection.Pooled (c : HttpConnection) : Prop where
  idle : c.response.Idle
  buf : c.buf = []

theorem HttpConnection.Pooled.lease_ready {c : HttpConnection} (h : c.Pooled) : c.lease.Ready where
  leased := rfl
  idle := h.idle
  buf := h.buf

theorem HttpConnection.create_pooled : HttpConnection.create.Pooled where
  idle := HttpConnection.create_ready.idle
  buf := rfl

private theorem delivery_eq {w : WireResponse} {res res' : HttpResponse} (h : w.DeliveredAs res)
    (h' : w.DeliveredAs res') : res.delivery = res'.delivery := by
  simp only [HttpResponse.delivery, h.status, h'.status, h.headers, h'.headers, h.body, h'.body,
    h.errCode, h'.errCode]

private theorem exchange_delivered {segments : List Bytes} {w : WireResponse}
    (hsegments : segments.flatten = w.encode)
    (hclean : ∀ front back, segments = front ++ back → ¬ w.BehindData back.flatten)
    {c : HttpConnection} (hpooled : c.Pooled) :
    ∃ c' res, HttpConnection.exchange (some c) segments = some c' ∧ c'.Pooled ∧
      c'.results = c.results ++ [res] ∧ w.DeliveredAs res := by
  have hsplit : segments = segments ++ [] := (List.append_nil segments).symm
  have hawaits := response_awaits hpooled.lease_ready hsegments hclean hsplit
  change ConnectionAwaits w c.results (HttpConnection.exchange (some c) segments) [] at hawaits
  generalize HttpConnection.exchange (some c) segments = s at hawaits
  generalize hrest : ([] : Bytes) = rest at hawaits
  cases hawaits with
  | waiting c' _ hleased hresults hne _ => exact absurd hrest.symm hne
  | delivered c' res hleased hresults hresult hidle hbuf =>
      exact ⟨c', res, rfl, ⟨hidle, hbuf⟩, hresults, hresult⟩

/-- A clean exchange gives the requester what a fresh connection gives and
leaves the connection as good as new. -/
theorem exchange_clean {segments : List Bytes} (h : CleanResponse segments) {c : HttpConnection}
    (hpooled : c.Pooled) :
    ∃ c' delivery, HttpConnection.exchange (some c) segments = some c' ∧ c'.Pooled ∧
      c'.results.map HttpResponse.delivery =
        c.results.map HttpResponse.delivery ++ [delivery] ∧
      freshDeliveries segments = some [delivery] := by
  obtain ⟨w, hsegments, hclean⟩ := h
  obtain ⟨c', res, hrun, hpooled', hresults, hresult⟩ :=
    exchange_delivered hsegments hclean hpooled
  obtain ⟨d, res', hfresh, -, hresults', hresult'⟩ :=
    exchange_delivered hsegments hclean HttpConnection.create_pooled
  refine ⟨c', res.delivery, hrun, hpooled', ?_, ?_⟩
  · rw [hresults, List.map_append]
    rfl
  · rw [freshDeliveries, hfresh, delivery_eq hresult hresult']
    simp [HttpConnection.deliveries, hresults', HttpConnection.create]

private theorem exchanges_clean {past : List (List Bytes)}
    (h : ∀ stream ∈ past, CleanResponse stream)
    {c : HttpConnection} (hpooled : c.Pooled) :
    ∃ c' deliveries, run HttpConnection.exchange (some c) past = some c' ∧ c'.Pooled ∧
      c'.results.map HttpResponse.delivery =
        c.results.map HttpResponse.delivery ++ deliveries.flatten ∧
      past.mapM freshDeliveries = some deliveries := by
  induction past generalizing c with
  | nil => exact ⟨c, [], rfl, hpooled, by simp, rfl⟩
  | cons stream past ih =>
      obtain ⟨c₁, delivery, hrun₁, hpooled₁, hresults₁, hfresh₁⟩ :=
        exchange_clean (h stream List.mem_cons_self) hpooled
      obtain ⟨c₂, deliveries, hrun₂, hpooled₂, hresults₂, hfresh₂⟩ :=
        ih (fun s hs => h s (List.mem_cons_of_mem stream hs)) hpooled₁
      refine ⟨c₂, [delivery] :: deliveries, ?_, hpooled₂, ?_, ?_⟩
      · rw [run_cons, hrun₁, hrun₂]
      · rw [hresults₂, hresults₁]
        simp
      · simp [List.mapM_cons, hfresh₁, hfresh₂]

/-- In a run in which every earlier stream is a clean response, each requester
is given what a fresh connection gives, whatever the last stream is as long as
it names a supported version. -/
theorem reused_connection_isolated (past : List (List Bytes)) (last : List Bytes)
    (hpast : ∀ stream ∈ past, CleanResponse stream)
    (hlast : VersionSupported last.flatten) :
    HttpConnection.deliveries (run HttpConnection.exchange (some .create) (past ++ [last])) =
      ((past ++ [last]).mapM freshDeliveries).map List.flatten := by
  obtain ⟨c, deliveries, hrun, hpooled, hresults, hfresh⟩ :=
    exchanges_clean hpast HttpConnection.create_pooled
  have halike : ConnectionAlike deliveries.flatten []
      (HttpConnection.exchange (some c) last)
      (HttpConnection.exchange (some .create) last) := by
    apply arrivals_alike
    refine .leased rfl rfl ?_ ?_
    · change c.results.map HttpResponse.delivery = _
      rw [hresults]
      simp [HttpConnection.create, HttpConnection.lease]
    · change ResponseAlike last.flatten (c.response, c.buf)
        (HttpConnection.create.response, HttpConnection.create.buf)
      rw [hpooled.buf]
      exact .line hpooled.idle HttpConnection.create_pooled.idle hlast
  rw [run_append, hrun, run_cons, run_nil, List.mapM_append, hfresh]
  simp only [List.mapM_cons, List.mapM_nil, freshDeliveries]
  generalize HttpConnection.exchange (some c) last = s at halike
  generalize HttpConnection.exchange (some .create) last = d at halike
  cases halike with
  | undefined => rfl
  | leased hc hd hresults' _ => simp [HttpConnection.deliveries, hresults']
  | idle hc hd hresults' => simp [HttpConnection.deliveries, hresults']

/-- A response with a body of two bytes. -/
def WireResponse.greeting : WireResponse where
  version := .http11
  code := ascii "200"
  status := 200
  reason := ascii "OK"
  fields := [⟨ascii "Content-Length", ascii " 2", by decide, by decide⟩]
  body := .sized (ascii "hi")
  codeFree := by decide
  codeRead := by decide
  statusPositive := by decide
  oneLine := by decide
  framed := ⟨by decide, by decide, ascii "2", by decide, by decide⟩

/-- A response in two segments, then one with a length that is no number. -/
theorem reused_connection_isolated_malformed :
    HttpConnection.deliveries (run HttpConnection.exchange (some .create)
        ([[WireResponse.greeting.encode.take 20, WireResponse.greeting.encode.drop 20]] ++
          [[ascii "HTTP/1.1 404 Not Found\r\nContent-Length: x\r\n\r\n"]])) =
      (([[WireResponse.greeting.encode.take 20, WireResponse.greeting.encode.drop 20]] ++
        [[ascii "HTTP/1.1 404 Not Found\r\nContent-Length: x\r\n\r\n"]]).mapM
          freshDeliveries).map List.flatten := by
  apply reused_connection_isolated
  · intro stream hstream
    rw [List.mem_singleton.mp hstream]
    refine ⟨.greeting, by simp, ?_⟩
    rintro _ _ _ ⟨_, _, hkind, _⟩
    cases hkind
  · intro crlf hcrlf
    have hvalue : findCrlf ([ascii "HTTP/1.1 404 Not Found\r\nContent-Length: x\r\n\r\n"].flatten) =
        some 22 := by decide
    rw [hvalue] at hcrlf
    cases hcrlf
    decide

/-- After a malformed response, a correct one is delivered as an error. -/
theorem reused_connection_leaks :
    ¬ ∀ streams : List (List Bytes),
      HttpConnection.deliveries (run HttpConnection.exchange (some .create) streams) =
        (streams.mapM freshDeliveries).map List.flatten := by
  intro h
  have hleak := h [[ascii "HTTP/1.1 200 OK\r\nContent-Length: x\r\n\r\n"],
    [ascii "HTTP/1.1 200 OK\r\n\r\n"]]
  revert hleak
  decide

end Angel.Http
