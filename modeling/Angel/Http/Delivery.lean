import Angel.Http.Client

/-!
What `http_client::receive` delivers for a complete response: whatever the
segmentation, one result, when the last byte has arrived, and a response
object that is ready for the next lease.
-/

namespace Angel.Http

open Util Lib

/-- Nothing of a response has been read, and nothing is left of an earlier
one. -/
structure HttpResponse.Idle (res : HttpResponse) : Prop where
  state : res.state = .parseLine
  headers : res.message.headers = []
  body : res.message.body = []
  errCode : res.errCode = .none
  chunked : res.message.chunked = false
  chunkSize : res.message.chunkSize = -1

/-- The status line of `w` has been read. -/
structure HttpResponse.InResponse (res : HttpResponse) (w : WireResponse) : Prop where
  errCode : res.errCode = .none
  version : res.httpVersion = w.version
  status : res.statusCode = w.status
  reason : res.statusMessage = w.reason

/-- What is to come starts behind the data of a chunk of at least two bytes. -/
def WireResponse.BehindData (w : WireResponse) (rest : Bytes) : Prop :=
  ∃ chunks trailer, w.body = .chunked chunks trailer ∧ AtDataEnd chunks trailer rest

theorem parseBodyLength_empty {m : Message} (h : WireBody.empty.FramedBy m.headers) :
    ∃ n, m.parseBodyLength = ({ m with length := n }, .continue) := by
  obtain ⟨hchunked, hzero⟩ := h
  cases hlength : m.headers.find (ascii "Content-Length") with
  | none => exact ⟨m.length, parseBodyLength_none hchunked hlength⟩
  | some value =>
      exact ⟨0, parseBodyLength_some (n := 0) hchunked hlength (hzero value hlength)⟩

theorem parseBodyLength_sized {m : Message} {body : Bytes}
    (h : (WireBody.sized body).FramedBy m.headers) :
    m.parseBodyLength = ({ m with length := body.length }, .ok) := by
  obtain ⟨hchunked, hne, value, hlength, hvalue⟩ := h
  rw [parseBodyLength_some hchunked hlength hvalue, if_pos (List.length_pos_iff.mpr hne)]

theorem parseBodyLength_chunked {m : Message} {chunks : List Chunk} {trailer : List FieldLine}
    (h : (WireBody.chunked chunks trailer).FramedBy m.headers) :
    m.parseBodyLength = ({ m with chunked := true }, .ok) := by
  have hchunked : m.headers.find (ascii "Transfer-Encoding") = some (ascii "chunked") := h
  rw [Message.parseBodyLength, if_pos hchunked]

section Stream

variable (w : WireResponse)

/-- Where the parser stands in the response: `rest` is still to come. -/
inductive ResponseAwaits (res : HttpResponse) (buf rest : Bytes) : Prop where
  | line (hidle : res.Idle) (hstream : buf ++ rest = w.encode)
  | header (done todo : List FieldLine) (hstate : res.state = .parseHeader)
      (hline : res.InResponse w) (hfields : w.fields = done ++ todo)
      (hheaders : res.message.headers = Headers.enterAll [] done)
      (hbody : res.message.body = []) (hchunked : res.message.chunked = false)
      (hsize : res.message.chunkSize = -1)
      (hstream : buf ++ rest = renderFields todo ++ CRLF ++ w.body.encode)
  | sized (body got left : Bytes) (hkind : w.body = .sized body) (hstate : res.state = .parseBody)
      (hline : res.InResponse w) (hheaders : res.message.headers = Headers.enterAll [] w.fields)
      (hsplit : body = got ++ left) (hleft : left ≠ []) (hbody : res.message.body = got)
      (hlength : res.message.length = left.length) (hchunked : res.message.chunked = false)
      (hsize : res.message.chunkSize = -1) (hstream : buf ++ rest = left)
  | chunked (chunks : List Chunk) (trailer : List FieldLine)
      (hkind : w.body = .chunked chunks trailer) (hstate : res.state = .parseBody)
      (hline : res.InResponse w) (hchunked : res.message.chunked = true)
      (hawaits : ChunkAwaits chunks trailer (Headers.enterAll [] w.fields) res.message buf rest)

/-- How a call of `receive` ends in the middle of the response and at its end. -/
inductive ReceivedOutcome (rest : Bytes) : Received → Prop where
  | delivered (res : HttpResponse) (hrest : rest = []) (hresult : w.DeliveredAs res)
      (hchunked : res.message.chunked = false) (hsize : res.message.chunkSize = -1) :
      ReceivedOutcome rest (some (res, [], true))
  | waits (res : HttpResponse) (buf : Bytes) (hrest : rest ≠ [])
      (hawaits : ResponseAwaits w res buf rest) : ReceivedOutcome rest (some (res, buf, false))

/-- A pass goes on in the response or ends the call. -/
def ResponseProceeds (buf rest : Bytes) (p : Pass (HttpResponse × Bytes) Received) : Prop :=
  (∃ s', p = .again s' ∧ ResponseAwaits w s'.1 s'.2 rest ∧ s'.2.length < buf.length) ∨
    ∃ r, p = .done r ∧ ReceivedOutcome w rest r

variable {w}

theorem responseLine_proceeds {res : HttpResponse} {buf rest : Bytes} (hidle : res.Idle)
    (hstream : buf ++ rest = w.encode) : ResponseProceeds w buf rest (res.linePass buf) := by
  unfold HttpResponse.linePass
  rcases parseLine_response res w hstream with ⟨extra, hextra, hless, hparse⟩ | ⟨hne, hparse⟩
  · left
    rw [hparse]
    refine ⟨_, rfl, ?_, hless⟩
    exact .header [] w.fields rfl ⟨hidle.errCode, rfl, rfl, rfl⟩ rfl hidle.headers hidle.body
      hidle.chunked hidle.chunkSize hextra
  · right
    rw [hparse]
    exact ⟨_, rfl, .waits res buf hne (.line hidle hstream)⟩

theorem responseHeader_proceeds {res : HttpResponse} {buf rest : Bytes}
    {done todo : List FieldLine} (hstate : res.state = .parseHeader)
    (hline : res.InResponse w) (hfields : w.fields = done ++ todo)
    (hheaders : res.message.headers = Headers.enterAll [] done)
    (hbody : res.message.body = []) (hchunked : res.message.chunked = false)
    (hsize : res.message.chunkSize = -1)
    (hstream : buf ++ rest = renderFields todo ++ CRLF ++ w.body.encode) :
    ResponseProceeds w buf rest (res.headerPass buf) := by
  have hentered : ∀ fields, res.message.headers.enterAll fields =
      Headers.enterAll [] (done ++ fields) := by
    intro fields
    rw [hheaders, enterAll_append]
  unfold HttpResponse.headerPass
  rcases parseHeader_fields todo res.message hstream with
    ⟨extra, hextra, hshape, hparse⟩ | ⟨done', todo', left, htodo, _, hleft, hne, hparse⟩
  · have hless : extra.length < buf.length := by
      rw [hshape]
      simp only [List.length_append, CRLF, List.length_cons, List.length_nil]
      omega
    rw [hparse, hentered, ← hfields]
    have hframed := w.framed
    cases hkind : w.body with
    | empty =>
        -- no body: the response is complete with its header block
        right
        rw [hkind] at hframed hextra
        obtain ⟨rfl, rfl⟩ := List.append_eq_nil_iff.mp hextra
        obtain ⟨n, hlength⟩ := parseBodyLength_empty
          (m := { res.message with headers := Headers.enterAll [] w.fields }) hframed
        dsimp only
        rw [hlength]
        refine ⟨_, rfl, .delivered _ rfl ?_ hchunked hsize⟩
        exact ⟨hline.errCode, hline.version, hline.status, hline.reason, by rw [hkind]; rfl,
          by rw [hkind]; exact hbody⟩
    | sized body =>
        left
        rw [hkind] at hframed hextra
        have hlength := parseBodyLength_sized
          (m := { res.message with headers := Headers.enterAll [] w.fields }) hframed
        dsimp only
        rw [hlength]
        refine ⟨_, rfl, ?_, hless⟩
        exact .sized body [] body hkind rfl
          ⟨hline.errCode, hline.version, hline.status, hline.reason⟩ rfl rfl hframed.2.1 hbody rfl
          hchunked hsize hextra
    | chunked chunks trailer =>
        left
        rw [hkind] at hframed hextra
        have hlength := parseBodyLength_chunked
          (m := { res.message with headers := Headers.enterAll [] w.fields }) hframed
        dsimp only
        rw [hlength]
        refine ⟨_, rfl, ?_, hless⟩
        refine .chunked chunks trailer hkind rfl
          ⟨hline.errCode, hline.version, hline.status, hline.reason⟩ rfl ?_
        exact .size [] chunks rfl hsize hbody rfl hextra
  · right
    rw [hparse, hentered]
    refine ⟨_, rfl, .waits _ left hne ?_⟩
    exact .header (done ++ done') todo' hstate ⟨hline.errCode, hline.version, hline.status,
      hline.reason⟩ (by simp [hfields, htodo]) rfl hbody hchunked hsize hleft

theorem responseSized_proceeds {res : HttpResponse} {buf rest body got left : Bytes}
    (hkind : w.body = .sized body) (hstate : res.state = .parseBody) (hline : res.InResponse w)
    (hheaders : res.message.headers = Headers.enterAll [] w.fields) (hsplit : body = got ++ left)
    (hbody : res.message.body = got) (hlength : res.message.length = left.length)
    (hchunked : res.message.chunked = false) (hsize : res.message.chunkSize = -1)
    (hstream : buf ++ rest = left) :
    ResponseProceeds w buf rest (res.bodyPass buf) := by
  right
  have hlen := congrArg List.length hstream
  rw [List.length_append] at hlen
  unfold HttpResponse.bodyPass
  rw [Message.parseBody, hchunked, if_neg (by simp), Message.parseBodyByContentLength, hlength]
  by_cases hrest : rest = []
  · subst hrest
    have hbuf : buf = left := by simpa using hstream
    rw [hbuf, if_pos (Nat.le_refl _), List.take_length, List.drop_length]
    refine ⟨_, rfl, .delivered _ rfl ?_ hchunked hsize⟩
    refine ⟨hline.errCode, hline.version, hline.status, hline.reason, ?_, ?_⟩
    · rw [hkind]
      exact hheaders
    · change res.message.body ++ left = w.body.bytes
      rw [hkind, hbody, ← hsplit]
      rfl
  · have hpos := List.length_pos_iff.mpr hrest
    rw [if_neg (by omega)]
    refine ⟨_, rfl, .waits _ _ hrest ?_⟩
    refine .sized body (got ++ buf) rest hkind hstate
      ⟨hline.errCode, hline.version, hline.status, hline.reason⟩ hheaders ?_ hrest ?_ ?_ hchunked
      hsize rfl
    · rw [hsplit, ← hstream, List.append_assoc]
    · change res.message.body ++ buf = got ++ buf
      rw [hbody]
    · change left.length - buf.length = rest.length
      omega

private theorem responseChunked_proceeds {res : HttpResponse} {buf rest : Bytes}
    {chunks : List Chunk}
    {trailer : List FieldLine} (hkind : w.body = .chunked chunks trailer)
    (hstate : res.state = .parseBody) (hline : res.InResponse w)
    (hchunked : res.message.chunked = true)
    (hawaits : ChunkAwaits chunks trailer (Headers.enterAll [] w.fields) res.message buf rest)
    (hclean : ¬ w.BehindData rest) : ResponseProceeds w buf rest (res.bodyPass buf) := by
  right
  have hcall := parseBodyByChunked_outcome hchunked hawaits
  unfold HttpResponse.bodyPass
  rw [Message.parseBody, if_pos hchunked]
  generalize res.message.parseBodyByChunked buf = r at hcall
  cases hcall with
  | complete m hrest hbody hheaders hsize hchunked' =>
      refine ⟨_, rfl, .delivered _ hrest ?_ hchunked' hsize⟩
      refine ⟨hline.errCode, hline.version, hline.status, hline.reason, ?_, ?_⟩
      · rw [hkind]
        exact hheaders
      · rw [hkind]
        exact hbody
  | waits m buf' hrest hpos hchunked' hawaits' =>
      refine ⟨_, rfl, .waits _ _ hrest ?_⟩
      exact .chunked chunks trailer hkind hstate
        ⟨hline.errCode, hline.version, hline.status, hline.reason⟩ hchunked' hawaits'
  | misled m hpos => exact absurd ⟨chunks, trailer, hkind, hpos⟩ hclean

theorem ResponseAwaits.rest_ne_nil {res : HttpResponse} {rest : Bytes}
    (h : ResponseAwaits w res [] rest) : rest ≠ [] := by
  rintro rfl
  cases h with
  | line hidle hstream => simp [WireResponse.encode, CRLF] at hstream
  | header done todo hstate hline hfields hheaders hbody hchunked hsize hstream =>
      simp [CRLF] at hstream
  | sized body got left hkind hstate hline hheaders hsplit hleft hbody hlength hchunked hsize hstream =>
      exact hleft hstream.symm
  | chunked chunks trailer hkind hstate hline hchunked hawaits =>
      exact hawaits.waiting.1 rfl

theorem responsePass_proceeds {s : HttpResponse × Bytes} {rest : Bytes}
    (h : ResponseAwaits w s.1 s.2 rest) (hclean : ¬ w.BehindData rest) :
    ResponseProceeds w s.2 rest (HttpResponse.pass s) := by
  obtain ⟨res, buf⟩ := s
  unfold HttpResponse.pass
  by_cases hbuf : buf = []
  · subst hbuf
    rw [if_pos rfl]
    exact Or.inr ⟨_, rfl, .waits res [] h.rest_ne_nil h⟩
  rw [if_neg hbuf]
  cases h with
  | line hidle hstream =>
      rw [hidle.state]
      exact responseLine_proceeds hidle hstream
  | header done todo hstate hline hfields hheaders hbody hchunked hsize hstream =>
      rw [hstate]
      exact responseHeader_proceeds hstate hline hfields hheaders hbody hchunked hsize hstream
  | sized body got left hkind hstate hline hheaders hsplit hleft hbody hlength hchunked hsize hstream =>
      rw [hstate]
      exact responseSized_proceeds hkind hstate hline hheaders hsplit hbody hlength hchunked hsize
        hstream
  | chunked chunks trailer hkind hstate hline hchunked hawaits =>
      rw [hstate]
      exact responseChunked_proceeds hkind hstate hline hchunked hawaits hclean

theorem ResponseAwaits.receive {res : HttpResponse} {buf seg rest : Bytes}
    (h : ResponseAwaits w res buf (seg ++ rest)) : ResponseAwaits w res (buf ++ seg) rest := by
  cases h with
  | line hidle hstream => exact .line hidle (by simpa using hstream)
  | header done todo hstate hline hfields hheaders hbody hchunked hsize hstream =>
      exact .header done todo hstate hline hfields hheaders hbody hchunked hsize
        (by simpa using hstream)
  | sized body got left hkind hstate hline hheaders hsplit hleft hbody hlength hchunked hsize hstream =>
      exact .sized body got left hkind hstate hline hheaders hsplit hleft hbody hlength hchunked
        hsize (by simpa using hstream)
  | chunked chunks trailer hkind hstate hline hchunked hawaits =>
      exact .chunked chunks trailer hkind hstate hline hchunked hawaits.receive

/-- A connection in the middle of the response, or after its delivery. -/
inductive ConnectionAwaits (w : WireResponse) (past : List HttpResponse) :
    Option HttpConnection → Bytes → Prop where
  | waiting (c : HttpConnection) (rest : Bytes) (hleased : c.leased = true)
      (hresults : c.results = past) (hrest : rest ≠ [])
      (hawaits : ResponseAwaits w c.response c.buf rest) : ConnectionAwaits w past (some c) rest
  | delivered (c : HttpConnection) (res : HttpResponse) (hleased : c.leased = false)
      (hresults : c.results = past ++ [res]) (hresult : w.DeliveredAs res)
      (hidle : c.response.Idle) (hbuf : c.buf = []) : ConnectionAwaits w past (some c) []

theorem HttpResponse.moved_idle {res : HttpResponse} (herr : res.errCode = .none)
    (hchunked : res.message.chunked = false) (hsize : res.message.chunkSize = -1) :
    res.moved.Idle where
  state := rfl
  headers := rfl
  body := rfl
  errCode := herr
  chunked := hchunked
  chunkSize := hsize

theorem arrives_awaits {past : List HttpResponse} {c : Option HttpConnection} {seg rest : Bytes}
    (hclean : ¬ w.BehindData rest) (h : ConnectionAwaits w past c (seg ++ rest)) :
    ConnectionAwaits w past (HttpConnection.arrives c seg) rest := by
  generalize htotal : seg ++ rest = total at h
  cases h with
  | waiting c _ hleased hresults hrest hawaits =>
      subst htotal
      have hpass : ∀ s : HttpResponse × Bytes, ResponseAwaits w s.1 s.2 rest →
          ResponseProceeds w s.2 rest (HttpResponse.pass s) :=
        fun _ h => responsePass_proceeds h hclean
      obtain ⟨r, hloop, hout⟩ := loop_spec (fun s : HttpResponse × Bytes => s.2.length) hpass
        (s := (c.response, c.buf ++ seg)) hawaits.receive (Nat.lt_succ_self _)
      change ConnectionAwaits w past (c.receive seg) rest
      rw [HttpConnection.receive, hleased, if_neg (by simp)]
      dsimp only
      rw [hloop]
      cases hout with
      | delivered res hnil hresult hchunked hsize =>
          subst hnil
          exact .delivered _ res rfl (by simp [hresults]) hresult
            (HttpResponse.moved_idle hresult.errCode hchunked hsize) rfl
      | waits res buf hne hawaits' => exact .waiting _ rest rfl hresults hne hawaits'
  | delivered c res hleased hresults hresult hidle hbuf =>
      obtain ⟨rfl, rfl⟩ := List.append_eq_nil_iff.mp htotal
      change ConnectionAwaits w past (c.receive []) []
      rw [HttpConnection.receive, hleased]
      exact .delivered _ res rfl hresults hresult hidle rfl

/-- A leased connection with nothing of a response in it. -/
structure HttpConnection.Ready (c : HttpConnection) : Prop where
  leased : c.leased = true
  idle : c.response.Idle
  buf : c.buf = []

theorem HttpConnection.create_ready : HttpConnection.create.Ready where
  leased := rfl
  idle := ⟨rfl, rfl, rfl, rfl, rfl, rfl⟩
  buf := rfl

/-- A complete response arrives at a connection that is ready, in segments of
which none ends with the data of a chunk of two bytes or more. -/
theorem response_awaits {c : HttpConnection} (hready : c.Ready) {segments : List Bytes}
    (hsegments : segments.flatten = w.encode)
    (hclean : ∀ front back, segments = front ++ back → ¬ w.BehindData back.flatten)
    {front back : List Bytes} (hsplit : segments = front ++ back) :
    ConnectionAwaits w c.results (run HttpConnection.arrives (some c) front) back.flatten := by
  have hstart : ConnectionAwaits w c.results (some c) (front.flatten ++ back.flatten) := by
    have hstream : front.flatten ++ back.flatten = w.encode := by
      rw [← hsegments, hsplit, List.flatten_append]
    refine .waiting c _ hready.leased rfl ?_ (.line hready.idle ?_)
    · rw [hstream]
      simp [WireResponse.encode, CRLF]
    · rw [hready.buf, hstream]
      rfl
  refine run_segments_of (fun _ _ _ hpos h => arrives_awaits hpos h) ?_ hstart
  intro first second hfront
  have := hclean first (second ++ back) (by rw [hsplit, hfront, List.append_assoc])
  simpa using this

end Stream

end Angel.Http
