import Angel.Http.ChunkedSend
import Angel.Http.HeadBlock
import Angel.Http.OneResponse

/-!
What delimits a response on a connection that stays open: a status without a
body, the chunked coding, or a `Content-Length` equal to the number of bytes
behind the header block. `send` adds the length for a body that is not empty;
every other length is entered by the path that calls it.
-/

namespace Angel.Http

open Util Lib

/-- The statuses whose responses end with the header block. -/
def StatusCode.Bodyless (code : StatusCode) : Prop :=
  code.value / 100 = 1 ∨ code = .noContent ∨ code = .notModified

instance (code : StatusCode) : Decidable code.Bodyless :=
  inferInstanceAs (Decidable (_ ∨ _))

/-- What an open file has to give; a failed `open` has given no file. -/
def fileContent (files : Nat → Bytes) (fd : Int) : Bytes :=
  if fd < 0 then [] else files fd.toNat

/-- What `sendfile` moves: it stops at the end of the file. -/
def fileBytes (files : Nat → Bytes) (fd : Int) (offset count : Nat) : Bytes :=
  ((fileContent files fd).drop offset).take count

def Output.wire (files : Nat → Bytes) : Output → Bytes
  | .send bytes => bytes
  | .sendFile fd offset count => fileBytes files fd offset count
  | _ => []

/-- The bytes of a response on the wire. -/
def wireBytes (files : Nat → Bytes) (out : List Output) : Bytes := out.flatMap (Output.wire files)

@[simp] theorem wireBytes_append (files : Nat → Bytes) (first second : List Output) :
    wireBytes files (first ++ second) = wireBytes files first ++ wireBytes files second :=
  List.flatMap_append

/-- The status line without its end. -/
def statusText (code : StatusCode) : Bytes :=
  ascii "HTTP/1.1" ++ [SP] ++ decimal code.value ++ [SP] ++ code.toStr

/-- A header block with these lines. -/
def headBlock (code : StatusCode) (lines : Headers) : Bytes :=
  (Response.mk code [] false []).statusLine ++
    lines.flatMap (fun entry => formatHeader entry.1 entry.2) ++ CRLF

private theorem statusText_whole (code : StatusCode) :
    statusText code ≠ [] ∧ ¬ CRLF <:+: statusText code := by
  refine ⟨by simp [statusText], not_crlf_of_lineByte ?_⟩
  have hversion : ∀ b ∈ ascii "HTTP/1.1", LineByte b := by decide
  have hblank : ∀ b ∈ [SP], LineByte b := by decide
  simp only [statusText, List.forall_mem_append]
  exact ⟨⟨⟨⟨hversion, hblank⟩, decimal_lineByte code.value⟩, hblank⟩, toStr_lineByte code⟩

private theorem statusText_no_colon (code : StatusCode) : COLON ∉ statusText code := by
  have hvalue : COLON ∉ decimal code.value := by
    intro hmem
    exact absurd (List.all_eq_true.mp (decimal_digits code.value) COLON hmem) (by decide)
  have hreason : COLON ∉ code.toStr := by
    cases code <;> decide
  have hversion : COLON ∉ ascii "HTTP/1.1" := by decide
  have hblank : COLON ∉ [SP] := by decide
  simp only [statusText, List.mem_append, hversion, hblank, hvalue, hreason, or_false,
    not_false_eq_true]

theorem readsAs_headBlock {lines : Headers} (h : lines.Plain) (code : StatusCode) (body : Bytes) :
    ReadsAs (headBlock code lines ++ body) (statusText code :: lines.map entryLine) body where
  text := by
    simp [headBlock, Response.statusLine, statusText, formatHeader, entryLine, List.flatMap_map]
  whole := by
    rw [List.forall_mem_cons, List.forall_mem_map]
    exact ⟨statusText_whole code, fun entry hentry => entryLine_whole (h entry hentry)⟩

private theorem fieldValues_headBlock {lines : Headers} (hdistinct : DistinctEntries lines)
    (hplain : lines.Plain) (code : StatusCode) (field : Bytes) :
    fieldValues field (statusText code :: lines.map entryLine) =
      (lines.find field).toList.map trim := by
  have hnone : fieldValue field (statusText code) = none := by
    have hdrop : (statusText code).dropWhile (· ≠ COLON) = [] := by
      rw [List.dropWhile_eq_nil_iff]
      intro c hc
      exact decide_eq_true fun heq => statusText_no_colon code (heq ▸ hc)
    rw [fieldValue, hdrop]
  rw [← fieldValues_entries hdistinct hplain, fieldValues, List.filterMap_cons, hnone]
  rfl

/-- The bytes of a response with this status tell where it ends, in answer to a request with
this method: on the lines of their header block is the chunked coding, or one length, that of
what is behind the block. -/
structure Delimited (method : Option Method) (code : StatusCode) (bytes : Bytes) : Prop where
  head : method = some .head → ∃ lines, ReadsAs bytes lines []
  framed : method = some .head ∨ code.Bodyless ∨ ∃ lines body, ReadsAs bytes lines body ∧
    (fieldValues (ascii "Transfer-Encoding") lines = [ascii "chunked"] ∨
      fieldValues (ascii "Content-Length") lines = [decimal body.length])

theorem delimited_headBlock_iff {method : Option Method} {lines : Headers}
    (hdistinct : DistinctEntries lines) (hplain : lines.Plain) (code : StatusCode) (body : Bytes) :
    Delimited method code (headBlock code lines ++ body) ↔
      (method = some .head → body = []) ∧ (method = some .head ∨ code.Bodyless ∨
        (lines.find (ascii "Transfer-Encoding")).map trim = some (ascii "chunked") ∨
        (lines.find (ascii "Content-Length")).map trim = some (decimal body.length)) := by
  have hreads := readsAs_headBlock hplain code body
  have hone : ∀ (found : Option Bytes) (value : Bytes),
      found.toList.map trim = [value] ↔ found.map trim = some value := by
    intro found value
    cases found <;> simp
  have hhead : (∃ lines', ReadsAs (headBlock code lines ++ body) lines' []) ↔ body = [] := by
    constructor
    · rintro ⟨lines', hempty⟩
      exact (hreads.unique hempty).2
    · rintro rfl
      exact ⟨_, hreads⟩
  have hframed : (∃ lines' body', ReadsAs (headBlock code lines ++ body) lines' body' ∧
      (fieldValues (ascii "Transfer-Encoding") lines' = [ascii "chunked"] ∨
        fieldValues (ascii "Content-Length") lines' = [decimal body'.length])) ↔
      (lines.find (ascii "Transfer-Encoding")).map trim = some (ascii "chunked") ∨
        (lines.find (ascii "Content-Length")).map trim = some (decimal body.length) := by
    rw [← hone, ← hone, ← fieldValues_headBlock hdistinct hplain code,
      ← fieldValues_headBlock hdistinct hplain code]
    constructor
    · rintro ⟨lines', body', hreads', hvalue⟩
      obtain ⟨rfl, rfl⟩ := hreads.unique hreads'
      exact hvalue
    · intro hvalue
      exact ⟨_, _, hreads, hvalue⟩
  constructor
  · rintro ⟨h, h'⟩
    rw [hhead] at h
    rw [hframed] at h'
    exact ⟨h, h'⟩
  · rintro ⟨h, h'⟩
    rw [← hhead] at h
    rw [← hframed] at h'
    exact ⟨h, h'⟩

/-- A response with a header block tells where it ends. -/
def SelfDelimiting (files : Nat → Bytes) (method : Option Method) (out : List Output) : Prop :=
  ∀ code headers, .head code headers ∈ out → Delimited method code (wireBytes files out)

/-- A field that says nothing about the body's length. -/
def Unframing (field : Bytes) : Prop :=
  toLower field ≠ toLower (ascii "Content-Length") ∧
    toLower field ≠ toLower (ascii "Transfer-Encoding")

instance (field : Bytes) : Decidable (Unframing field) :=
  inferInstanceAs (Decidable (_ ∧ _))

/-- A header map that leaves the framing to `send`. -/
structure Headers.Unframed (headers : Headers) : Prop where
  distinct : DistinctEntries headers
  plain : headers.Plain
  length : headers.find (ascii "Content-Length") = none
  encoding : headers.find (ascii "Transfer-Encoding") = none

theorem Headers.Unframed.emplace {headers : Headers} (h : headers.Unframed) {field : Bytes}
    {value : Bytes} (hfield : Unframing field) (hentry : PlainEntry field value) :
    (headers.emplace field value).Unframed where
  distinct := distinct_emplace h.distinct field value
  plain := h.plain.emplace hentry
  length := (find_emplace_other hfield.1 headers value).trans h.length
  encoding := (find_emplace_other hfield.2 headers value).trans h.encoding

/-- A response object in front of its header block: its status, and the length
that its header map announces. -/
structure Response.Declares (res : Response) (code : StatusCode) (length : Option Nat) : Prop where
  statusCode : res.statusCode = code
  distinct : DistinctEntries res.headers
  plain : res.headers.Plain
  encoding : res.headers.find (ascii "Transfer-Encoding") = none
  length : res.headers.find (ascii "Content-Length") = length.map decimal
  chunked : res.chunked = false
  chunkedBuf : res.chunkedBuf = []

/-- Nothing in the object frames the next response. -/
def Response.Unframed (res : Response) : Prop := res.Declares res.statusCode none

section Declares

variable {res : Response} {code : StatusCode} {length : Option Nat}

theorem Response.Unframed.headers (h : res.Unframed) : res.headers.Unframed :=
  ⟨h.distinct, h.plain, h.length, h.encoding⟩

theorem Response.Declares.unframed (h : res.Declares code none) : res.Unframed :=
  ⟨rfl, h.distinct, h.plain, h.encoding, h.length, h.chunked, h.chunkedBuf⟩

theorem Response.Declares.setStatusCode (h : res.Declares code length) (next : StatusCode) :
    (res.setStatusCode next).Declares next length :=
  ⟨rfl, h.distinct, h.plain, h.encoding, h.length, h.chunked, h.chunkedBuf⟩

theorem Response.Declares.addHeader (h : res.Declares code length) {field value : Bytes}
    (hfield : Unframing field) (hentry : PlainEntry field value) :
    (res.addHeader field value).Declares code length :=
  ⟨h.statusCode, distinct_emplace h.distinct field value, h.plain.emplace hentry,
    (find_emplace_other hfield.2 res.headers value).trans h.encoding,
    (find_emplace_other hfield.1 res.headers value).trans h.length, h.chunked, h.chunkedBuf⟩

theorem Response.Declares.addLength (h : res.Declares code length) (n : Nat) :
    (res.addHeader (ascii "Content-Length") (decimal n)).Declares code (length.or (some n)) where
  statusCode := h.statusCode
  distinct := distinct_emplace h.distinct _ _
  plain := h.plain.emplace (plainEntry_of_lineByte (by decide) (decimal_lineByte n))
  encoding := (find_emplace_other (by decide) res.headers _).trans h.encoding
  length := by
    have hfind := find_emplace_self res.headers (ascii "Content-Length") (decimal n)
    rw [h.length] at hfind
    cases length with
    | none => exact hfind
    | some old => exact hfind
  chunked := h.chunked
  chunkedBuf := h.chunkedBuf

theorem Response.Declares.setHeaders (h : res.Declares code length) {headers : Headers}
    (hheaders : headers.Unframed) :
    Response.Declares { res with headers := headers } code none :=
  ⟨h.statusCode, hheaders.distinct, hheaders.plain, hheaders.encoding, hheaders.length, h.chunked,
    h.chunkedBuf⟩

theorem Response.Declares.headerSent (h : res.Declares code length) : res.headerSent.Unframed :=
  ⟨rfl, List.Pairwise.nil, fun _ hmem => absurd hmem List.not_mem_nil, rfl, rfl, h.chunked,
    h.chunkedBuf⟩

/-- What `send` enters for its body. -/
def bodyLength (body : Bytes) : Option Nat := if 0 < body.length then some body.length else none

/-- The object as `send` builds the header block from it. -/
def Response.sized (res : Response) (body : Bytes) : Response :=
  if 0 < body.length then res.addHeader (ascii "Content-Length") (decimal body.length) else res

theorem Response.Declares.sized (h : res.Declares code length) (body : Bytes) :
    (res.sized body).Declares code (length.or (bodyLength body)) := by
  unfold Response.sized bodyLength
  split
  · exact h.addLength body.length
  · rw [Option.or_none]
    exact h

end Declares

/-- The calls behind a header block: they act on the connection itself. -/
def Call.OnConnection : Call → Prop
  | .connSend _ => True
  | .connSendFile _ _ _ => True
  | .connSetSendCompleteHandler _ => True
  | .connClose => True
  | _ => False

/-- The bytes such a call puts on the wire. -/
def Call.wire (files : Nat → Bytes) : Call → Bytes
  | .connSend bytes => bytes
  | .connSendFile fd offset count => fileBytes files fd offset count
  | _ => []

theorem onConnection_nil : ∀ call ∈ ([] : List Call), call.OnConnection :=
  fun _ hmem => absurd hmem List.not_mem_nil

section Outputs

variable (order : Headers → Headers) (now : Tm) (files : Nat → Bytes) {res : Response}

theorem block_eq (res : Response) :
    res.block order now = headBlock res.statusCode (order (res.finalHeaders now)) := rfl

private theorem exec_onConnection {call : Call} (h : call.OnConnection) (res : Response) :
    (res.exec order now call).1 = res ∧ (∀ c hs, .head c hs ∉ (res.exec order now call).2) ∧
      wireBytes files (res.exec order now call).2 = call.wire files := by
  cases call with
  | connSend bytes => simp [Response.exec, wireBytes, Output.wire, Call.wire]
  | connSendFile fd offset count => simp [Response.exec, wireBytes, Output.wire, Call.wire]
  | connSetSendCompleteHandler fd => simp [Response.exec, wireBytes, Output.wire, Call.wire]
  | connClose => simp [Response.exec, wireBytes, Output.wire, Call.wire]
  | user call => exact absurd h id
  | send body => exact absurd h id
  | sendErr => exact absurd h id
  | setHeaders headers => exact absurd h id

theorem execAll_onConnection {tail : List Call} (h : ∀ call ∈ tail, call.OnConnection)
    (res : Response) :
    (res.execAll order now tail).1 = res ∧ (∀ c hs, .head c hs ∉ (res.execAll order now tail).2) ∧
      wireBytes files (res.execAll order now tail).2 = tail.flatMap (Call.wire files) := by
  induction tail with
  | nil => exact ⟨rfl, fun _ _ => List.not_mem_nil, rfl⟩
  | cons call tail ih =>
      obtain ⟨hcall, htail⟩ := List.forall_mem_cons.mp h
      obtain ⟨hres, hhead, hwire⟩ := exec_onConnection order now files hcall res
      obtain ⟨hres', hhead', hwire'⟩ := ih htail
      rw [execAll_cons, hres]
      refine ⟨hres', ?_, ?_⟩
      · intro c hs hmem
        rcases List.mem_append.mp hmem with hfirst | hmore
        · exact hhead c hs hfirst
        · exact hhead' c hs hmore
      · rw [wireBytes_append, hwire, hwire', List.flatMap_cons]

theorem execAll_append (res : Response) (first second : List Call) :
    res.execAll order now (first ++ second) =
      (((res.execAll order now first).1.execAll order now second).1,
        (res.execAll order now first).2 ++
          ((res.execAll order now first).1.execAll order now second).2) := by
  induction first generalizing res with
  | nil => rfl
  | cons call first ih =>
      rw [List.cons_append, execAll_cons, ih, execAll_cons]
      simp only [List.append_assoc]

private theorem sized_statusCode (res : Response) (body : Bytes) :
    (res.sized body).statusCode = res.statusCode := by
  unfold Response.sized
  split
  · rfl
  · rfl

theorem send_response (res : Response) (body : Bytes) :
    (res.send order now body).1 = (res.sized body).headerSent ∧
      (∀ c hs, .head c hs ∈ (res.send order now body).2 ↔
        c = res.statusCode ∧ hs = (res.sized body).finalHeaders now) ∧
      wireBytes files (res.send order now body).2 =
        headBlock res.statusCode (order ((res.sized body).finalHeaders now)) ++ body := by
  have hsend : res.send order now body =
      if bufferedSize ≤ body.length then
        ((res.sized body).headerSent,
          [(res.sized body).mark now, .send ((res.sized body).block order now), .send body])
      else ((res.sized body).headerSent,
        [(res.sized body).mark now, .send ((res.sized body).block order now ++ body)]) := rfl
  have hblock := block_eq order now (res.sized body)
  rw [sized_statusCode] at hblock
  rw [hsend, hblock]
  split
  · simp [wireBytes, Output.wire, Response.mark, sized_statusCode]
  · simp [wireBytes, Output.wire, Response.mark, sized_statusCode]

theorem execAll_setStatusCode (next : StatusCode) (calls : List Call) :
    res.execAll order now (.setStatusCode next :: calls) =
      (res.setStatusCode next).execAll order now calls := rfl

theorem execAll_addHeader (field value : Bytes) (calls : List Call) :
    res.execAll order now (.addHeader field value :: calls) =
      (res.addHeader field value).execAll order now calls := rfl

theorem sendChunk_outputs (res : Response) (chunk : Bytes) :
    ∃ sends : List Bytes, (res.sendChunk order now chunk).2 =
      (res.openChunked order now chunk).2 ++ sends.map .send := by
  unfold Response.sendChunk
  obtain ⟨r, out⟩ := res.openChunked order now chunk
  dsimp only
  split
  · exact ⟨[r.chunkedBuf ++ chunkSizeLine chunk.length, chunk], rfl⟩
  · split
    · exact ⟨[r.chunkedBuf ++ chunkSizeLine chunk.length ++ chunk ++ CRLF], rfl⟩
    · exact ⟨[], (List.append_nil out).symm⟩

theorem openChunked_outputs (res : Response) (chunk : Bytes) :
    ∃ sends : List Bytes, (res.openChunked order now chunk).2 =
      (if res.chunked then [] else [res.chunkedMark now]) ++ sends.map .send := by
  unfold Response.openChunked
  split
  · exact ⟨[], rfl⟩
  · dsimp only
    split
    · exact ⟨[res.chunkedBlock order now], rfl⟩
    · exact ⟨[], rfl⟩

theorem wireBytes_sends (sends : List Bytes) :
    wireBytes files (sends.map .send) = sentBytes (sends.map .send) := by
  simp [wireBytes, sentBytes, Output.wire, List.flatMap_map]

theorem nextChunk_outputs (hchunked : res.chunked = true) (chunk : Bytes) :
    ∃ sends : List Bytes, (res.sendChunk order now chunk).2 = sends.map .send := by
  obtain ⟨sends, hsends⟩ := sendChunk_outputs order now res chunk
  obtain ⟨first, hfirst⟩ := openChunked_outputs order now res chunk
  rw [if_pos hchunked, List.nil_append] at hfirst
  exact ⟨first ++ sends, by rw [hsends, hfirst, List.map_append]⟩

theorem firstChunk_outputs (hchunked : res.chunked = false) (chunk : Bytes) :
    ∃ sends : List Bytes, (res.sendChunk order now chunk).2 =
      res.chunkedMark now :: sends.map .send := by
  obtain ⟨sends, hsends⟩ := sendChunk_outputs order now res chunk
  obtain ⟨first, hfirst⟩ := openChunked_outputs order now res chunk
  rw [if_neg (by simp [hchunked])] at hfirst
  exact ⟨first ++ sends, by rw [hsends, hfirst, List.map_append, List.append_assoc]; rfl⟩

theorem sent_silent {calls : List UserCall} {p : Phase}
    (hafter : Phase.sent.after (calls.map .user) = some p) (h : res.Unframed) :
    (res.execAll order now (calls.map .user)).1.Unframed ∧
      (res.execAll order now (calls.map .user)).2 = [] := by
  induction calls generalizing res with
  | nil => exact ⟨h, rfl⟩
  | cons call calls ih =>
      rw [List.map_cons, Phase.after_cons] at hafter
      cases call with
      | setStatusCode next => exact ih hafter (h.setStatusCode next)
      | addHeader field value => cases hafter
      | setContent body type => cases hafter
      | sendChunk chunk => cases hafter
      | sendDone => cases hafter

/-- What is sent behind the first chunk starts with what was buffered, and has
no header block. -/
theorem chunking_wire {calls : List UserCall} {p : Phase}
    (hafter : Phase.chunking.after (calls.map .user) = some p) (hend : p ≠ .chunking)
    (hheaders : res.headers = []) (hchunked : res.chunked = true) :
    (res.execAll order now (calls.map .user)).1.Unframed ∧
      (∀ c hs, .head c hs ∉ (res.execAll order now (calls.map .user)).2) ∧
      ∃ rest, wireBytes files (res.execAll order now (calls.map .user)).2 =
        res.chunkedBuf ++ rest := by
  induction calls generalizing res with
  | nil =>
      cases hafter
      exact absurd rfl hend
  | cons call calls ih =>
      rw [List.map_cons, Phase.after_cons] at hafter
      cases call with
      | setStatusCode next =>
          exact @ih (res.setStatusCode next) hafter hheaders hchunked
      | addHeader field value => cases hafter
      | setContent body type => cases hafter
      | sendChunk chunk =>
          obtain ⟨hheaders', hchunked', -⟩ := sendChunk_next order now hheaders hchunked chunk
          obtain ⟨sends, hsends⟩ := nextChunk_outputs order now hchunked chunk
          obtain ⟨-, hsent⟩ := sentBytes_nextChunk order now hchunked chunk
          obtain ⟨hunframed, hhead, rest, hwire⟩ := ih hafter hheaders' hchunked'
          rw [List.map_cons, execAll_cons]
          change Response.Unframed ((res.sendChunk order now chunk).1.execAll order now
              (calls.map .user)).1 ∧ (∀ c hs, .head c hs ∉ (res.sendChunk order now chunk).2 ++
              ((res.sendChunk order now chunk).1.execAll order now (calls.map .user)).2) ∧
            ∃ rest, wireBytes files ((res.sendChunk order now chunk).2 ++
              ((res.sendChunk order now chunk).1.execAll order now (calls.map .user)).2) = _
          refine ⟨hunframed, ?_, chunkText chunk ++ rest, ?_⟩
          · intro c hs hmem
            rcases List.mem_append.mp hmem with hfirst | hmore
            · simp [hsends] at hfirst
            · exact hhead c hs hmore
          · rw [wireBytes_append, hwire, hsends, wireBytes_sends, ← hsends, ← List.append_assoc,
              hsent, List.append_assoc]
      | sendDone =>
          have hdone : Response.Unframed { res with chunked := false, chunkedBuf := [] } := by
            refine ⟨rfl, ?_, ?_, ?_, ?_, rfl, rfl⟩
            · rw [hheaders]
              exact List.Pairwise.nil
            · rw [hheaders]
              exact fun _ hmem => absurd hmem List.not_mem_nil
            · rw [hheaders]
              rfl
            · rw [hheaders]
              rfl
          obtain ⟨hunframed, hnone⟩ := sent_silent order now hafter hdone
          rw [List.map_cons, execAll_cons]
          change Response.Unframed (Response.execAll order now
              { res with chunked := false, chunkedBuf := [] } (calls.map .user)).1 ∧
            (∀ c hs, .head c hs ∉ .send (res.chunkedBuf ++ lastChunk) :: (Response.execAll order now
              { res with chunked := false, chunkedBuf := [] } (calls.map .user)).2) ∧
            ∃ rest, wireBytes files (.send (res.chunkedBuf ++ lastChunk) :: (Response.execAll order
              now { res with chunked := false, chunkedBuf := [] } (calls.map .user)).2) = _
          rw [hnone]
          refine ⟨hunframed, ?_, lastChunk, ?_⟩
          · simp
          · simp [wireBytes, Output.wire]

end Outputs

theorem errPage_ne_nil (code : StatusCode) : errPage code ≠ [] := by
  simp [errPage, ascii]

/-- A call of the server, with what it makes of the framing: the response is
delimited if and only if `P` holds, and the object is ready for the next one. -/
structure Framed (files : Nat → Bytes) (method : Option Method) (r : Response × List Output)
    (P : Prop) : Prop where
  iff : SelfDelimiting files method r.2 ↔ P
  unframed : r.1.Unframed

/-- The first call of a handler that writes a header block decides: chunks
announce their coding, and a content its length unless it is empty. -/
def UserDelimits (code : StatusCode) : List UserCall → Prop
  | .setStatusCode next :: calls => UserDelimits next calls
  | .addHeader _ _ :: calls => UserDelimits code calls
  | .setContent body _ :: _ => body ≠ [] ∨ code.Bodyless
  | _ => True

section Framed

variable {order : Headers → Headers} {now : Tm} {files : Nat → Bytes} {method : Option Method}
  {res : Response} {code : StatusCode} {length : Option Nat}

theorem selfDelimiting_iff {out : List Output} {code : StatusCode} {headers : Headers}
    {bytes : Bytes} (hhead : ∀ c h, .head c h ∈ out ↔ c = code ∧ h = headers)
    (hwire : wireBytes files out = bytes) :
    SelfDelimiting files method out ↔ Delimited method code bytes := by
  constructor
  · intro h
    exact hwire ▸ h code headers ((hhead code headers).mpr ⟨rfl, rfl⟩)
  · intro h c headers' hmem
    obtain ⟨rfl, -⟩ := (hhead c headers').mp hmem
    exact hwire.symm ▸ h

private theorem selfDelimiting_of_no_head {out : List Output} (hhead : ∀ c h, .head c h ∉ out) :
    SelfDelimiting files method out :=
  fun code headers hmem => absurd hmem (hhead code headers)

theorem Framed.congr {r : Response × List Output} {P Q : Prop} (h : Framed files method r P)
    (hcongr : P ↔ Q) : Framed files method r Q :=
  ⟨h.iff.trans hcongr, h.unframed⟩

theorem framed_silent (h : res.Unframed) : Framed files method (res, []) True where
  iff := iff_of_true (selfDelimiting_of_no_head fun _ _ => List.not_mem_nil) trivial
  unframed := h

theorem Framed.close {calls : List Call} {P : Prop}
    (h : Framed files method (res.execAll order now calls) P) :
    Framed files method (res.execAll order now (calls ++ [.connClose])) P := by
  have hclose : ∀ r : Response, r.execAll order now [.connClose] = (r, [.close]) := fun _ => rfl
  rw [execAll_append, hclose]
  refine ⟨?_, h.unframed⟩
  rw [← h.iff]
  have hwire : ∀ out : List Output, wireBytes files (out ++ [.close]) = wireBytes files out := by
    intro out
    simp [wireBytes, Output.wire]
  simp [SelfDelimiting, hwire]

variable (horder : ∀ headers, (order headers).Perm headers)

include horder

theorem Response.Declares.lines {res : Response} {code : StatusCode} {length : Option Nat}
    (h : res.Declares code length) :
    DistinctEntries (order (res.finalHeaders now)) ∧ (order (res.finalHeaders now)).Plain ∧
      (order (res.finalHeaders now)).find (ascii "Transfer-Encoding") = none ∧
      (order (res.finalHeaders now)).find (ascii "Content-Length") = length.map decimal := by
  have hdistinct : DistinctEntries (res.finalHeaders now) :=
    distinct_emplace (distinct_emplace h.distinct _ _) _ _
  have hplain : (res.finalHeaders now).Plain := by
    apply Headers.Plain.emplace _ (plainEntry_of_lineByte (by decide) (formatDate_lineByte now))
    exact h.plain.emplace (plainEntry_of_lineByte (by decide) (by decide))
  have hperm := horder (res.finalHeaders now)
  have hother : ∀ field, toLower (ascii "Server") ≠ toLower field →
      toLower (ascii "Date") ≠ toLower field →
      (order (res.finalHeaders now)).find field = res.headers.find field := by
    intro field hserver hdate
    rw [← find_perm hperm.symm hdistinct, Response.finalHeaders, find_emplace_other hdate,
      find_emplace_other hserver]
  refine ⟨?_, ?_, ?_, ?_⟩
  · exact hdistinct.perm hperm.symm fun hne => hne.symm
  · intro entry hmem
    exact hplain entry (hperm.subset hmem)
  · rw [hother _ (by decide) (by decide)]
    exact h.encoding
  · rw [hother _ (by decide) (by decide)]
    exact h.length

private theorem delimited_iff {res : Response} {code : StatusCode} {length : Option Nat}
    (h : res.Declares code length) (body : Bytes) :
    Delimited method code (headBlock code (order (res.finalHeaders now)) ++ body) ↔
      (method = some .head → body = []) ∧
        (method = some .head ∨ code.Bodyless ∨ length = some body.length) := by
  obtain ⟨hdistinct, hplain, hencoding, hlength⟩ := h.lines horder
  have htrim : ∀ n, trim (decimal n) = decimal n := fun n => trimmed_of_forall (decimal_not_space n)
  have hdeclared : (length.map decimal).map trim = some (decimal body.length) ↔
      length = some body.length := by
    cases length with
    | none => simp
    | some n => simpa [htrim] using ⟨decimal_injective, congrArg decimal⟩
  have hplainText : (none : Option Bytes).map trim ≠ some (ascii "chunked") := by simp
  rw [delimited_headBlock_iff hdistinct hplain, hencoding, hlength, hdeclared,
    or_iff_right hplainText]

theorem framed_send (h : res.Declares code length) (body : Bytes) {tail : List Call}
    (htail : ∀ call ∈ tail, call.OnConnection) {rest : Bytes}
    (hrest : tail.flatMap (Call.wire files) = rest) :
    Framed files method (res.execAll order now (.send body :: tail))
      ((method = some .head → body ++ rest = []) ∧ (method = some .head ∨ code.Bodyless ∨
        length.or (bodyLength body) = some (body ++ rest).length)) := by
  obtain ⟨hsent, hhead, hwire⟩ := send_response order now files res body
  obtain ⟨hres, hnone, hmore⟩ := execAll_onConnection order now files htail
    (res.send order now body).1
  rw [execAll_cons]
  change Framed files method
    (((res.send order now body).1.execAll order now tail).1,
      (res.send order now body).2 ++ ((res.send order now body).1.execAll order now tail).2) _
  constructor
  · have honly : ∀ c hs, .head c hs ∈ (res.send order now body).2 ++
        ((res.send order now body).1.execAll order now tail).2 ↔
        c = code ∧ hs = (res.sized body).finalHeaders now := by
      intro c hs
      rw [List.mem_append, or_iff_left (hnone c hs), hhead, h.statusCode]
    have htotal : wireBytes files ((res.send order now body).2 ++
        ((res.send order now body).1.execAll order now tail).2) =
        headBlock code (order ((res.sized body).finalHeaders now)) ++ (body ++ rest) := by
      rw [wireBytes_append, hwire, hmore, hrest, h.statusCode, List.append_assoc]
    rw [selfDelimiting_iff honly htotal]
    exact delimited_iff horder (h.sized body) (body ++ rest)
  · dsimp only
    rw [hres, hsent]
    exact (h.sized body).headerSent

/-- A body that is not empty is announced; it is wrong only in answer to
`HEAD`. -/
theorem framed_content (h : res.Declares code none) {body : Bytes} (hbody : body ≠ []) :
    Framed files method (res.execAll order now [.send body]) (method ≠ some .head) := by
  have hlength : bodyLength body = some body.length :=
    if_pos (List.length_pos_iff.mpr hbody)
  apply (framed_send horder h body onConnection_nil rfl).congr
  rw [List.flatMap_nil, List.append_nil, hlength, Option.none_or]
  simp [hbody]

theorem framed_empty (h : res.Declares code none) {tail : List Call}
    (htail : ∀ call ∈ tail, call.OnConnection) (hrest : tail.flatMap (Call.wire files) = []) :
    Framed files method (res.execAll order now (.send [] :: tail))
      (method = some .head ∨ code.Bodyless) := by
  apply (framed_send horder h [] htail hrest).congr
  simp [bodyLength]

/-- A length that is entered by hand, with the body behind the header block. -/
theorem framed_sized {n : Nat} (h : res.Declares code (some n)) {tail : List Call}
    (htail : ∀ call ∈ tail, call.OnConnection) {rest : Bytes}
    (hrest : tail.flatMap (Call.wire files) = rest) :
    Framed files method (res.execAll order now (.send [] :: tail))
      ((method = some .head → rest = []) ∧
        (method = some .head ∨ code.Bodyless ∨ rest.length = n)) := by
  apply (framed_send horder h [] htail hrest).congr
  simp [bodyLength, eq_comm]

theorem framed_sendErr (h : res.Declares code none) :
    Framed files method (res.execAll order now [.sendErr]) (method ≠ some .head) :=
  framed_content horder
    (h.addHeader (by decide) (plainEntry_of_lineByte (by decide) (by decide)))
    (errPage_ne_nil res.statusCode)

private theorem framed_chunks (h : res.Declares code none) {chunk : Bytes} {calls : List UserCall}
    {p : Phase} (hafter : Phase.chunking.after (calls.map .user) = some p) (hend : p ≠ .chunking)
    (hmethod : method ≠ some .head) :
    Framed files method
      (res.execAll order now ((.sendChunk chunk :: calls).map .user)) True := by
  obtain ⟨hheaders, hchunked, -⟩ := sendChunk_first order now h.chunked chunk
  obtain ⟨sends, hsends⟩ := firstChunk_outputs order now h.chunked chunk
  obtain ⟨-, hsent⟩ := sentBytes_firstChunk order now h.chunked h.chunkedBuf chunk
  obtain ⟨hunframed, hnone, rest, hwire⟩ :=
    chunking_wire order now files hafter hend hheaders hchunked
  rw [List.map_cons, execAll_cons]
  change Framed files method (((res.sendChunk order now chunk).1.execAll order now
      (calls.map .user)).1, (res.sendChunk order now chunk).2 ++
    ((res.sendChunk order now chunk).1.execAll order now (calls.map .user)).2) True
  refine ⟨iff_of_true ?_ trivial, hunframed⟩
  generalize hlines :
    (res.addHeader (ascii "Transfer-Encoding") (ascii "chunked")).finalHeaders now = headers
  have hmark : res.chunkedMark now = .head code headers := by
    rw [← hlines, ← h.statusCode]
    rfl
  have hblock : res.chunkedBlock order now = headBlock code (order headers) := by
    rw [← hlines, ← h.statusCode]
    rfl
  have hfirst : wireBytes files (res.sendChunk order now chunk).2 =
      sentBytes (res.sendChunk order now chunk).2 := by
    rw [hsends, hmark]
    exact wireBytes_sends files sends
  rw [hblock] at hsent
  have hdistinct : DistinctEntries headers := by
    rw [← hlines]
    apply distinct_emplace
    apply distinct_emplace
    exact distinct_emplace h.distinct _ _
  have hfind : (order headers).find (ascii "Transfer-Encoding") = some (ascii "chunked") := by
    rw [← find_perm (horder headers).symm hdistinct, ← hlines, Response.finalHeaders,
      find_emplace_other (by decide), find_emplace_other (by decide), Response.addHeader,
      find_emplace_self, h.encoding, Option.none_or]
  have honly : ∀ c hs, .head c hs ∈ (res.sendChunk order now chunk).2 ++
      ((res.sendChunk order now chunk).1.execAll order now (calls.map .user)).2 ↔
      c = code ∧ hs = headers := by
    intro c hs
    rw [List.mem_append, or_iff_left (hnone c hs), hsends, hmark]
    simp
  have htotal : wireBytes files ((res.sendChunk order now chunk).2 ++
      ((res.sendChunk order now chunk).1.execAll order now (calls.map .user)).2) =
      headBlock code (order headers) ++ (chunkText chunk ++ rest) := by
    rw [wireBytes_append, hwire, hfirst, ← List.append_assoc, hsent, List.append_assoc]
  have hplain : (order headers).Plain := by
    intro entry hmem
    have hentered : headers.Plain := by
      rw [← hlines]
      apply Headers.Plain.emplace _ (plainEntry_of_lineByte (by decide) (formatDate_lineByte now))
      apply Headers.Plain.emplace _ (plainEntry_of_lineByte (by decide) (by decide))
      exact h.plain.emplace (plainEntry_of_lineByte (by decide) (by decide))
    exact hentered entry ((horder headers).subset hmem)
  have hlinesDistinct : DistinctEntries (order headers) :=
    hdistinct.perm (horder headers).symm fun hne => hne.symm
  apply (selfDelimiting_iff honly htotal).mpr
  rw [delimited_headBlock_iff hlinesDistinct hplain, hfind]
  exact ⟨fun hhead => absurd hhead hmethod, Or.inr (Or.inr (Or.inl rfl))⟩

private theorem framed_setContent (h : res.Declares code none) (body : Bytes) {type : Bytes}
    (htype : ¬ CRLF <:+: type) (hmethod : method ≠ some .head) :
    Framed files method (res.setContent order now body type)
      (body ≠ [] ∨ code.Bodyless) := by
  have htyped : Response.Declares (res.addHeader (ascii "Content-Type") type) code none :=
    h.addHeader (by decide) (plainEntry (by decide) htype)
  have hexec : (res.addHeader (ascii "Content-Type") type).execAll order now [.send body] =
      res.setContent order now body type := by
    rw [execAll_cons]
    exact Prod.ext rfl (List.append_nil _)
  by_cases hbody : body = []
  · subst hbody
    have hframed : Framed files method
        ((res.addHeader (ascii "Content-Type") type).execAll order now [.send []])
        (method = some .head ∨ code.Bodyless) :=
      framed_empty horder htyped onConnection_nil rfl
    rw [hexec] at hframed
    apply hframed.congr
    simp [hmethod]
  · have hframed : Framed files method
        ((res.addHeader (ascii "Content-Type") type).execAll order now [.send body])
        (method ≠ some .head) :=
      framed_content horder htyped hbody
    rw [hexec] at hframed
    apply hframed.congr
    simp [hmethod, hbody]

theorem framed_user {calls : List UserCall} {p : Phase}
    (hafter : (Phase.preparing true).after (calls.map .user) = some p) (hend : p ≠ .chunking)
    (hfree : ∀ field value, .addHeader field value ∈ calls →
      Unframing field ∧ PlainEntry field value)
    (htype : ∀ body type, .setContent body type ∈ calls → ¬ CRLF <:+: type)
    (h : res.Declares code none) (hmethod : method ≠ some .head) :
    Framed files method (res.execAll order now (calls.map .user))
      (UserDelimits code calls) := by
  induction calls generalizing res code with
  | nil => exact framed_silent h.unframed
  | cons call calls ih =>
      rw [List.map_cons, Phase.after_cons] at hafter
      have hrest : ∀ field value, .addHeader field value ∈ calls →
          Unframing field ∧ PlainEntry field value :=
        fun field value hmem => hfree field value (List.mem_cons_of_mem call hmem)
      have htypes : ∀ body type, .setContent body type ∈ calls → ¬ CRLF <:+: type :=
        fun body type hmem => htype body type (List.mem_cons_of_mem call hmem)
      cases call with
      | setStatusCode next => exact ih hafter hrest htypes (h.setStatusCode next)
      | addHeader field value =>
          obtain ⟨hfield, hentry⟩ := hfree field value List.mem_cons_self
          exact ih hafter hrest htypes (h.addHeader hfield hentry)
      | setContent body type =>
          have hsent : Framed files method (res.setContent order now body type)
              (body ≠ [] ∨ code.Bodyless) := 
            framed_setContent horder h body (htype body type List.mem_cons_self) hmethod
          obtain ⟨hunframed, hnone⟩ := sent_silent order now hafter
            hsent.unframed
          rw [List.map_cons, execAll_cons]
          change Framed files method (((res.setContent order now body type).1.execAll order
              now (calls.map .user)).1, (res.setContent order now body type).2 ++
            ((res.setContent order now body type).1.execAll order now (calls.map .user)).2) _
          rw [hnone, List.append_nil]
          exact ⟨hsent.iff, hunframed⟩
      | sendChunk chunk => exact framed_chunks horder h hafter hend hmethod
      | sendDone => cases hafter

end Framed

end Angel.Http
