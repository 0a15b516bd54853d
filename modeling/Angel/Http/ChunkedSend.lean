import Angel.Http.RoundTrip

/-!
`response::send_chunk` and `send_done` against the chunked-body parser of the
client. A chunk of size zero is the last chunk of the coding: the parser ends
the body there, and what is sent behind it stays unread.
-/

namespace Angel.Http

open Util Buffer Lib

/-- What `%zx` prints. -/
def hexSize (n : Nat) : Bytes := (Nat.toDigits 16 n).map fun c => c.toNat.toUInt8

theorem digit?_digitChar : ∀ d : Fin 16,
    digit? (Nat.digitChar d).toNat.toUInt8 = some d.val := by decide

theorem hexSize_of_lt {n : Nat} (h : n < 16) :
    hexSize n = [(Nat.digitChar n).toNat.toUInt8] := by
  rw [hexSize, Nat.toDigits_of_lt_base h]
  rfl

theorem hexSize_of_le {n : Nat} (h : 16 ≤ n) :
    hexSize n = hexSize (n / 16) ++ [(Nat.digitChar (n % 16)).toNat.toUInt8] := by
  rw [hexSize, Nat.toDigits_of_base_le (by decide) h, List.map_append]
  rfl

theorem ofDigits_hexSize (n : Nat) : ofDigits 16 (hexSize n) = n := by
  induction n using Nat.strongRecOn with
  | ind n ih =>
      rcases Nat.lt_or_ge n 16 with h | h
      · have hdigit := digit?_digitChar ⟨n, h⟩
        rw [hexSize_of_lt h]
        simp [ofDigits, hdigit]
      · have hdigit := digit?_digitChar ⟨n % 16, Nat.mod_lt n (by decide)⟩
        rw [hexSize_of_le h, ofDigits_snoc, ih (n / 16) (by omega), hdigit]
        exact Nat.div_add_mod n 16

theorem hexSize_digits (n : Nat) : (hexSize n).all ishex = true := by
  induction n using Nat.strongRecOn with
  | ind n ih =>
      rcases Nat.lt_or_ge n 16 with h | h
      · have hdigit := digit?_digitChar ⟨n, h⟩
        rw [hexSize_of_lt h]
        simp [ishex, hdigit]
      · have hdigit := digit?_digitChar ⟨n % 16, Nat.mod_lt n (by decide)⟩
        rw [hexSize_of_le h, List.all_append, ih (n / 16) (by omega)]
        simp [ishex, hdigit]

/-- Up to thirteen digits fit with the line end into what `snprintf` is given. -/
theorem chunkSizeLine_eq {n : Nat} (h : n < 2 ^ 52) : chunkSizeLine n = hexSize n ++ CRLF := by
  have hdigits : (Nat.toDigits 16 n).length ≤ 13 :=
    (Nat.length_toDigits_le_iff (by decide) (by decide)).mpr h
  apply List.take_of_length_le
  simp only [List.length_append, List.length_map, CRLF, List.length_cons, List.length_nil]
  omega

/-- A chunk as `send_chunk` writes it. -/
def chunkText (chunk : Bytes) : Bytes := chunkSizeLine chunk.length ++ chunk ++ CRLF

/-- A chunk that is not empty, as a chunk of the coding. -/
def Chunk.ofBytes (chunk : Bytes) (hne : chunk ≠ []) (hsize : chunk.length < 2 ^ 52) : Chunk where
  size := hexSize chunk.length
  data := chunk
  sizeDigits := hexSize_digits _
  sizeValue := ofDigits_hexSize _
  dataNonempty := hne
  dataBounded := by unfold maxSize; omega

theorem Chunk.encode_ofBytes {chunk : Bytes} (hne : chunk ≠ []) (hsize : chunk.length < 2 ^ 52) :
    (Chunk.ofBytes chunk hne hsize).encode = chunkText chunk := by
  rw [chunkText, chunkSizeLine_eq hsize]
  rfl

theorem exists_chunks {chunks : List Bytes} (hne : ∀ chunk ∈ chunks, chunk ≠ [])
    (hsize : ∀ chunk ∈ chunks, chunk.length < 2 ^ 52) :
    ∃ coded : List Chunk, encodeChunks coded = chunks.flatMap chunkText ∧
      chunkBytes coded = chunks.flatten := by
  induction chunks with
  | nil => exact ⟨[], rfl, rfl⟩
  | cons chunk chunks ih =>
      obtain ⟨hfirst, hrest⟩ := List.forall_mem_cons.mp hne
      obtain ⟨hsmall, hsmalls⟩ := List.forall_mem_cons.mp hsize
      obtain ⟨coded, hencode, hbytes⟩ := ih hrest hsmalls
      refine ⟨Chunk.ofBytes chunk hfirst hsmall :: coded, ?_, ?_⟩
      · rw [encodeChunks_cons, Chunk.encode_ofBytes, hencode, List.flatMap_cons]
      · rw [chunkBytes_cons, hbytes]
        rfl

/-- The calls of a handler that sends its body in chunks. -/
def chunkedCalls (chunks : List Bytes) : List Call :=
  chunks.map (fun chunk => .user (.sendChunk chunk)) ++ [.user .sendDone]

def lastChunk : Bytes := ascii "0\r\n\r\n"

section Send

variable (order : Headers → Headers) (now : Tm)

/-- Behind the header block a chunk is sent or buffered, behind what was
buffered before it. -/
theorem sentBytes_nextChunk {res : Response} (hchunked : res.chunked = true) (chunk : Bytes) :
    (res.sendChunk order now chunk).1.chunked = true ∧
      sentBytes (res.sendChunk order now chunk).2 ++
          (res.sendChunk order now chunk).1.chunkedBuf =
        res.chunkedBuf ++ chunkText chunk := by
  have hopen : res.openChunked order now chunk = (res, []) := by
    rw [Response.openChunked, if_pos hchunked]
  rw [Response.sendChunk, hopen]
  dsimp only
  split
  · exact ⟨hchunked, by simp [sentBytes, chunkText]⟩
  · split
    · exact ⟨hchunked, by simp [sentBytes, chunkText]⟩
    · exact ⟨hchunked, by simp [sentBytes, chunkText]⟩

/-- The header block of a chunked response. -/
def Response.chunkedBlock (res : Response) : Bytes :=
  (res.addHeader (ascii "Transfer-Encoding") (ascii "chunked")).block order now

/-- The mark of that header block. -/
def Response.chunkedMark (res : Response) : Output :=
  (res.addHeader (ascii "Transfer-Encoding") (ascii "chunked")).mark now

theorem sentBytes_firstChunk {res : Response} (hchunked : res.chunked = false)
    (hbuf : res.chunkedBuf = []) (chunk : Bytes) :
    (res.sendChunk order now chunk).1.chunked = true ∧
      sentBytes (res.sendChunk order now chunk).2 ++
          (res.sendChunk order now chunk).1.chunkedBuf =
        res.chunkedBlock order now ++ chunkText chunk := by
  rcases Nat.lt_or_ge chunk.length bufferedSize with hsmall | hlarge
  · -- the block is buffered with the chunk
    have hopen : res.openChunked order now chunk =
        ({ (Response.headerSent { res with chunked := true }) with
          chunkedBuf := res.chunkedBlock order now }, [res.chunkedMark now]) := by
      rw [Response.openChunked, if_neg (by simp [hchunked]), if_neg (by omega)]
      simp only [Response.addHeader, Response.headerSent, hbuf, List.nil_append]
      rfl
    rw [Response.sendChunk, hopen]
    dsimp only
    rw [if_neg (by omega)]
    split
    · exact ⟨rfl, by simp [sentBytes, chunkText, Response.chunkedMark, Response.mark]⟩
    · exact ⟨rfl, by simp [sentBytes, chunkText, Response.chunkedMark, Response.mark]⟩
  · -- the block is sent by itself
    have hopen : res.openChunked order now chunk =
        (Response.headerSent { res with chunked := true },
          [res.chunkedMark now, .send (res.chunkedBlock order now)]) := by
      rw [Response.openChunked, if_neg (by simp [hchunked]), if_pos hlarge]
      rfl
    rw [Response.sendChunk, hopen]
    dsimp only
    rw [if_pos hlarge]
    refine ⟨rfl, ?_⟩
    simp [sentBytes, chunkText, Response.chunkedMark, Response.mark, Response.headerSent, hbuf]

theorem sentBytes_done (res : Response) :
    sentBytes (res.execAll order now (chunkedCalls [])).2 = res.chunkedBuf ++ lastChunk := by
  simp [chunkedCalls, Response.execAll, Response.exec, Response.execUser, Response.sendDone,
    sentBytes, lastChunk]

theorem sentBytes_cons (res : Response) (chunk : Bytes) (chunks : List Bytes) :
    sentBytes (res.execAll order now (chunkedCalls (chunk :: chunks))).2 =
      sentBytes (res.sendChunk order now chunk).2 ++ sentBytes
        ((res.sendChunk order now chunk).1.execAll order now (chunkedCalls chunks)).2 := by
  have hcalls : chunkedCalls (chunk :: chunks) =
      .user (.sendChunk chunk) :: chunkedCalls chunks := rfl
  rw [hcalls, execAll_cons, sentBytes_append]
  rfl

private theorem sentBytes_opened {res : Response} (hchunked : res.chunked = true)
    (chunks : List Bytes) :
    sentBytes (res.execAll order now (chunkedCalls chunks)).2 =
      res.chunkedBuf ++ chunks.flatMap chunkText ++ lastChunk := by
  induction chunks generalizing res with
  | nil => rw [sentBytes_done, List.flatMap_nil, List.append_nil]
  | cons chunk chunks ih =>
      obtain ⟨hnext, hsent⟩ := sentBytes_nextChunk order now hchunked chunk
      rw [sentBytes_cons, ih hnext, ← List.append_assoc, ← List.append_assoc, hsent, List.flatMap_cons]
      simp only [List.append_assoc]

theorem sentBytes_chunked {res : Response} (hchunked : res.chunked = false)
    (hbuf : res.chunkedBuf = []) {chunks : List Bytes} (hne : chunks ≠ []) :
    sentBytes (res.execAll order now (chunkedCalls chunks)).2 =
      res.chunkedBlock order now ++ chunks.flatMap chunkText ++ lastChunk := by
  obtain ⟨chunk, chunks, rfl⟩ := List.exists_cons_of_ne_nil hne
  obtain ⟨hnext, hsent⟩ := sentBytes_firstChunk order now hchunked hbuf chunk
  rw [sentBytes_cons, sentBytes_opened order now hnext, ← List.append_assoc, ← List.append_assoc,
    hsent, List.flatMap_cons]
  simp only [List.append_assoc]

end Send

theorem chunkPass_chunk {m : Message} (hsize : m.chunkSize = -1) (c : Chunk) (after : Bytes) :
    chunkPass (m, c.encode ++ after) =
      .again ({ m with body := m.body ++ c.data, chunkSize := -1 }, after) := by
  have hshape : c.encode ++ after = c.size ++ CRLF ++ (c.data ++ (CRLF ++ after)) := by
    simp [Chunk.encode]
  have hpos := c.data_pos
  have hlen : 2 ≤ (c.data ++ (CRLF ++ after)).length := by
    simp only [List.length_append, CRLF, List.length_cons, List.length_nil]
    omega
  rw [hshape, chunkPass_line hsize c.size_no_crlf hlen, c.fromHexStr_size, if_neg (by omega),
    if_neg (by omega), chunkData_whole rfl c.dataBounded]

private theorem chunkPass_lastChunk {m : Message} (hsize : m.chunkSize = -1) (after : Bytes) :
    chunkPass (m, lastChunk ++ after) = .again ({ m with chunkSize := 0 }, CRLF ++ after) := by
  have hshape : lastChunk ++ after = ascii "0" ++ CRLF ++ (CRLF ++ after) := rfl
  have hlen : 2 ≤ (CRLF ++ after).length := by
    simp only [List.length_append, CRLF, List.length_cons, List.length_nil]
    omega
  have hzero : fromHexStr (ascii "0") = 0 := by decide
  rw [hshape, chunkPass_line hsize zero_no_crlf hlen, hzero, if_neg (by omega), if_pos rfl]

private theorem chunkPass_end {m : Message} (hsize : m.chunkSize = 0) (after : Bytes) :
    chunkPass (m, CRLF ++ after) =
      .done (some ({ m with chunkSize := -1, chunked := false }, after, .ok)) := by
  have hblock : (CRLF ++ after) ++ [] = renderFields [] ++ CRLF ++ after := by
    simp [renderFields]
  have hne : CRLF ++ after ≠ [] := by
    simp [CRLF]
  have hparse : m.parseHeader (CRLF ++ after) = some (m, after, .ok) := by
    rcases parseHeader_fields [] m hblock with
      ⟨extra, hafter, _, hparse⟩ | ⟨_, _, _, _, _, _, hnil, _⟩
    · rw [hparse, ← hafter, List.append_nil]
      rfl
    · exact absurd rfl hnil
  rw [chunkPass_atTrailer hne hsize, chunkTrailer, hparse]

private theorem chunkLoop_body (chunks : List Chunk) {m : Message} (hsize : m.chunkSize = -1)
    (after : Bytes) {fuel : Nat} (hfuel : chunks.length + 2 ≤ fuel) :
    loop chunkPass fuel (m, encodeChunks chunks ++ (lastChunk ++ after)) =
      some (some ({ m with body := m.body ++ chunkBytes chunks, chunkSize := -1, chunked := false },
        after, .ok)) := by
  induction chunks generalizing m fuel with
  | nil =>
      obtain ⟨fuel, rfl⟩ : ∃ n, fuel = n + 2 := ⟨fuel - 2, by simp at hfuel; omega⟩
      change loop chunkPass (fuel + 1 + 1) (m, lastChunk ++ after) = _
      rw [loop_again (chunkPass_lastChunk hsize after), loop_done (chunkPass_end rfl after)]
      simp [chunkBytes]
  | cons c chunks ih =>
      rw [List.length_cons] at hfuel
      obtain ⟨fuel, rfl⟩ : ∃ n, fuel = n + 1 := ⟨fuel - 1, by omega⟩
      have hshape : encodeChunks (c :: chunks) ++ (lastChunk ++ after) =
          c.encode ++ (encodeChunks chunks ++ (lastChunk ++ after)) := by
        simp
      rw [hshape, loop_again (chunkPass_chunk hsize c _), ih rfl (by omega)]
      simp

private theorem length_le_encodeChunks (chunks : List Chunk) :
    chunks.length ≤ (encodeChunks chunks).length := by
  induction chunks with
  | nil => exact Nat.zero_le _
  | cons c chunks ih =>
      have hpos := c.data_pos
      rw [encodeChunks_cons, List.length_append, List.length_cons, Chunk.encode_length]
      omega

theorem parseBody_chunks {m : Message} (hchunked : m.chunked = true) (hsize : m.chunkSize = -1)
    (chunks : List Chunk) (after : Bytes) :
    m.parseBody (encodeChunks chunks ++ (lastChunk ++ after)) =
      some ({ m with body := m.body ++ chunkBytes chunks, chunkSize := -1, chunked := false },
        after, .ok) := by
  have hfuel : chunks.length + 2 ≤
      (encodeChunks chunks ++ (lastChunk ++ after)).length + 1 := by
    have hlast : lastChunk.length = 5 := rfl
    have hle := length_le_encodeChunks chunks
    simp only [List.length_append, hlast]
    omega
  rw [Message.parseBody, if_pos hchunked, Message.parseBodyByChunked,
    chunkLoop_body chunks hsize after hfuel]
  rfl

theorem pass_parseLine {res : HttpResponse} {buf : Bytes} (hstate : res.state = .parseLine)
    (hne : buf ≠ []) : HttpResponse.pass (res, buf) = res.linePass buf := by
  rw [HttpResponse.pass, if_neg hne]
  dsimp only
  rw [hstate]

theorem pass_parseHeader {res : HttpResponse} {buf : Bytes} (hstate : res.state = .parseHeader)
    (hne : buf ≠ []) : HttpResponse.pass (res, buf) = res.headerPass buf := by
  rw [HttpResponse.pass, if_neg hne]
  dsimp only
  rw [hstate]

theorem pass_parseBody {res : HttpResponse} {buf : Bytes} (hstate : res.state = .parseBody)
    (hne : buf ≠ []) : HttpResponse.pass (res, buf) = res.bodyPass buf := by
  rw [HttpResponse.pass, if_neg hne]
  dsimp only
  rw [hstate]

/-- The passes over the status line, over the header block of a chunked
response and over its body. -/
theorem linePass_response (res : HttpResponse) (w : WireResponse) (after : Bytes) :
    res.linePass (w.line ++ CRLF ++ after) = .again ({ res with
      httpVersion := w.version
      statusCode := w.status
      statusMessage := w.reason
      state := .parseHeader }, after) := by
  rw [HttpResponse.linePass, parseLine_statusLine]

theorem headerPass_chunked (res : HttpResponse) (hheaders : res.message.headers = [])
    {fields : List FieldLine} {chunks : List Chunk} {trailer : List FieldLine}
    (hframed : (WireBody.chunked chunks trailer).FramedBy (Headers.enterAll [] fields))
    (after : Bytes) :
    res.headerPass (renderFields fields ++ CRLF ++ after) = .again ({ res with
      message := { res.message with
        headers := Headers.enterAll [] fields
        chunked := true }
      state := .parseBody }, after) := by
  have hparse : res.message.parseHeader (renderFields fields ++ CRLF ++ after) =
      some ({ res.message with headers := Headers.enterAll [] fields }, after, .ok) := by
    rcases parseHeader_fields fields res.message (List.append_nil _) with
      ⟨extra, hafter, _, hparse⟩ | ⟨_, _, _, _, _, _, hnil, _⟩
    · rw [hparse, ← hafter, List.append_nil, hheaders]
    · exact absurd rfl hnil
  have hlength := parseBodyLength_chunked
    (m := { res.message with headers := Headers.enterAll [] fields }) hframed
  rw [HttpResponse.headerPass, hparse]
  dsimp only
  rw [hlength]

private theorem bodyPass_chunked (res : HttpResponse) (hchunked : res.message.chunked = true)
    (hsize : res.message.chunkSize = -1) (chunks : List Chunk) (after : Bytes) :
    res.bodyPass (encodeChunks chunks ++ (lastChunk ++ after)) = .done (some ({ res with
      message := { res.message with
        body := res.message.body ++ chunkBytes chunks
        chunkSize := -1
        chunked := false } }, after, true)) := by
  rw [HttpResponse.bodyPass, parseBody_chunks hchunked hsize]

theorem encodeLast_nil : encodeLast [] = lastChunk := by decide

/-- A complete chunked response in one buffer is delivered; what is behind it
stays unread. -/
theorem receive_chunked {c : HttpConnection} (hready : c.Ready) {w : WireResponse}
    {chunks : List Chunk} (hkind : w.body = .chunked chunks []) (after : Bytes) :
    ∃ c' result, c.receive (w.encode ++ after) = some c' ∧ c'.results = c.results ++ [result] ∧
      w.DeliveredAs result ∧ c'.buf = after := by
  obtain ⟨hleased, hidle, hbuf⟩ := hready
  have hencode : w.encode ++ after = w.line ++ CRLF ++ (renderFields w.fields ++ CRLF ++
      (encodeChunks chunks ++ (lastChunk ++ after))) := by
    rw [WireResponse.encode, hkind, WireBody.encode, encodeBody, encodeLast_nil]
    simp only [List.append_assoc]
  have hframed := w.framed
  rw [hkind] at hframed
  have hfuel : 3 ≤ (w.line ++ CRLF ++ (renderFields w.fields ++ CRLF ++
      (encodeChunks chunks ++ (lastChunk ++ after)))).length + 1 := by
    simp only [List.length_append, CRLF, List.length_cons, List.length_nil]
    omega
  obtain ⟨fuel, hfuel⟩ := Nat.exists_eq_add_of_le' hfuel
  have hline := linePass_response c.response w (renderFields w.fields ++ CRLF ++
    (encodeChunks chunks ++ (lastChunk ++ after)))
  rw [← pass_parseLine hidle.state (by simp [CRLF])] at hline
  have hheader := headerPass_chunked { c.response with
    httpVersion := w.version
    statusCode := w.status
    statusMessage := w.reason
    state := .parseHeader } hidle.headers hframed (encodeChunks chunks ++ (lastChunk ++ after))
  rw [← pass_parseHeader rfl (by simp [CRLF])] at hheader
  have hbody := bodyPass_chunked { c.response with
    message := { c.response.message with
      headers := Headers.enterAll [] w.fields
      chunked := true }
    httpVersion := w.version
    statusCode := w.status
    statusMessage := w.reason
    state := .parseBody } rfl hidle.chunkSize chunks after
  rw [← pass_parseBody rfl (by simp [lastChunk, ascii])] at hbody
  have hloop := (loop_again hline (fuel + 2)).trans
    ((loop_again hheader (fuel + 1)).trans (loop_done hbody fuel))
  generalize hresult : HttpResponse.mk _ _ _ _ _ _ = result at hloop
  refine ⟨⟨result.moved, false, c.results ++ [result], after⟩, result, ?_, rfl, ?_, rfl⟩
  · rw [HttpConnection.receive, hleased, if_neg (by simp)]
    dsimp only
    rw [hbuf, List.nil_append, hencode, hfuel, hloop]
    rfl
  · subst hresult
    refine ⟨hidle.errCode, rfl, rfl, rfl, ?_, ?_⟩
    · rw [hkind]
      rfl
    · rw [hkind]
      change c.response.message.body ++ chunkBytes chunks = chunkBytes chunks
      rw [hidle.body, List.nil_append]

def HeaderLine.chunked : HeaderLine where
  name := ascii "Transfer-Encoding"
  value := ascii "chunked"
  nameFree := by decide
  valueNonempty := by decide
  valueTrimmed := by decide
  valueFree := by decide

/-- The lines of the block that the first chunk writes. -/
def chunkedLines (lines : List HeaderLine) (now : Tm) : List HeaderLine :=
  addLine (addLine (addLine lines .chunked) .server) (.date now)

theorem distinctNames_chunkedLines {lines : List HeaderLine} (hdistinct : DistinctNames lines)
    (now : Tm) : DistinctNames (chunkedLines lines now) := by
  unfold chunkedLines
  apply distinctNames_addLine
  apply distinctNames_addLine
  exact distinctNames_addLine hdistinct _

private theorem chunked_mem_chunkedLines {lines : List HeaderLine}
    (hencoding : ∀ line ∈ lines, toLower line.name ≠ toLower (ascii "Transfer-Encoding"))
    (now : Tm) : HeaderLine.chunked ∈ chunkedLines lines now := by
  have hnone : (headerMap lines).find HeaderLine.chunked.name = none :=
    find_headerMap_none.mpr hencoding
  have hcount : (headerMap lines).count HeaderLine.chunked.name = false := by
    rw [Headers.count, hnone]
    rfl
  apply subset_addLine
  apply subset_addLine
  rw [addLine, hcount]
  simp

/-- A status line with lines that announce a chunked body, and that body. -/
def chunkedResponse (code : StatusCode) (block : List HeaderLine) (chunks : List Chunk)
    (hframed : (WireBody.chunked chunks []).FramedBy
      (Headers.enterAll [] (block.map HeaderLine.field))) : WireResponse :=
  { sentResponse code [] [] ⟨by decide, nofun⟩ with
    fields := block.map HeaderLine.field
    body := .chunked chunks []
    framed := hframed }

theorem chunked_wire {order : Headers → Headers} (horder : ∀ headers, (order headers).Perm headers)
    (now : Tm) {res : Response} {lines : List HeaderLine} (hheaders : res.headers = headerMap lines)
    (hdistinct : DistinctNames lines)
    (hencoding : ∀ line ∈ lines, toLower line.name ≠ toLower (ascii "Transfer-Encoding"))
    (chunks : List Chunk) :
    ∃ w : WireResponse, w.body = .chunked chunks [] ∧
      w.encode = res.chunkedBlock order now ++ (encodeChunks chunks ++ lastChunk) := by
  have hfull : (res.addHeader (ascii "Transfer-Encoding") (ascii "chunked")).headers =
      headerMap (addLine lines .chunked) := by
    rw [headerMap_addLine, ← hheaders]
    rfl
  have hfinal := finalHeaders_lines now _ hfull
  obtain ⟨block, hblock, hperm⟩ : ∃ block,
      order ((res.addHeader (ascii "Transfer-Encoding") (ascii "chunked")).finalHeaders now) =
        headerMap block ∧ block.Perm (chunkedLines lines now) := by
    apply exists_lines_of_perm
    rw [hfinal]
    exact horder _
  have hdistinct' : DistinctNames block :=
    (distinctNames_chunkedLines hdistinct now).perm hperm.symm
  have hframed : (WireBody.chunked chunks []).FramedBy
      (Headers.enterAll [] (block.map HeaderLine.field)) := by
    rw [enterAll_headerMap hdistinct']
    exact find_headerMap_mem hdistinct'
      (hperm.symm.subset (chunked_mem_chunkedLines hencoding now))
  refine ⟨chunkedResponse res.statusCode block chunks hframed, rfl, ?_⟩
  have hline : (chunkedResponse res.statusCode block chunks hframed).line =
      ascii "HTTP/1.1" ++ [SP] ++ decimal res.statusCode.value ++ [SP] ++ res.statusCode.toStr := by
    simp [WireResponse.line, Angel.Http.statusLine, chunkedResponse, sentResponse, Version.text]
  rw [WireResponse.encode, hline, Response.chunkedBlock, block_lines order now _ hblock]
  change _ ++ CRLF ++ (renderFields (block.map HeaderLine.field) ++ CRLF ++
    encodeBody chunks []) = _
  rw [renderFields_map, encodeBody, encodeLast_nil]
  simp only [List.append_assoc]
  rfl

/-- The client delivers a response with this body and has read everything. -/
def HttpConnection.Decodes (c : HttpConnection) (bytes body : Bytes) : Prop :=
  ∃ c' result, c.receive bytes = some c' ∧ c'.results = c.results ++ [result] ∧
    result.errCode = .none ∧ result.message.body = body ∧ c'.buf = []

theorem not_decodes {c c' : HttpConnection} {bytes : Bytes} (hreceive : c.receive bytes = some c')
    (hunread : c'.buf ≠ []) (body : Bytes) : ¬ c.Decodes bytes body := by
  rintro ⟨c₁, _, hreceive', -, -, -, hnil⟩
  rw [hreceive] at hreceive'
  cases hreceive'
  exact hunread hnil

theorem lastChunk_ne_nil : lastChunk ≠ [] := by decide

theorem lastChunk_not_decoded {c : HttpConnection} (hready : c.Ready) (body : Bytes) :
    ¬ c.Decodes lastChunk body := by
  obtain ⟨hleased, hidle, hbuf⟩ := hready
  have hpass : HttpResponse.pass (c.response, lastChunk) = .done (c.response.failed lastChunk) := by
    rw [pass_parseLine hidle.state lastChunk_ne_nil]
    rfl
  have hreceive : ∃ c', c.receive lastChunk = some c' ∧ c'.buf = lastChunk := by
    rw [HttpConnection.receive, hleased, if_neg (by simp)]
    dsimp only
    rw [hbuf, List.nil_append, loop_done hpass]
    exact ⟨_, rfl, rfl⟩
  obtain ⟨c', hreceive, hleft⟩ := hreceive
  exact not_decodes hreceive (hleft ▸ lastChunk_ne_nil) body

private theorem chunkText_nil : chunkText [] = lastChunk := by decide

section Decoded

variable {order : Headers → Headers} (horder : ∀ headers, (order headers).Perm headers) (now : Tm)
  {res : Response} {lines : List HeaderLine} (hheaders : res.headers = headerMap lines)
  (hdistinct : DistinctNames lines)
  (hencoding : ∀ line ∈ lines, toLower line.name ≠ toLower (ascii "Transfer-Encoding"))
  {c : HttpConnection} (hready : c.Ready)

include horder hheaders hdistinct hencoding hready

private theorem chunks_decoded {chunks : List Bytes} (hne : ∀ chunk ∈ chunks, chunk ≠ [])
    (hsize : ∀ chunk ∈ chunks, chunk.length < 2 ^ 52) :
    c.Decodes (res.chunkedBlock order now ++ chunks.flatMap chunkText ++ lastChunk)
      chunks.flatten := by
  obtain ⟨coded, hencode, hflat⟩ := exists_chunks hne hsize
  obtain ⟨w, hkind, hwire⟩ := chunked_wire horder now hheaders hdistinct hencoding coded
  obtain ⟨c', result, hreceive, hresults, hresult, hleft⟩ := receive_chunked hready hkind []
  refine ⟨c', result, ?_, hresults, hresult.errCode, ?_, hleft⟩
  · rw [← hreceive, hwire, hencode, List.append_nil]
    simp only [List.append_assoc]
  · rw [hresult.body, hkind, ← hflat]
    rfl

private theorem chunks_not_decoded {chunks : List Bytes} (hempty : [] ∈ chunks)
    (hsize : ∀ chunk ∈ chunks, chunk.length < 2 ^ 52) (body : Bytes) :
    ¬ c.Decodes (res.chunkedBlock order now ++ chunks.flatMap chunkText ++ lastChunk) body := by
  obtain ⟨pre, post, rfl, hfirst⟩ := List.eq_append_cons_of_mem hempty
  obtain ⟨coded, hencode, -⟩ := exists_chunks
    (fun chunk hchunk => ne_of_mem_of_not_mem hchunk hfirst)
    (fun chunk hchunk => hsize chunk (List.mem_append_left _ hchunk))
  obtain ⟨w, hkind, hwire⟩ := chunked_wire horder now hheaders hdistinct hencoding coded
  obtain ⟨c', _, hreceive, -, -, hleft⟩ :=
    receive_chunked hready hkind (post.flatMap chunkText ++ lastChunk)
  have hunread : c'.buf ≠ [] := by simp [hleft, lastChunk_ne_nil]
  have hbytes : w.encode ++ (post.flatMap chunkText ++ lastChunk) =
      res.chunkedBlock order now ++ (pre ++ [] :: post).flatMap chunkText ++ lastChunk := by
    rw [hwire, hencode, List.flatMap_append, List.flatMap_cons, chunkText_nil]
    simp only [List.append_assoc]
  exact not_decodes (hbytes ▸ hreceive) hunread body

end Decoded

/-- A response sent in chunks is decoded unless a chunk is empty, which ends
the body, or there is none, which leaves out the header block. -/
theorem chunked_round_trip_iff (order : Headers → Headers)
    (horder : ∀ headers, (order headers).Perm headers) (now : Tm) (code : StatusCode)
    (lines : List HeaderLine) (hdistinct : DistinctNames lines)
    (hencoding : ∀ line ∈ lines, toLower line.name ≠ toLower (ascii "Transfer-Encoding"))
    (chunks : List Bytes) (hsize : ∀ chunk ∈ chunks, chunk.length < 2 ^ 52)
    (c : HttpConnection) (hready : c.Ready) :
    c.Decodes (sentBytes (((Response.mk code [] false []).addHeaders lines).execAll order now
        (chunkedCalls chunks)).2) chunks.flatten ↔
      chunks ≠ [] ∧ ∀ chunk ∈ chunks, chunk ≠ [] := by
  have hheaders : ((Response.mk code [] false []).addHeaders lines).headers = headerMap lines := by
    rw [addHeaders_eq]
    exact enterAll_headerMap hdistinct
  have hopened : ((Response.mk code [] false []).addHeaders lines).chunked = false ∧
      ((Response.mk code [] false []).addHeaders lines).chunkedBuf = [] := by
    rw [addHeaders_eq]
    exact ⟨rfl, rfl⟩
  generalize (Response.mk code [] false []).addHeaders lines = res at hheaders hopened ⊢
  by_cases hnil : chunks = []
  · subst hnil
    rw [sentBytes_done, hopened.2]
    exact iff_of_false (lastChunk_not_decoded hready _) (fun h => h.1 rfl)
  rw [sentBytes_chunked order now hopened.1 hopened.2 hnil]
  by_cases hempty : [] ∈ chunks
  · exact iff_of_false
      (chunks_not_decoded horder now hheaders hdistinct hencoding hready hempty hsize _)
      (fun h => h.2 [] hempty rfl)
  · have hne : ∀ chunk ∈ chunks, chunk ≠ [] := fun chunk hchunk =>
      ne_of_mem_of_not_mem hchunk hempty
    exact iff_of_true (chunks_decoded horder now hheaders hdistinct hencoding hready hne hsize)
      ⟨hnil, hne⟩

/-- A plain response sent in chunks. -/
def chunkedBytes (now : Tm) (chunks : List Bytes) : Bytes :=
  sentBytes (((Response.mk .ok [] false []).addHeaders [.html]).execAll id now
    (chunkedCalls chunks)).2

theorem chunked_round_trip_two :
    HttpConnection.create.Decodes
      (chunkedBytes ⟨0, 6, 10, 1994, 8, 49, 37⟩ [ascii "ab", ascii "c"]) (ascii "abc") :=
  (chunked_round_trip_iff id (fun _ => List.Perm.refl _) ⟨0, 6, 10, 1994, 8, 49, 37⟩ .ok [.html]
    (List.pairwise_singleton _ _)
    (by intro line hline; rw [List.mem_singleton.mp hline]; decide)
    [ascii "ab", ascii "c"] (by decide) .create HttpConnection.create_ready).mpr (by decide)

/-- An empty chunk between two others: the body ends in front of it. -/
theorem chunked_empty_chunk :
    (HttpConnection.create.receive
        (chunkedBytes ⟨0, 6, 10, 1994, 8, 49, 37⟩ [ascii "a", [], ascii "c"])).map
        (fun c => (c.results.map fun result => (result.errCode, result.message.body), c.buf)) =
      some ([(.none, ascii "a")], ascii "1\r\nc\r\n0\r\n\r\n") ∧
    ¬ HttpConnection.create.Decodes
      (chunkedBytes ⟨0, 6, 10, 1994, 8, 49, 37⟩ [ascii "a", [], ascii "c"]) (ascii "ac") := by
  have hreceive : (HttpConnection.create.receive
      (chunkedBytes ⟨0, 6, 10, 1994, 8, 49, 37⟩ [ascii "a", [], ascii "c"])).map
      (fun c => (c.results.map fun result => (result.errCode, result.message.body), c.buf)) =
      some ([(.none, ascii "a")], ascii "1\r\nc\r\n0\r\n\r\n") := by
    decide +kernel
  refine ⟨hreceive, ?_⟩
  rintro ⟨c, result, hdone, -, -, -, hnil⟩
  rw [hdone, Option.map_some, hnil] at hreceive
  have hempty : [] = ascii "1\r\nc\r\n0\r\n\r\n" := congrArg Prod.snd (Option.some.inj hreceive)
  exact absurd hempty (by decide)

end Angel.Http
