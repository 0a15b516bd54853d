import Angel.Http.HexStr

/-!
Chunked transfer coding: the grammar of an encoded body and what
`parse_body_by_chunked` does with a body that arrives in segments. `chunk_size`
doubles as a phase marker, so a segment that ends exactly with the data of a
chunk leaves the parser in the trailer phase.
-/

namespace Angel.Http

open Util Buffer Lib

/-- A chunk on the wire: its size line, in any spelling of the number, and its
data. -/
structure Chunk where
  size : Bytes
  data : Bytes
  sizeDigits : size.all ishex = true
  sizeValue : ofDigits 16 size = data.length
  dataNonempty : data ≠ []
  dataBounded : data.length ≤ maxSize

def Chunk.encode (c : Chunk) : Bytes := c.size ++ CRLF ++ c.data ++ CRLF

def encodeChunks (chunks : List Chunk) : Bytes := chunks.flatMap Chunk.encode

/-- The last chunk, the trailer and the line end behind it. -/
def encodeLast (trailer : List FieldLine) : Bytes :=
  ascii "0" ++ CRLF ++ renderFields trailer ++ CRLF

/-- A chunked body on the wire. -/
def encodeBody (chunks : List Chunk) (trailer : List FieldLine) : Bytes :=
  encodeChunks chunks ++ encodeLast trailer

def chunkBytes (chunks : List Chunk) : Bytes := chunks.flatMap Chunk.data

theorem Chunk.data_pos (c : Chunk) : 0 < c.data.length := List.length_pos_iff.mpr c.dataNonempty

theorem Chunk.size_ne_nil (c : Chunk) : c.size ≠ [] := by
  intro hnil
  have hvalue := c.sizeValue
  have hpos := c.data_pos
  rw [hnil] at hvalue
  simp only [ofDigits, List.foldl_nil] at hvalue
  omega

theorem Chunk.size_no_crlf (c : Chunk) : ¬ CRLF <:+: c.size := by
  apply not_crlf_of_not_mem
  intro hmem
  exact absurd (List.all_eq_true.mp c.sizeDigits CR hmem) (by decide)

theorem Chunk.fromHexStr_size (c : Chunk) : fromHexStr c.size = (c.data.length : Int) := by
  rw [fromHexStr_digits c.size_ne_nil c.sizeDigits (c.sizeValue.trans_le c.dataBounded),
    c.sizeValue]

@[simp] theorem encodeChunks_cons (c : Chunk) (chunks : List Chunk) :
    encodeChunks (c :: chunks) = c.encode ++ encodeChunks chunks :=
  List.flatMap_cons

@[simp] theorem chunkBytes_cons (c : Chunk) (chunks : List Chunk) :
    chunkBytes (c :: chunks) = c.data ++ chunkBytes chunks :=
  List.flatMap_cons

@[simp] theorem chunkBytes_append (first second : List Chunk) :
    chunkBytes (first ++ second) = chunkBytes first ++ chunkBytes second :=
  List.flatMap_append

theorem Chunk.encode_length (c : Chunk) :
    c.encode.length = c.size.length + c.data.length + 4 := by
  simp only [Chunk.encode, CRLF, List.length_append, List.length_cons, List.length_nil]
  omega

theorem encodeBody_cons (c : Chunk) (chunks : List Chunk) (trailer : List FieldLine) :
    encodeBody (c :: chunks) trailer =
      (c.size ++ CRLF) ++ (c.data ++ CRLF ++ encodeBody chunks trailer) := by
  simp [encodeBody, Chunk.encode]

theorem encodeBody_nil (trailer : List FieldLine) :
    encodeBody [] trailer = (ascii "0" ++ CRLF) ++ (renderFields trailer ++ CRLF) := by
  simp [encodeBody, encodeChunks, encodeLast]

theorem encodeBody_append (first second : List Chunk) (trailer : List FieldLine) :
    encodeBody (first ++ second) trailer = encodeChunks first ++ encodeBody second trailer := by
  simp [encodeBody, encodeChunks]

theorem encodeBody_cons_length (c : Chunk) (chunks : List Chunk) (trailer : List FieldLine) :
    (encodeBody (c :: chunks) trailer).length =
      c.size.length + c.data.length + 4 + (encodeBody chunks trailer).length := by
  rw [encodeBody, encodeChunks_cons, List.append_assoc, List.length_append, c.encode_length]
  rfl

section Streaming

-- The body that is sent, and the headers that were there before it.
variable (chunks : List Chunk) (trailer : List FieldLine) (headers : Headers)

/-- What is to come starts behind the data of a chunk of at least two bytes. -/
def AtDataEnd (rest : Bytes) : Prop :=
  ∃ pre c post, chunks = pre ++ c :: post ∧ 2 ≤ c.data.length ∧
    rest = CRLF ++ encodeBody post trailer

/-- The phases of the parser: `buf` is unread, `rest` is to come. In the data
phase of a one-byte chunk the buffer holds more than the data, because the size
line waits for two bytes behind it. -/
inductive ChunkAwaits (m : Message) (buf rest : Bytes) : Prop where
  | size (pre post : List Chunk) (hchunks : chunks = pre ++ post) (hsize : m.chunkSize = -1)
      (hbody : m.body = chunkBytes pre) (hheaders : m.headers = headers)
      (hstream : buf ++ rest = encodeBody post trailer)
  | data (pre : List Chunk) (c : Chunk) (post : List Chunk) (got left : Bytes)
      (hchunks : chunks = pre ++ c :: post) (hdata : c.data = got ++ left) (hleft : left ≠ [])
      (hsize : m.chunkSize = left.length) (hbody : m.body = chunkBytes pre ++ got)
      (hheaders : m.headers = headers)
      (hstream : buf ++ rest = left ++ CRLF ++ encodeBody post trailer)
      (hlong : 2 ≤ c.data.length ∨ left.length < buf.length)
  | trailer (done todo : List FieldLine) (hlines : trailer = done ++ todo)
      (hsize : m.chunkSize = 0) (hbody : m.body = chunkBytes chunks)
      (hheaders : m.headers = headers.enterAll done)
      (hstream : buf ++ rest = renderFields todo ++ CRLF)

/-- What a call of the parser leaves behind: the whole body, a phase that waits
for more, or the trailer phase in front of the line end of a chunk. -/
inductive ChunkOutcome (rest : Bytes) : Parsed → Prop where
  | complete (m : Message) (hrest : rest = []) (hbody : m.body = chunkBytes chunks)
      (hheaders : m.headers = headers.enterAll trailer) (hsize : m.chunkSize = -1)
      (hchunked : m.chunked = false) : ChunkOutcome rest (some (m, [], .ok))
  | waits (m : Message) (buf : Bytes) (hrest : rest ≠ [])
      (hpos : ¬ AtDataEnd chunks trailer rest) (hchunked : m.chunked = true)
      (hawaits : ChunkAwaits chunks trailer headers m buf rest) :
      ChunkOutcome rest (some (m, buf, .continue))
  | misled (m : Message) (hpos : AtDataEnd chunks trailer rest) (hsize : m.chunkSize = 0)
      (hchunked : m.chunked = true) : ChunkOutcome rest (some (m, [], .continue))

/-- What a pass leaves behind: a phase with less to read, or the outcome of the
call. -/
def ChunkPassOutcome (buf rest : Bytes) (p : Pass (Message × Bytes) Parsed) : Prop :=
  (∃ s', p = .again s' ∧
    (s'.1.chunked = true ∧ ChunkAwaits chunks trailer headers s'.1 s'.2 rest) ∧
    s'.2.length < buf.length) ∨
  ∃ r, p = .done r ∧ ChunkOutcome chunks trailer headers rest r

variable {chunks trailer headers}

/-- A position behind chunk data lies in the chunks that are not yet passed. -/
theorem AtDataEnd.inside {pre post : List Chunk} {rest : Bytes}
    (h : AtDataEnd chunks trailer rest) (hchunks : chunks = pre ++ post)
    (hlen : rest.length ≤ (encodeBody post trailer).length) :
    ∃ c post', post = c :: post' ∧
      ((2 ≤ c.data.length ∧ rest.length = 2 + (encodeBody post' trailer).length) ∨
        rest.length ≤ (encodeBody post' trailer).length) := by
  obtain ⟨pre0, c0, post0, hchunks0, hlong, rfl⟩ := h
  have htail : (CRLF ++ encodeBody post0 trailer).length =
      2 + (encodeBody post0 trailer).length := by
    simp [CRLF]
    omega
  rw [htail] at hlen ⊢
  have hinside : ∃ skipped, post = skipped ++ c0 :: post0 := by
    rcases List.append_eq_append_iff.mp (hchunks.symm.trans hchunks0) with
      ⟨skipped, _, hpost⟩ | ⟨passed, _, hpassed⟩
    · exact ⟨skipped, hpost⟩
    · cases passed with
      | nil => exact ⟨[], hpassed.symm⟩
      | cons c passed =>
          have hpost0 : post0 = passed ++ post := (List.cons.inj hpassed).2
          rw [hpost0, encodeBody_append, List.length_append] at hlen
          omega
  obtain ⟨skipped, rfl⟩ := hinside
  cases skipped with
  | nil => exact ⟨c0, post0, rfl, Or.inl ⟨hlong, rfl⟩⟩
  | cons c skipped =>
      refine ⟨c, skipped ++ c0 :: post0, rfl, Or.inr ?_⟩
      rw [encodeBody_append, List.length_append, encodeBody_cons_length]
      omega

/-- Where the parser waits in front of or inside a size line, it is not behind
chunk data. -/
theorem size_phase_waits {pre post : List Chunk} {buf rest : Bytes}
    (hchunks : chunks = pre ++ post) (hstream : buf ++ rest = encodeBody post trailer)
    (hshort : ∀ c post', post = c :: post' → buf.length < c.size.length + 4) :
    ¬ AtDataEnd chunks trailer rest := by
  intro hend
  have hlen := congrArg List.length hstream
  rw [List.length_append] at hlen
  obtain ⟨c, post', rfl, hcase⟩ := hend.inside hchunks (by omega)
  have hbuf := hshort c post' rfl
  have hpos := c.data_pos
  rw [encodeBody_cons_length] at hlen
  omega

/-- Where the parser waits for more data of a chunk, it is not behind chunk
data. -/
theorem data_phase_waits {pre post : List Chunk} {c : Chunk} {left rest : Bytes}
    (hchunks : chunks = pre ++ c :: post) (hleft : left ≠ [])
    (hlen : left.length ≤ c.data.length)
    (hrest : rest = left ++ (CRLF ++ encodeBody post trailer)) :
    ¬ AtDataEnd chunks trailer rest := by
  intro hend
  have hpos := List.length_pos_iff.mpr hleft
  have hrestLen : rest.length = left.length + 2 + (encodeBody post trailer).length := by
    rw [hrest]
    simp only [List.length_append, CRLF, List.length_cons, List.length_nil]
    omega
  obtain ⟨c', post', hpost, hcase⟩ := hend.inside hchunks (by
    rw [encodeBody_cons_length]
    omega)
  obtain ⟨rfl, rfl⟩ := List.cons.inj hpost
  omega

theorem trailer_phase_waits {done todo : List FieldLine} {buf rest : Bytes}
    (hlines : trailer = done ++ todo) (hstream : buf ++ rest = renderFields todo ++ CRLF) :
    ¬ AtDataEnd chunks trailer rest := by
  intro hend
  have hlen := congrArg List.length hstream
  have hzero : (ascii "0" ++ CRLF).length = 3 := rfl
  have hrest : rest.length ≤ (encodeBody [] trailer).length := by
    rw [encodeBody_nil, hlines, List.length_append, hzero]
    simp only [renderFields, List.flatMap_append, List.length_append] at hlen ⊢
    omega
  have hchunks : chunks = chunks ++ [] := by simp
  obtain ⟨c, post', hpost, _⟩ := hend.inside hchunks hrest
  cases hpost

theorem toSizeT_natCast {n : Nat} (h : n ≤ maxSize + 2) : toSizeT (n : Int) = n := by
  unfold maxSize at h
  unfold toSizeT
  omega

theorem chunkData_short {m : Message} {buf : Bytes} {n : Nat} (hsize : m.chunkSize = n)
    (hbound : n ≤ maxSize) (hshort : buf.length ≤ n) :
    chunkData m buf = .done (some ({ m with
      body := m.body ++ buf
      chunkSize := m.chunkSize - buf.length }, [], .continue)) := by
  have hsizeT : toSizeT m.chunkSize = n := by
    rw [hsize]
    exact toSizeT_natCast (by omega)
  rw [chunkData, hsizeT, if_neg (by omega)]

theorem chunkData_lineEnd {m : Message} {buf : Bytes} {n : Nat} (hsize : m.chunkSize = n)
    (hbound : n ≤ maxSize) (hlen : buf.length = n + 1) :
    chunkData m buf = .done (some (m, buf, .continue)) := by
  have hsizeT : toSizeT m.chunkSize = n := by
    rw [hsize]
    exact toSizeT_natCast (by omega)
  have hsizeT2 : toSizeT (m.chunkSize + 2) = n + 2 := by
    rw [hsize]
    exact toSizeT_natCast (n := n + 2) (by omega)
  rw [chunkData, hsizeT, hsizeT2, if_pos (by omega), if_pos (by omega)]

theorem chunkData_whole {m : Message} {data : Bytes} (hsize : m.chunkSize = data.length)
    (hbound : data.length ≤ maxSize) (extra : Bytes) :
    chunkData m (data ++ (CRLF ++ extra)) =
      .again ({ m with body := m.body ++ data, chunkSize := -1 }, extra) := by
  have hsizeT : toSizeT m.chunkSize = data.length := by
    rw [hsize]
    exact toSizeT_natCast (by omega)
  have hsizeT2 : toSizeT (m.chunkSize + 2) = data.length + 2 := by
    rw [hsize]
    exact toSizeT_natCast (n := data.length + 2) (by omega)
  have hlen : (data ++ (CRLF ++ extra)).length = data.length + (extra.length + 2) := by
    simp [CRLF]
  unfold chunkData
  rw [hsizeT, hsizeT2, if_pos (by omega), if_neg (by omega)]
  dsimp only
  rw [List.take_left, List.drop_left, if_pos (by simp [startsWith])]
  rfl

/-- The CRLF behind a chunk has arrived in part: its CR alone, or not at all. -/
theorem crlf_arriving {extra more : Bytes} (hcrlf : extra ++ more = CRLF) (hmore : more ≠ []) :
    extra = [] ∨ (extra.length = 1 ∧ more = [LF]) := by
  rcases extra with _ | ⟨b, _ | ⟨b', extra⟩⟩
  · exact Or.inl rfl
  · exact Or.inr ⟨rfl, (List.cons.inj hcrlf).2⟩
  · have hlen := congrArg List.length hcrlf
    have hpos := List.length_pos_iff.mpr hmore
    simp only [CRLF, List.length_append, List.length_cons, List.length_nil] at hlen
    omega

theorem chunkData_outcome {m : Message} {buf rest : Bytes} {pre : List Chunk} {c : Chunk}
    {post : List Chunk} {got left : Bytes} (hchunked : m.chunked = true)
    (hchunks : chunks = pre ++ c :: post) (hdata : c.data = got ++ left) (hleft : left ≠ [])
    (hsize : m.chunkSize = left.length) (hbody : m.body = chunkBytes pre ++ got)
    (hheaders : m.headers = headers)
    (hstream : buf ++ rest = left ++ CRLF ++ encodeBody post trailer)
    (hlong : 2 ≤ c.data.length ∨ left.length < buf.length) :
    ChunkPassOutcome chunks trailer headers buf rest (chunkData m buf) := by
  have hdataLen := congrArg List.length hdata
  rw [List.length_append] at hdataLen
  have hbound : left.length ≤ maxSize := by
    have hmax := c.dataBounded
    omega
  have hstream' := hstream
  rw [List.append_assoc] at hstream'
  rcases arrived_cases hstream' with ⟨more, hmore, hbuf, hrest⟩ | ⟨extra, hbuf, hextra⟩
  · -- a proper part of the data has arrived
    have hlen := congrArg List.length hbuf
    have hmorePos := List.length_pos_iff.mpr hmore
    rw [List.length_append] at hlen
    rw [chunkData_short hsize hbound (by omega)]
    refine Or.inr ⟨_, rfl, .waits _ _ (by simp [hrest, hmore]) ?_ hchunked ?_⟩
    · exact data_phase_waits hchunks hmore (by omega) hrest
    · refine .data pre c post (got ++ buf) more hchunks ?_ hmore ?_ ?_ hheaders ?_ ?_
      · rw [hdata, ← hbuf, List.append_assoc]
      · change m.chunkSize - buf.length = more.length
        omega
      · change m.body ++ buf = chunkBytes pre ++ (got ++ buf)
        rw [hbody, List.append_assoc]
      · simpa using hrest
      · exact Or.inl (by omega)
  · rcases arrived_cases (x := CRLF) hextra with
      ⟨more, hmore, hcrlf, hrest⟩ | ⟨extra', hcrlf, hextra'⟩
    · rcases crlf_arriving hcrlf hmore with rfl | ⟨hone, hLF⟩
      · -- the data is complete and nothing behind it has arrived
        have hall : buf = left := by simpa using hbuf
        subst hall
        have htwo : 2 ≤ c.data.length := by omega
        rw [chunkData_short hsize hbound (Nat.le_refl _)]
        refine Or.inr ⟨_, rfl, .misled _ ⟨pre, c, post, hchunks, htwo, hextra⟩ ?_ hchunked⟩
        change m.chunkSize - buf.length = 0
        omega
      · -- only the CR of the line end has arrived
        have hlen : buf.length = left.length + 1 := by rw [hbuf, List.length_append, hone]
        rw [chunkData_lineEnd hsize hbound hlen]
        refine Or.inr ⟨_, rfl, .waits _ _ (by simp [hrest, hmore]) ?_ hchunked ?_⟩
        · rintro ⟨_, _, _, _, _, hend⟩
          rw [hrest, hLF] at hend
          exact absurd (List.cons.inj hend).1 (by decide)
        · exact .data pre c post got left hchunks hdata hleft hsize hbody hheaders hstream
            (Or.inr (by omega))
    · -- data and line end are consumed
      subst hbuf hcrlf
      rw [chunkData_whole hsize hbound]
      refine Or.inl ⟨_, rfl, ⟨hchunked, ?_⟩, ?_⟩
      · refine .size (pre ++ [c]) post (by simp [hchunks]) rfl ?_ hheaders hextra'
        change m.body ++ left = chunkBytes (pre ++ [c])
        rw [hbody, chunkBytes_append, chunkBytes_cons, hdata]
        simp [chunkBytes]
      · simp only [List.length_append, CRLF, List.length_cons, List.length_nil]
        omega

theorem chunkPass_size {m : Message} {buf rest : Bytes} {pre post : List Chunk} {c : Chunk}
    (hchunked : m.chunked = true) (hchunks : chunks = pre ++ c :: post)
    (hsize : m.chunkSize = -1) (hbody : m.body = chunkBytes pre) (hheaders : m.headers = headers)
    (hstream : buf ++ rest = encodeBody (c :: post) trailer) (hbuf : buf ≠ []) :
    ChunkPassOutcome chunks trailer headers buf rest (chunkPass (m, buf)) := by
  have hawaits : ChunkAwaits chunks trailer headers m buf rest :=
    .size pre (c :: post) hchunks hsize hbody hheaders hstream
  have hwait : buf.length < c.size.length + 4 →
      ChunkOutcome chunks trailer headers rest (some (m, buf, .continue)) := by
    intro hshort
    refine .waits m buf ?_ ?_ hchunked hawaits
    · intro hnil
      have hlen := congrArg List.length hstream
      have hpos := c.data_pos
      rw [hnil, List.append_nil, encodeBody_cons_length] at hlen
      omega
    · refine size_phase_waits hchunks hstream ?_
      intro c' post' heq
      obtain ⟨rfl, rfl⟩ := List.cons.inj heq
      exact hshort
  have hsplit := hstream
  rw [encodeBody_cons] at hsplit
  unfold chunkPass
  dsimp only
  rw [if_neg hbuf, if_pos hsize]
  rcases arrived_cases hsplit with ⟨more, hmore, hline, hrest⟩ | ⟨extra, hline, hextra⟩
  · right
    rw [findCrlf_incomplete c.size_no_crlf hline hmore]
    refine ⟨_, rfl, hwait ?_⟩
    have hlen := congrArg List.length hline
    simp only [List.length_append, CRLF, List.length_cons, List.length_nil] at hlen
    omega
  · have hlen : buf.length = c.size.length + 2 + extra.length := by
      rw [hline]
      simp only [List.length_append, CRLF, List.length_cons, List.length_nil]
    rw [hline, findCrlf_line c.size_no_crlf extra, ← hline]
    dsimp only
    by_cases hshort : buf.length < c.size.length + 4
    · right
      exact ⟨_, if_pos hshort, hwait hshort⟩
    · have htake : buf.take c.size.length = c.size := hline ▸ take_line c.size extra
      have hdrop : buf.drop (c.size.length + 2) = extra := hline ▸ drop_line c.size extra
      have hpos := c.data_pos
      have hlong : 2 ≤ c.data.length ∨ c.data.length < extra.length := by omega
      rw [if_neg hshort, htake, hdrop, c.fromHexStr_size, if_neg (by omega), if_neg (by omega)]
      -- the size line is consumed and the pass goes on with the data
      have hdata : c.data = [] ++ c.data := rfl
      rcases chunkData_outcome (m := { m with chunkSize := c.data.length }) hchunked hchunks
          hdata c.dataNonempty rfl (by simpa using hbody) hheaders hextra hlong with
        ⟨s', hrun, hphase, hless⟩ | hdone
      · exact Or.inl ⟨s', hrun, hphase, by omega⟩
      · exact Or.inr hdone

theorem zero_no_crlf : ¬ CRLF <:+: ascii "0" := not_crlf_of_not_mem (by decide)

theorem chunkPass_last {m : Message} {buf rest : Bytes} (hchunked : m.chunked = true)
    (hsize : m.chunkSize = -1) (hbody : m.body = chunkBytes chunks)
    (hheaders : m.headers = headers) (hstream : buf ++ rest = encodeBody [] trailer)
    (hbuf : buf ≠ []) :
    ChunkPassOutcome chunks trailer headers buf rest (chunkPass (m, buf)) := by
  have hwait : buf.length < 5 →
      ChunkOutcome chunks trailer headers rest (some (m, buf, .continue)) := by
    intro hshort
    refine .waits m buf ?_ ?_ hchunked ?_
    · intro hnil
      have hlen := congrArg List.length hstream
      rw [hnil, List.append_nil, encodeBody_nil] at hlen
      simp only [List.length_append, CRLF, List.length_cons, List.length_nil] at hlen
      have hzero : (ascii "0").length = 1 := rfl
      omega
    · have hchunks : chunks = chunks ++ [] := by simp
      refine size_phase_waits hchunks hstream ?_
      intro c post' heq
      cases heq
    · exact .size chunks [] (by simp) hsize hbody hheaders hstream
  have hsplit := hstream
  rw [encodeBody_nil] at hsplit
  unfold chunkPass
  dsimp only
  rw [if_neg hbuf, if_pos hsize]
  rcases arrived_cases hsplit with ⟨more, hmore, hline, hrest⟩ | ⟨extra, hline, hextra⟩
  · right
    rw [findCrlf_incomplete zero_no_crlf hline hmore]
    refine ⟨_, rfl, hwait ?_⟩
    have hlen := congrArg List.length hline
    have hzero : (ascii "0" ++ CRLF).length = 3 := rfl
    rw [List.length_append, hzero] at hlen
    omega
  · have hlen : buf.length = 3 + extra.length := by
      rw [hline, List.length_append]
      rfl
    rw [hline, findCrlf_line zero_no_crlf extra, ← hline]
    dsimp only
    by_cases hshort : buf.length < (ascii "0").length + 4
    · right
      exact ⟨_, if_pos hshort, hwait hshort⟩
    · left
      have htake : buf.take (ascii "0").length = ascii "0" := hline ▸ take_line (ascii "0") extra
      have hdrop : buf.drop ((ascii "0").length + 2) = extra := hline ▸ drop_line (ascii "0") extra
      have hzero : fromHexStr (ascii "0") = 0 := by decide
      rw [if_neg hshort, htake, hdrop, hzero, if_neg (by omega), if_pos rfl]
      refine ⟨_, rfl, ⟨hchunked, ?_⟩, by dsimp only; omega⟩
      exact .trailer [] trailer rfl rfl hbody hheaders hextra

private theorem chunkPass_trailer {m : Message} {buf rest : Bytes} {done todo : List FieldLine}
    (hchunked : m.chunked = true) (hlines : trailer = done ++ todo) (hsize : m.chunkSize = 0)
    (hbody : m.body = chunkBytes chunks) (hheaders : m.headers = headers.enterAll done)
    (hstream : buf ++ rest = renderFields todo ++ CRLF) (hbuf : buf ≠ []) :
    ChunkPassOutcome chunks trailer headers buf rest (chunkPass (m, buf)) := by
  right
  rw [chunkPass_atTrailer hbuf hsize, chunkTrailer]
  have hblock : buf ++ rest = renderFields todo ++ CRLF ++ [] := by simpa using hstream
  rcases parseHeader_fields todo m hblock with
    ⟨extra, hafter, _, hparse⟩ | ⟨done', todo', left, htodo, hshape, hleft, hne, hparse⟩
  · obtain ⟨rfl, rfl⟩ := List.append_eq_nil_iff.mp hafter
    rw [hparse]
    refine ⟨_, rfl, .complete _ rfl hbody ?_ rfl rfl⟩
    change m.headers.enterAll todo = headers.enterAll trailer
    rw [hheaders, hlines]
    simp
  · rw [hparse]
    refine ⟨_, rfl, .waits _ _ hne ?_ hchunked ?_⟩
    · exact trailer_phase_waits hlines hstream
    · refine .trailer (done ++ done') todo' (by simp [hlines, htodo]) hsize hbody ?_
        (by simpa using hleft)
      change m.headers.enterAll done' = headers.enterAll (done ++ done')
      rw [hheaders]
      simp

theorem ChunkAwaits.waiting {m : Message} {rest : Bytes}
    (h : ChunkAwaits chunks trailer headers m [] rest) :
    rest ≠ [] ∧ ¬ AtDataEnd chunks trailer rest := by
  cases h with
  | size pre post hchunks hsize hbody hheaders hstream =>
      refine ⟨?_, size_phase_waits hchunks hstream (by simp)⟩
      rintro rfl
      simp [encodeBody, encodeLast, CRLF] at hstream
  | data pre c post got left hchunks hdata hleft hsize hbody hheaders hstream hlong =>
      have hshape : rest = left ++ (CRLF ++ encodeBody post trailer) := by simpa using hstream
      refine ⟨by simp [hshape, hleft], data_phase_waits hchunks hleft ?_ hshape⟩
      simp [hdata]
  | trailer done todo hlines hsize hbody hheaders hstream =>
      refine ⟨?_, trailer_phase_waits hlines hstream⟩
      rintro rfl
      simp [CRLF] at hstream

theorem parseBodyByChunked_outcome {m : Message} {buf rest : Bytes}
    (hchunked : m.chunked = true) (h : ChunkAwaits chunks trailer headers m buf rest) :
    ChunkOutcome chunks trailer headers rest (m.parseBodyByChunked buf) := by
  have hpass : ∀ s : Message × Bytes,
      (s.1.chunked = true ∧ ChunkAwaits chunks trailer headers s.1 s.2 rest) →
      ChunkPassOutcome chunks trailer headers s.2 rest (chunkPass s) := by
    rintro ⟨m, buf⟩ ⟨hchunked, hawaits⟩
    by_cases hbuf : buf = []
    · subst hbuf
      exact Or.inr ⟨_, rfl, .waits m [] hawaits.waiting.1 hawaits.waiting.2 hchunked hawaits⟩
    · cases hawaits with
      | size pre post hchunks hsize hbody hheaders hstream =>
          cases post with
          | nil =>
              rw [List.append_nil] at hchunks
              exact chunkPass_last hchunked hsize (hchunks ▸ hbody) hheaders hstream hbuf
          | cons c post =>
              exact chunkPass_size hchunked hchunks hsize hbody hheaders hstream hbuf
      | data pre c post got left hchunks hdata hleft hsize hbody hheaders hstream hlong =>
          have hpos := List.length_pos_iff.mpr hleft
          have hcount : m.chunkSize = left.length := hsize
          rw [chunkPass_atData hbuf (by omega) (by omega)]
          exact chunkData_outcome hchunked hchunks hdata hleft hsize hbody hheaders hstream hlong
      | trailer done todo hlines hsize hbody hheaders hstream =>
          exact chunkPass_trailer hchunked hlines hsize hbody hheaders hstream hbuf
  obtain ⟨r, hloop, hout⟩ := loop_spec (fun s => s.2.length) hpass
    (s := (m, buf)) ⟨hchunked, h⟩ (Nat.lt_succ_self _)
  simpa [Message.parseBodyByChunked, hloop] using hout

theorem ChunkAwaits.receive {m : Message} {buf seg rest : Bytes}
    (h : ChunkAwaits chunks trailer headers m buf (seg ++ rest)) :
    ChunkAwaits chunks trailer headers m (buf ++ seg) rest := by
  cases h with
  | size pre post hchunks hsize hbody hheaders hstream =>
      exact .size pre post hchunks hsize hbody hheaders (by simpa using hstream)
  | data pre c post got left hchunks hdata hleft hsize hbody hheaders hstream hlong =>
      refine .data pre c post got left hchunks hdata hleft hsize hbody hheaders
        (by simpa using hstream) ?_
      rw [List.length_append]
      omega
  | trailer done todo hlines hsize hbody hheaders hstream =>
      exact .trailer done todo hlines hsize hbody hheaders (by simpa using hstream)

end Streaming

/-- The segments are appended to the buffer one by one, each followed by a call
of `parse_body`: the return codes, the message and the unread bytes. -/
def streamBody : Message → Bytes → List Bytes → Option (List StatusCode × Message × Bytes)
  | m, buf, [] => some ([], m, buf)
  | m, buf, seg :: segments =>
      match m.parseBody (buf ++ seg) with
      | none => none
      | some (m, buf, code) =>
          (streamBody m buf segments).map fun (codes, m, buf) => (code :: codes, m, buf)

/-- `Continue` for every segment but the last, then `Ok`, with the whole body
and nothing unread. -/
def StreamsTo (body : Bytes) (segments : List Bytes) (last : Bytes) (m : Message) (buf : Bytes) :
    Prop :=
  ∃ m', streamBody m buf (segments ++ [last]) =
      some (List.replicate segments.length .continue ++ [.ok], m', []) ∧ m'.body = body

theorem streamsTo_nil {body last : Bytes} {m : Message} {buf : Bytes} :
    StreamsTo body [] last m buf ↔
      ∃ m', m.parseBody (buf ++ last) = some (m', [], .ok) ∧ m'.body = body := by
  unfold StreamsTo
  cases hcall : m.parseBody (buf ++ last) with
  | none => simp [streamBody, hcall]
  | some r =>
      obtain ⟨m1, buf1, code⟩ := r
      simp only [streamBody, hcall, List.nil_append, List.length_nil, List.replicate_zero,
        Option.map_some, Option.some.injEq, Prod.mk.injEq, List.cons.injEq, and_true]
      constructor
      · rintro ⟨m', ⟨rfl, rfl, rfl⟩, hbody⟩
        exact ⟨m1, ⟨rfl, rfl, rfl⟩, hbody⟩
      · rintro ⟨m', ⟨rfl, rfl, rfl⟩, hbody⟩
        exact ⟨m1, ⟨rfl, rfl, rfl⟩, hbody⟩

theorem streamsTo_cons {body seg last : Bytes} {segments : List Bytes} {m : Message}
    {buf : Bytes} :
    StreamsTo body (seg :: segments) last m buf ↔
      ∃ m' buf', m.parseBody (buf ++ seg) = some (m', buf', .continue) ∧
        StreamsTo body segments last m' buf' := by
  unfold StreamsTo
  cases hcall : m.parseBody (buf ++ seg) with
  | none => simp [streamBody, hcall]
  | some r =>
      obtain ⟨m1, buf1, code⟩ := r
      simp only [streamBody, hcall, List.cons_append, List.length_cons, List.replicate_succ,
        Option.some.injEq, Prod.mk.injEq]
      constructor
      · rintro ⟨m', hrun, hbody⟩
        obtain ⟨⟨codes, m2, buf2⟩, hrest, heq⟩ := Option.map_eq_some_iff.mp hrun
        obtain ⟨⟨rfl, rfl⟩, rfl, rfl⟩ := by simpa using heq
        exact ⟨m1, buf1, ⟨rfl, rfl, rfl⟩, m2, hrest, hbody⟩
      · rintro ⟨_, _, ⟨rfl, rfl, rfl⟩, m', hrest, hbody⟩
        exact ⟨m', by rw [hrest]; rfl, hbody⟩

private theorem parseBody_misled {m : Message} {buf rest tail : Bytes} (hchunked : m.chunked = true)
    (hsize : m.chunkSize = 0) (hstream : buf ++ rest = CRLF ++ tail) :
    (∃ m' extra, extra ++ rest = tail ∧ m.parseBody buf = some (m', extra, .ok)) ∨
    (m.parseBody buf = some (m, buf, .continue)) := by
  rw [Message.parseBody, if_pos hchunked, Message.parseBodyByChunked]
  by_cases hbuf : buf = []
  · subst hbuf
    exact Or.inr rfl
  have hpass : chunkPass (m, buf) = chunkTrailer m buf := chunkPass_atTrailer hbuf hsize
  have hblock : buf ++ rest = renderFields [] ++ CRLF ++ tail := by
    simpa [renderFields] using hstream
  rcases parseHeader_fields [] m hblock with
    ⟨extra, hafter, _, hparse⟩ | ⟨done, todo, left, hnil, hshape, _, _, hparse⟩
  · left
    rw [chunkTrailer, hparse] at hpass
    exact ⟨_, extra, hafter, by rw [loop_done hpass]; rfl⟩
  · right
    obtain ⟨rfl, rfl⟩ := List.append_eq_nil_iff.mp hnil.symm
    have hleft : buf = left := by simpa [renderFields] using hshape
    subst hleft
    rw [chunkTrailer, hparse] at hpass
    rw [loop_done hpass]
    rfl

private theorem misled_streams_nothing {body last tail : Bytes} (htail : tail ≠ [])
    {segments : List Bytes} {m : Message} {buf : Bytes} (hchunked : m.chunked = true)
    (hsize : m.chunkSize = 0) (hstream : buf ++ (segments.flatten ++ last) = CRLF ++ tail) :
    ¬ StreamsTo body segments last m buf := by
  induction segments generalizing buf with
  | nil =>
      rw [streamsTo_nil]
      rintro ⟨m', hcall, _⟩
      have hall : (buf ++ last) ++ [] = CRLF ++ tail := by simpa using hstream
      rcases parseBody_misled hchunked hsize hall with ⟨m1, extra, hextra, hmisled⟩ | hmisled
      · rw [hmisled] at hcall
        simp only [Option.some.injEq, Prod.mk.injEq] at hcall
        exact htail (by rw [← hextra, hcall.2.1]; rfl)
      · rw [hmisled] at hcall
        simp at hcall
  | cons seg segments ih =>
      rw [streamsTo_cons]
      rintro ⟨m', buf', hcall, hmore⟩
      have hnext : (buf ++ seg) ++ (segments.flatten ++ last) = CRLF ++ tail := by
        simpa using hstream
      rcases parseBody_misled hchunked hsize hnext with ⟨m1, extra, hextra, hmisled⟩ | hmisled
      · rw [hmisled] at hcall
        simp at hcall
      · rw [hmisled] at hcall
        simp only [Option.some.injEq, Prod.mk.injEq, and_true] at hcall
        obtain ⟨rfl, rfl⟩ := hcall
        exact ih hnext hmore

/-- From any phase the stream is decoded exactly when no segment leaves the
parser behind chunk data. -/
theorem ChunkAwaits.streamsTo_iff {chunks : List Chunk} {trailer : List FieldLine}
    {headers : Headers} {last : Bytes} (hlast : last ≠ []) {segments : List Bytes}
    {m : Message} {buf : Bytes} (hchunked : m.chunked = true)
    (h : ChunkAwaits chunks trailer headers m buf (segments.flatten ++ last)) :
    StreamsTo (chunkBytes chunks) segments last m buf ↔
      ∀ front back, segments = front ++ back → front ≠ [] →
        ¬ AtDataEnd chunks trailer (back.flatten ++ last) := by
  induction segments generalizing m buf with
  | nil =>
      have harrived : ChunkAwaits chunks trailer headers m buf (last ++ []) := by simpa using h
      have hcall := parseBodyByChunked_outcome hchunked harrived.receive
      rw [streamsTo_nil, Message.parseBody, if_pos hchunked]
      generalize m.parseBodyByChunked (buf ++ last) = r at hcall
      cases hcall with
      | complete m' hrest hbody hheaders hsize hchunked' =>
          constructor
          · rintro _ front back hsplit hfront
            exact absurd (List.append_eq_nil_iff.mp hsplit.symm).1 hfront
          · exact fun _ => ⟨m', rfl, hbody⟩
      | waits m' buf' hrest => exact absurd rfl hrest
      | misled m' hpos =>
          obtain ⟨_, _, _, _, _, hnil⟩ := hpos
          simp [CRLF] at hnil
  | cons seg segments ih =>
      have harrived : ChunkAwaits chunks trailer headers m buf
          (seg ++ (segments.flatten ++ last)) := by simpa using h
      have hcall := parseBodyByChunked_outcome hchunked harrived.receive
      rw [streamsTo_cons, Message.parseBody, if_pos hchunked]
      generalize m.parseBodyByChunked (buf ++ seg) = r at hcall
      cases hcall with
      | complete m' hrest =>
          exact absurd (List.append_eq_nil_iff.mp hrest).2 hlast
      | waits m' buf' hrest hpos hchunked' hawaits =>
          constructor
          · rintro ⟨_, _, hsame, hmore⟩ front back hsplit hfront
            simp only [Option.some.injEq, Prod.mk.injEq, and_true] at hsame
            obtain ⟨rfl, rfl⟩ := hsame
            cases front with
            | nil => exact absurd rfl hfront
            | cons seg' front =>
                have hsplit' : segments = front ++ back := (List.cons.inj hsplit).2
                cases front with
                | nil =>
                    rw [List.nil_append] at hsplit'
                    rwa [← hsplit']
                | cons seg'' front =>
                    exact (ih hchunked' hawaits).mp hmore (seg'' :: front) back hsplit'
                      (by simp)
          · intro hclean
            refine ⟨m', buf', rfl, (ih hchunked' hawaits).mpr ?_⟩
            intro front back hsplit _
            exact hclean (seg :: front) back (by rw [hsplit]; rfl) (by simp)
      | misled m' hpos hsize hchunked' =>
          constructor
          · rintro ⟨_, _, hsame, hmore⟩
            simp only [Option.some.injEq, Prod.mk.injEq, and_true] at hsame
            obtain ⟨rfl, rfl⟩ := hsame
            obtain ⟨_, _, post, _, _, hrest⟩ := hpos
            refine absurd hmore (misled_streams_nothing ?_ hchunked' hsize (by simpa using hrest))
            simp [encodeBody, encodeLast, CRLF]
          · intro hclean
            exact absurd hpos (hclean [seg] segments rfl (by simp))

/-- The bytes that have arrived end with the data of a chunk of at least two
bytes. -/
def EndsInData (chunks : List Chunk) (arrived : Bytes) : Prop :=
  ∃ pre c post, chunks = pre ++ c :: post ∧ 2 ≤ c.data.length ∧
    arrived = encodeChunks pre ++ (c.size ++ CRLF ++ c.data)

private theorem endsInData_iff {chunks : List Chunk} {trailer : List FieldLine}
    {arrived rest : Bytes}
    (h : arrived ++ rest = encodeBody chunks trailer) :
    EndsInData chunks arrived ↔ AtDataEnd chunks trailer rest := by
  have hshape : ∀ pre c post, chunks = pre ++ c :: post → arrived ++ rest =
      (encodeChunks pre ++ (c.size ++ CRLF ++ c.data)) ++ (CRLF ++ encodeBody post trailer) := by
    rintro pre c post rfl
    rw [h, encodeBody_append, encodeBody_cons]
    simp
  constructor
  · rintro ⟨pre, c, post, hchunks, hlong, harrived⟩
    refine ⟨pre, c, post, hchunks, hlong, ?_⟩
    have hwhole := hshape pre c post hchunks
    rw [← harrived] at hwhole
    exact List.append_cancel_left hwhole
  · rintro ⟨pre, c, post, hchunks, hlong, hrest⟩
    refine ⟨pre, c, post, hchunks, hlong, ?_⟩
    have hwhole := hshape pre c post hchunks
    rw [← hrest] at hwhole
    exact List.append_cancel_right hwhole

/-- A message whose chunked body is about to be read. -/
def Message.awaitingChunks (headers : Headers) (length : Nat) : Message where
  headers := headers
  body := []
  length := length
  chunked := true
  chunkSize := -1

/-- A chunked body is decoded exactly, in every segmentation in which no
segment ends with the data of a chunk of two bytes or more, and in no other. -/
theorem chunked_body_streams_iff (headers : Headers) (length : Nat) (chunks : List Chunk)
    (trailer : List FieldLine) (segments : List Bytes) (last : Bytes) (hlast : last ≠ [])
    (hsplit : segments.flatten ++ last = encodeBody chunks trailer) :
    StreamsTo (chunkBytes chunks) segments last (Message.awaitingChunks headers length) [] ↔
      ∀ front back, segments = front ++ back → ¬ EndsInData chunks front.flatten := by
  have hstart : ChunkAwaits chunks trailer headers (Message.awaitingChunks headers length) []
      (segments.flatten ++ last) :=
    .size [] chunks rfl rfl rfl rfl hsplit
  rw [ChunkAwaits.streamsTo_iff hlast rfl hstart]
  have hends : ∀ front back, segments = front ++ back →
      (EndsInData chunks front.flatten ↔ AtDataEnd chunks trailer (back.flatten ++ last)) := by
    rintro front back rfl
    exact endsInData_iff (by simpa using hsplit)
  constructor
  · intro hclean front back hsegments
    cases front with
    | nil =>
        rintro ⟨pre, c, post, _, _, hnil⟩
        simp [CRLF] at hnil
    | cons seg front =>
        rw [hends (seg :: front) back hsegments]
        exact hclean (seg :: front) back hsegments (by simp)
  · intro hclean front back hsegments _
    rw [← hends front back hsegments]
    exact hclean front back hsegments

/-- The chunk `ab`, for the two streams below. -/
def Chunk.ab : Chunk where
  size := ascii "2"
  data := ascii "ab"
  sizeDigits := by decide
  sizeValue := by decide
  dataNonempty := by decide
  dataBounded := by decide

/-- A segment that ends inside the data does no harm. -/
theorem chunked_body_streams_inside_data :
    StreamsTo (ascii "ab") [ascii "2\r\na"] (ascii "b\r\n0\r\n\r\n")
      (Message.awaitingChunks [] 0) [] := by
  refine (chunked_body_streams_iff [] 0 [Chunk.ab] [] [ascii "2\r\na"]
    (ascii "b\r\n0\r\n\r\n") (by decide) (by decide)).mpr ?_
  rintro front back hsplit ⟨pre, c, post, hchunks, _, harrived⟩
  have hpre : pre = [] ∧ c = Chunk.ab := by
    cases pre with
    | nil => exact ⟨rfl, (List.cons.inj hchunks).1.symm⟩
    | cons c' pre =>
        have := (List.cons.inj hchunks).2
        simp at this
  have hlen : front.flatten.length = 5 := by
    rw [harrived, hpre.1, hpre.2]
    rfl
  have hshort := congrArg (fun segs => segs.flatten.length) hsplit
  have hfour : ([ascii "2\r\na"].flatten).length = 4 := rfl
  simp only [List.flatten_append, List.length_append] at hshort
  omega

/-- A segment that ends with the data: the body is taken to end with the line
end of the chunk, and the last chunk is left unread. -/
theorem chunked_body_misled_after_data :
    [ascii "2\r\nab"].flatten ++ ascii "\r\n0\r\n\r\n" = encodeBody [Chunk.ab] [] ∧
    ¬ StreamsTo (ascii "ab") [ascii "2\r\nab"] (ascii "\r\n0\r\n\r\n")
      (Message.awaitingChunks [] 0) [] := by
  refine ⟨by decide, ?_⟩
  rintro ⟨m', hrun, _⟩
  have hactual : (streamBody (Message.awaitingChunks [] 0) []
      [ascii "2\r\nab", ascii "\r\n0\r\n\r\n"]).map (fun r => r.2.2) =
      some (ascii "0\r\n\r\n") := by decide
  have hclaimed := congrArg (Option.map fun r => r.2.2) hrun
  rw [List.cons_append, List.nil_append, hactual, Option.map_some] at hclaimed
  have hempty : ascii "0\r\n\r\n" = [] := Option.some.inj hclaimed
  exact absurd hempty (by decide)

end Angel.Http
