import Angel.Http.Delivery
import Angel.Http.Response
import Mathlib.Data.List.Perm.Basic

/-!
The client decodes what the server encodes: the bytes of `response::send` are
a complete response in the sense of `WireResponse`, whatever the order in which
the header map is traversed.
-/

namespace Angel.Http

open Util Lib

/-- The bytes that end no line. -/
def LineByte (b : UInt8) : Prop := b ≠ CR ∧ b ≠ LF

instance (b : UInt8) : Decidable (LineByte b) := inferInstanceAs (Decidable (_ ∧ _))

private theorem lineByte_of_not_space {b : UInt8} (h : isspace b = false) : LineByte b := by
  constructor
  · rintro rfl
    exact absurd h (by decide)
  · rintro rfl
    exact absurd h (by decide)

theorem decimal_not_space (n : Nat) : ∀ b ∈ decimal n, isspace b = false :=
  fun b hb => isspace_of_isdigit (List.all_eq_true.mp (decimal_digits n) b hb)

theorem decimal_lineByte (n : Nat) : ∀ b ∈ decimal n, LineByte b :=
  fun b hb => lineByte_of_not_space (decimal_not_space n b hb)

theorem twoDigits_lineByte (n : Nat) : ∀ b ∈ twoDigits n, LineByte b := by
  intro b hb
  unfold twoDigits at hb
  split at hb
  · rcases List.mem_cons.mp hb with rfl | hb
    · decide
    · exact decimal_lineByte n b hb
  · exact decimal_lineByte n b hb

private theorem wkday_lineByte : ∀ d : Fin 7, ∀ b ∈ wkday d, LineByte b := by decide

private theorem month_lineByte : ∀ m : Fin 12, ∀ b ∈ month m, LineByte b := by decide

theorem formatDate_lineByte (tm : Tm) : ∀ b ∈ formatDate tm, LineByte b := by
  have hcomma : ∀ b ∈ ascii ", ", LineByte b := by decide
  have hblank : ∀ b ∈ ascii " ", LineByte b := by decide
  have hcolon : ∀ b ∈ ascii ":", LineByte b := by decide
  have hzone : ∀ b ∈ ascii " GMT", LineByte b := by decide
  simp only [formatDate, List.forall_mem_append]
  and_intros
  · exact wkday_lineByte _
  · exact hcomma
  · exact twoDigits_lineByte _
  · exact hblank
  · exact month_lineByte _
  · exact hblank
  · exact decimal_lineByte _
  · exact hblank
  · exact twoDigits_lineByte _
  · exact hcolon
  · exact twoDigits_lineByte _
  · exact hcolon
  · exact twoDigits_lineByte _
  · exact hzone

private theorem wkday_front : ∀ d : Fin 7, ∃ c ∈ (wkday d).head?, isspace c = false := by decide

theorem formatDate_trim (tm : Tm) : trim (formatDate tm) = formatDate tm := by
  obtain ⟨c, hfront, hspace⟩ := wkday_front tm.wday
  obtain ⟨s, hwkday⟩ := List.head?_eq_some_iff.mp hfront
  have hfirst : (formatDate tm).head? = some c := by simp [formatDate, hwkday]
  have hlast : (formatDate tm).getLast? = some 84 := by
    rw [formatDate, List.getLast?_append_of_ne_nil _ (by decide)]
    rfl
  apply Lib.trimmed_of_ends
  · intro b hb
    rw [hfirst] at hb
    cases hb
    exact hspace
  · intro b hb
    rw [hlast] at hb
    cases hb
    rfl

theorem formatDate_ne_nil (tm : Tm) : formatDate tm ≠ [] := by
  simp [formatDate, ascii]

/-- The lines `send` and `header()` add. -/
def HeaderLine.contentLength (n : Nat) : HeaderLine where
  name := ascii "Content-Length"
  value := decimal n
  nameFree := by decide
  valueNonempty := decimal_ne_nil n
  valueTrimmed := Lib.trimmed_of_forall (decimal_not_space n)
  valueFree := decimal_lineByte n

def HeaderLine.server : HeaderLine where
  name := ascii "Server"
  value := ascii "angel"
  nameFree := by decide
  valueNonempty := by decide
  valueTrimmed := by decide
  valueFree := by decide

def HeaderLine.date (tm : Tm) : HeaderLine where
  name := ascii "Date"
  value := formatDate tm
  nameFree := by decide
  valueNonempty := formatDate_ne_nil tm
  valueTrimmed := formatDate_trim tm
  valueFree := formatDate_lineByte tm

theorem find_headerMap_none {lines : List HeaderLine} {field : Bytes} :
    (headerMap lines).find field = none ↔ ∀ line ∈ lines, toLower line.name ≠ toLower field := by
  simp [Headers.find, headerMap, List.find?_eq_none]

theorem distinctNames_iff (lines : List HeaderLine) :
    DistinctNames lines ↔ DistinctEntries (headerMap lines) := by
  rw [DistinctEntries, headerMap, List.pairwise_map]
  rfl

theorem find_headerMap_mem {lines : List HeaderLine} (hdistinct : DistinctNames lines)
    {line : HeaderLine} (hmem : line ∈ lines) :
    (headerMap lines).find line.name = some line.value := by
  have hentry : (line.name, line.value) ∈ headerMap lines :=
    List.mem_map_of_mem (f := fun line : HeaderLine => (line.name, line.value)) hmem
  exact find_of_mem ((distinctNames_iff lines).mp hdistinct) hentry rfl

/-- A line that is added unless its name is taken. -/
def addLine (lines : List HeaderLine) (line : HeaderLine) : List HeaderLine :=
  if (headerMap lines).count line.name then lines else lines ++ [line]

theorem headerMap_addLine (lines : List HeaderLine) (line : HeaderLine) :
    headerMap (addLine lines line) = (headerMap lines).emplace line.name line.value := by
  unfold addLine Headers.emplace
  split
  · rfl
  · simp [headerMap]

theorem distinctNames_addLine {lines : List HeaderLine} (hdistinct : DistinctNames lines)
    (line : HeaderLine) : DistinctNames (addLine lines line) := by
  rw [distinctNames_iff] at hdistinct ⊢
  rw [headerMap_addLine]
  exact distinct_emplace hdistinct line.name line.value

theorem DistinctNames.perm {lines lines' : List HeaderLine} (hperm : lines.Perm lines')
    (h : DistinctNames lines) : DistinctNames lines' :=
  hperm.pairwise h fun hne => hne.symm

/-- `add_header` for every line. -/
def Response.addHeaders (res : Response) (lines : List HeaderLine) : Response :=
  lines.foldl (fun res line => res.addHeader line.name line.value) res

theorem addHeaders_eq (res : Response) (lines : List HeaderLine) :
    res.addHeaders lines =
      { res with headers := res.headers.enterAll (lines.map HeaderLine.field) } := by
  induction lines generalizing res with
  | nil => rfl
  | cons line lines ih =>
      have hstep : res.addHeaders (line :: lines) =
          (res.addHeader line.name line.value).addHeaders lines := rfl
      rw [hstep, ih, List.map_cons, enterAll_cons, enter_field]
      rfl

/-- The lines of the block that `send` writes. -/
def sendLines (lines : List HeaderLine) (now : Tm) (body : Bytes) : List HeaderLine :=
  addLine (addLine (if body = [] then lines else addLine lines (.contentLength body.length))
    .server) (.date now)

theorem distinctNames_sendLines {lines : List HeaderLine} (hdistinct : DistinctNames lines)
    (now : Tm) (body : Bytes) : DistinctNames (sendLines lines now body) := by
  unfold sendLines
  apply distinctNames_addLine
  apply distinctNames_addLine
  split
  · exact hdistinct
  · exact distinctNames_addLine hdistinct _

theorem mem_addLine {lines : List HeaderLine} {line other : HeaderLine}
    (h : other ∈ addLine lines line) : other ∈ lines ∨ other = line := by
  unfold addLine at h
  split at h
  · exact Or.inl h
  · rcases List.mem_append.mp h with h | h
    · exact Or.inl h
    · exact Or.inr (List.mem_singleton.mp h)

theorem subset_addLine (lines : List HeaderLine) (line : HeaderLine) :
    lines ⊆ addLine lines line := by
  unfold addLine
  split
  · exact List.Subset.refl lines
  · exact List.subset_append_left lines [line]

theorem exists_lines_of_perm {headers : Headers} {lines : List HeaderLine}
    (hperm : headers.Perm (headerMap lines)) :
    ∃ lines', headers = headerMap lines' ∧ lines'.Perm lines := by
  have hcomp := List.eq_map_comp_perm fun line : HeaderLine => (line.name, line.value)
  have hpair := congrFun (congrFun hcomp headers) lines
  exact hpair.mpr hperm

/-- The given lines leave the framing of the body to `send`. -/
def FramingFree (lines : List HeaderLine) : Prop :=
  ∀ line ∈ lines, toLower line.name ≠ toLower (ascii "Content-Length") ∧
    toLower line.name ≠ toLower (ascii "Transfer-Encoding")

theorem sendLines_mem {lines : List HeaderLine} {now : Tm} {body : Bytes} {line : HeaderLine}
    (h : line ∈ sendLines lines now body) :
    line ∈ lines ∨ (body ≠ [] ∧ line = .contentLength body.length) ∨ line = .server ∨
      line = .date now := by
  rcases mem_addLine h with h | h
  · rcases mem_addLine h with h | h
    · split at h
      · exact Or.inl h
      · next hbody =>
          rcases mem_addLine h with h | h
          · exact Or.inl h
          · exact Or.inr (Or.inl ⟨hbody, h⟩)
    · exact Or.inr (Or.inr (Or.inl h))
  · exact Or.inr (Or.inr (Or.inr h))

theorem sendLines_no_encoding {lines : List HeaderLine} (hfree : FramingFree lines) (now : Tm)
    (body : Bytes) :
    ∀ line ∈ sendLines lines now body,
      toLower line.name ≠ toLower (ascii "Transfer-Encoding") := by
  intro line hline
  rcases sendLines_mem hline with h | ⟨-, rfl⟩ | rfl | rfl
  · exact (hfree line h).2
  · change toLower (ascii "Content-Length") ≠ _
    decide
  · decide
  · change toLower (ascii "Date") ≠ _
    decide

theorem sendLines_no_length {lines : List HeaderLine} (hfree : FramingFree lines) (now : Tm) :
    ∀ line ∈ sendLines lines now [], toLower line.name ≠ toLower (ascii "Content-Length") := by
  intro line hline
  rcases sendLines_mem hline with h | ⟨hbody, -⟩ | rfl | rfl
  · exact (hfree line h).1
  · exact absurd rfl hbody
  · decide
  · change toLower (ascii "Date") ≠ _
    decide

theorem contentLength_mem_sendLines {lines : List HeaderLine} (hfree : FramingFree lines)
    (now : Tm) {body : Bytes} (hbody : body ≠ []) :
    HeaderLine.contentLength body.length ∈ sendLines lines now body := by
  have hnone : (headerMap lines).find (ascii "Content-Length") = none :=
    find_headerMap_none.mpr fun line hline => (hfree line hline).1
  have hadded : HeaderLine.contentLength body.length ∈
      addLine lines (.contentLength body.length) := by
    have hcount : (headerMap lines).count (ascii "Content-Length") = false := by
      rw [Headers.count, hnone]
      rfl
    rw [addLine]
    change _ ∈ if (headerMap lines).count (ascii "Content-Length") = true then _ else _
    rw [hcount]
    simp
  apply subset_addLine
  apply subset_addLine
  rw [if_neg hbody]
  exact hadded

/-- The body of `send` on the wire. -/
def sentBody (body : Bytes) : WireBody := if body = [] then .empty else .sized body

theorem sentBody_encode (body : Bytes) : (sentBody body).encode = body := by
  unfold sentBody
  split
  · next h => rw [h]; rfl
  · rfl

theorem sentBody_bytes (body : Bytes) : (sentBody body).bytes = body := by
  unfold sentBody
  split
  · next h => rw [h]; rfl
  · rfl

theorem sentBody_headers (body : Bytes) (headers : Headers) :
    (sentBody body).headers headers = headers := by
  unfold sentBody
  split
  · rfl
  · rfl

theorem sentBody_framed {lines block : List HeaderLine} (hfree : FramingFree lines)
    (hdistinct : DistinctNames block) {now : Tm} {body : Bytes} (hsize : body.length ≤ maxSize)
    (hperm : block.Perm (sendLines lines now body)) :
    (sentBody body).FramedBy (headerMap block) := by
  have hencoding : (headerMap block).find (ascii "Transfer-Encoding") ≠
      some (ascii "chunked") := by
    have hnone := find_headerMap_none.mpr fun line hline =>
      sendLines_no_encoding hfree now body line (hperm.subset hline)
    rw [hnone]
    simp
  unfold sentBody
  split
  · next hbody =>
      subst hbody
      refine ⟨hencoding, ?_⟩
      intro value hvalue
      have hnone := find_headerMap_none.mpr fun line hline =>
        sendLines_no_length hfree now line (hperm.subset hline)
      rw [hnone] at hvalue
      exact absurd hvalue (by simp)
  · next hbody =>
      refine ⟨hencoding, hbody, decimal body.length, ?_, ?_⟩
      · exact find_headerMap_mem hdistinct
          (hperm.symm.subset (contentLength_mem_sendLines hfree now hbody))
      · exact svtoll_decimal hsize

theorem svtoi_value (code : StatusCode) :
    svtoi (decimal code.value) = some (code.value : Int) := by
  have hsmall : code.value ≤ 2 ^ 31 - 1 := by
    cases code <;> decide
  exact svtoi_decimal hsmall

theorem toStr_lineByte (code : StatusCode) : ∀ b ∈ code.toStr, LineByte b := by
  cases code <;> decide +kernel

/-- The status line of a code, with lines that frame the body. -/
def sentResponse (code : StatusCode) (block : List HeaderLine) (body : Bytes)
    (hframed : (sentBody body).FramedBy (Headers.enterAll [] (block.map HeaderLine.field))) :
    WireResponse where
  version := .http11
  code := decimal code.value
  status := code.value
  reason := code.toStr
  fields := block.map HeaderLine.field
  body := sentBody body
  codeFree := fun hmem => absurd (decimal_not_space code.value SP hmem) (by decide)
  codeRead := svtoi_value code
  statusPositive := by cases code <;> decide
  oneLine := by
    apply not_crlf_of_not_mem
    have hversion : ∀ b ∈ Version.http11.text, LineByte b := by decide
    have hblank : LineByte SP := by decide
    have hline : ∀ b ∈ Angel.Http.statusLine .http11 (decimal code.value) code.toStr,
        LineByte b := by
      simp only [Angel.Http.statusLine, List.forall_mem_append, List.forall_mem_cons]
      exact ⟨hversion, hblank, decimal_lineByte code.value, hblank, toStr_lineByte code⟩
    intro hmem
    exact (hline CR hmem).1 rfl
  framed := hframed

theorem sentResponse_encode (code : StatusCode) (block : List HeaderLine) (body : Bytes)
    (hframed : (sentBody body).FramedBy (Headers.enterAll [] (block.map HeaderLine.field))) :
    (sentResponse code block body hframed).encode =
      ascii "HTTP/1.1" ++ [SP] ++ decimal code.value ++ [SP] ++ code.toStr ++ CRLF ++
        renderLines block ++ CRLF ++ body := by
  have hline : (sentResponse code block body hframed).line =
      ascii "HTTP/1.1" ++ [SP] ++ decimal code.value ++ [SP] ++ code.toStr := by
    simp [WireResponse.line, Angel.Http.statusLine, sentResponse, Version.text]
  rw [WireResponse.encode, hline]
  change _ ++ CRLF ++ (renderFields (block.map HeaderLine.field) ++ CRLF ++
    (sentBody body).encode) = _
  rw [renderFields_map, sentBody_encode]
  simp only [List.append_assoc]

section Send

variable (order : Headers → Headers) (now : Tm)

theorem sentBytes_send (res : Response) (body : Bytes) :
    sentBytes (res.send order now body).2 =
      (if body = [] then res
        else res.addHeader (ascii "Content-Length") (decimal body.length)).block order now ++
        body := by
  have hcond : (if 0 < body.length then
        res.addHeader (ascii "Content-Length") (decimal body.length) else res) =
      if body = [] then res
        else res.addHeader (ascii "Content-Length") (decimal body.length) := by
    cases body <;> rfl
  unfold Response.send
  rw [hcond]
  dsimp only
  split <;> simp [sentBytes, Response.mark]

theorem block_lines (res : Response) {block : List HeaderLine}
    (horder : order (res.finalHeaders now) = headerMap block) :
    res.block order now =
      ascii "HTTP/1.1" ++ [SP] ++ decimal res.statusCode.value ++ [SP] ++ res.statusCode.toStr ++
        CRLF ++ renderLines block ++ CRLF := by
  have hlines : (headerMap block).flatMap (fun entry => formatHeader entry.1 entry.2) =
      renderLines block := by
    simp [headerMap, renderLines, List.flatMap_map, formatHeader, HeaderLine.text]
  rw [Response.block, horder, hlines, Response.statusLine]

theorem finalHeaders_lines (res : Response) {lines : List HeaderLine}
    (hheaders : res.headers = headerMap lines) :
    res.finalHeaders now = headerMap (addLine (addLine lines .server) (.date now)) := by
  rw [headerMap_addLine, headerMap_addLine, ← hheaders]
  rfl

theorem send_wire (horder : ∀ headers, (order headers).Perm headers) {res : Response}
    {lines : List HeaderLine} (hheaders : res.headers = headerMap lines)
    (hdistinct : DistinctNames lines) (hfree : FramingFree lines) {body : Bytes}
    (hsize : body.length ≤ maxSize) :
    ∃ w : WireResponse, w.encode = sentBytes (res.send order now body).2 ∧
      w.status = res.statusCode.value ∧ w.body = sentBody body ∧
      (Headers.enterAll [] w.fields).Perm (headerMap (sendLines lines now body)) := by
  -- the object whose block is written
  let full := if body = [] then res
    else res.addHeader (ascii "Content-Length") (decimal body.length)
  have hfull : full.headers =
      headerMap (if body = [] then lines else addLine lines (.contentLength body.length)) := by
    unfold full
    split
    · exact hheaders
    · rw [headerMap_addLine, ← hheaders]
      rfl
  have hcode : full.statusCode = res.statusCode := by
    unfold full
    split <;> rfl
  have hfinal : full.finalHeaders now = headerMap (sendLines lines now body) :=
    finalHeaders_lines now full hfull
  obtain ⟨block, hblock, hperm⟩ : ∃ block, order (full.finalHeaders now) = headerMap block ∧
      block.Perm (sendLines lines now body) := by
    apply exists_lines_of_perm
    rw [hfinal]
    exact horder _
  have hdistinct' : DistinctNames block :=
    (distinctNames_sendLines hdistinct now body).perm hperm.symm
  have hentered : Headers.enterAll [] (block.map HeaderLine.field) = headerMap block :=
    enterAll_headerMap hdistinct'
  have hframed : (sentBody body).FramedBy (Headers.enterAll [] (block.map HeaderLine.field)) := by
    rw [hentered]
    exact sentBody_framed hfree hdistinct' hsize hperm
  refine ⟨sentResponse res.statusCode block body hframed, ?_, rfl, rfl, ?_⟩
  · rw [sentResponse_encode, sentBytes_send, block_lines order now full hblock, hcode]
  · change (Headers.enterAll [] (block.map HeaderLine.field)).Perm _
    rw [hentered]
    exact hperm.map _

end Send

/-- The given headers, `Content-Length` for a body, and `Server` and `Date`
unless they are given. -/
def sentHeaders (lines : List HeaderLine) (now : Tm) (body : Bytes) : Headers :=
  headerMap lines ++
    (if body = [] then [] else [(ascii "Content-Length", decimal body.length)]) ++
    (if (headerMap lines).count (ascii "Server") then []
      else [(ascii "Server", ascii "angel")]) ++
    (if (headerMap lines).count (ascii "Date") then []
      else [(ascii "Date", formatDate now)])

private theorem emplace_append {headers more : Headers} {field : Bytes}
    (hmore : ∀ entry ∈ more, toLower entry.1 ≠ toLower field) (value : Bytes) :
    Headers.emplace (headers ++ more) field value =
      headers ++ more ++ if headers.count field then [] else [(field, value)] := by
  have hnone : List.find? (fun entry => toLower entry.1 = toLower field) more = none := by
    rw [List.find?_eq_none]
    intro entry hentry
    simpa using hmore entry hentry
  have hcount : Headers.count (headers ++ more) field = headers.count field := by
    simp [Headers.count, Headers.find, List.find?_append, hnone]
  rw [Headers.emplace, hcount]
  split <;> simp

private theorem headerMap_sendLines {lines : List HeaderLine} (hfree : FramingFree lines) (now : Tm)
    (body : Bytes) : headerMap (sendLines lines now body) = sentHeaders lines now body := by
  have hnone : (headerMap lines).count (ascii "Content-Length") = false := by
    rw [Headers.count, find_headerMap_none.mpr fun line hline => (hfree line hline).1]
    rfl
  have hlength : headerMap
      (if body = [] then lines else addLine lines (.contentLength body.length)) =
      headerMap lines ++
        if body = [] then [] else [(ascii "Content-Length", decimal body.length)] := by
    split
    · rw [List.append_nil]
    · rw [headerMap_addLine]
      change Headers.emplace _ (ascii "Content-Length") _ = _
      rw [Headers.emplace, hnone]
      rfl
  have hother : ∀ field ∈ [ascii "Server", ascii "Date"],
      ∀ entry ∈ (if body = [] then []
        else [(ascii "Content-Length", decimal body.length)] : Headers),
      toLower entry.1 ≠ toLower field := by
    intro field hfield entry hentry
    split at hentry
    · exact absurd hentry List.not_mem_nil
    · rw [List.mem_singleton.mp hentry]
      revert field
      change ∀ field ∈ [ascii "Server", ascii "Date"],
        toLower (ascii "Content-Length") ≠ toLower field
      decide
  have hdate : ∀ entry ∈ (if body = [] then []
        else [(ascii "Content-Length", decimal body.length)] : Headers) ++
        (if (headerMap lines).count (ascii "Server") then []
          else [(ascii "Server", ascii "angel")]),
      toLower entry.1 ≠ toLower (ascii "Date") := by
    intro entry hentry
    rcases List.mem_append.mp hentry with hentry | hentry
    · exact hother _ (by simp) entry hentry
    · split at hentry
      · exact absurd hentry List.not_mem_nil
      · rw [List.mem_singleton.mp hentry]
        decide
  rw [sendLines, headerMap_addLine, headerMap_addLine, hlength]
  change Headers.emplace (Headers.emplace _ (ascii "Server") (ascii "angel")) (ascii "Date")
    (formatDate now) = _
  rw [emplace_append (hother _ (by simp)), List.append_assoc (headerMap lines),
    emplace_append hdate, ← List.append_assoc]
  rfl

/-- Whatever the segmentation, the client resolves the response when its last
byte arrives and not before, with what was sent. -/
theorem send_delivered (order : Headers → Headers)
    (horder : ∀ headers, (order headers).Perm headers) (now : Tm) (code : StatusCode)
    (lines : List HeaderLine) (hdistinct : DistinctNames lines) (hfree : FramingFree lines)
    (body : Bytes) (hsize : body.length ≤ maxSize) (res : Response) (hres : res.headers = [])
    (segments front back : List Bytes)
    (hsegments : segments.flatten =
      sentBytes (((res.setStatusCode code).addHeaders lines).send order now body).2)
    (hsplit : segments = front ++ back) :
    ∃ c, run HttpConnection.arrives (some .create) front = some c ∧
      (back.flatten ≠ [] → c.results = []) ∧
      (back.flatten = [] → ∃ result, c.results = [result] ∧ result.errCode = .none ∧
        result.statusCode = code.value ∧ result.message.body = body ∧
        result.message.headers.Perm (sentHeaders lines now body)) := by
  have hheaders : ((res.setStatusCode code).addHeaders lines).headers = headerMap lines := by
    rw [addHeaders_eq]
    change (res.headers).enterAll (lines.map HeaderLine.field) = _
    rw [hres, enterAll_headerMap hdistinct]
  have hcode : ((res.setStatusCode code).addHeaders lines).statusCode = code := by
    rw [addHeaders_eq]
    rfl
  obtain ⟨w, hencode, hstatus, hbody, hperm⟩ :=
    send_wire order now horder hheaders hdistinct hfree hsize
  rw [hcode] at hstatus
  have hclean : ∀ front back, segments = front ++ back → ¬ w.BehindData back.flatten := by
    rintro _ _ _ ⟨chunks, trailer, hkind, _⟩
    rw [hbody, sentBody] at hkind
    split at hkind <;> cases hkind
  have hawaits := response_awaits HttpConnection.create_ready (hsegments.trans hencode.symm)
    hclean hsplit
  generalize hrest : back.flatten = rest at hawaits ⊢
  generalize hrun : run HttpConnection.arrives (some HttpConnection.create) front = s at hawaits ⊢
  cases hawaits with
  | waiting c _ hleased hresults hne _ =>
      exact ⟨c, rfl, fun _ => hresults, fun hnil => absurd hnil hne⟩
  | delivered c result hleased hresults hresult hidle hbuf =>
      refine ⟨c, rfl, fun hne => absurd rfl hne, fun _ => ⟨result, hresults, hresult.errCode, ?_⟩⟩
      refine ⟨hresult.status.trans hstatus, ?_, ?_⟩
      · rw [hresult.body, hbody, sentBody_bytes]
      · rw [hresult.headers, hbody, sentBody_headers, ← headerMap_sendLines hfree]
        exact hperm

def HeaderLine.html : HeaderLine where
  name := ascii "Content-Type"
  value := ascii "text/html"
  nameFree := by decide
  valueNonempty := by decide
  valueTrimmed := by decide
  valueFree := by decide

/-- The bytes of a page that has a colon and an empty line in it. -/
def pageBytes (body : Bytes) : Bytes :=
  sentBytes ((((Response.mk .notFound [] false []).setStatusCode .ok).addHeaders [.html]).send id
    ⟨0, 6, 10, 1994, 8, 49, 37⟩ body).2

/-- Three segments that cut the status line and the header block. -/
theorem send_delivered_page :
    ∃ c, run HttpConnection.arrives (some .create)
        [(pageBytes (ascii "a: b\r\n\r\nend")).take 5,
          ((pageBytes (ascii "a: b\r\n\r\nend")).drop 5).take 90,
          ((pageBytes (ascii "a: b\r\n\r\nend")).drop 5).drop 90] = some c ∧
      ∃ result, c.results = [result] ∧ result.errCode = .none ∧ result.statusCode = 200 ∧
        result.message.body = ascii "a: b\r\n\r\nend" ∧
        result.message.headers.Perm (sentHeaders [.html] ⟨0, 6, 10, 1994, 8, 49, 37⟩
          (ascii "a: b\r\n\r\nend")) := by
  obtain ⟨c, hrun, -, hdone⟩ := send_delivered id (fun _ => List.Perm.refl _)
    ⟨0, 6, 10, 1994, 8, 49, 37⟩ .ok [.html] (List.pairwise_singleton _ _)
    (by intro line hline; rw [List.mem_singleton.mp hline]; decide)
    (ascii "a: b\r\n\r\nend") (by decide) (Response.mk .notFound [] false []) rfl
    [(pageBytes (ascii "a: b\r\n\r\nend")).take 5,
      ((pageBytes (ascii "a: b\r\n\r\nend")).drop 5).take 90,
      ((pageBytes (ascii "a: b\r\n\r\nend")).drop 5).drop 90] _ []
    (by simp only [List.flatten_cons, List.flatten_nil, List.append_nil, List.take_append_drop]; rfl)
    (List.append_nil _).symm
  exact ⟨c, hrun, hdone rfl⟩

end Angel.Http
