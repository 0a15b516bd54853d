import Angel.Buffer
import Angel.Util
import Angel.Lib.Loop
import Angel.Lib.Stream

/-!
`httplib::message`, the part that requests and responses share: the header
map, the header parser and the two body parsers. All of them are resumable:
they consume what they can of the buffer and return `Continue` when more bytes
are needed.
-/

namespace Angel.Http

open Util Buffer Lib

inductive StatusCode where
  | continue
  | switchingProtocols
  | ok
  | created
  | accepted
  | nonAuthoritativeInformation
  | noContent
  | resetContent
  | partialContent
  | multipleChoices
  | movedPermanently
  | found
  | seeOther
  | notModified
  | useProxy
  | temporaryRedirect
  | badRequest
  | unauthorized
  | forbidden
  | notFound
  | methodNotAllowed
  | notAcceptable
  | proxyAuthenticationRequired
  | requestTimeout
  | conflict
  | gone
  | lengthRequired
  | preconditionFailed
  | requestEntityTooLarge
  | requestUriTooLong
  | unsupportedMediaType
  | requestedRangeNotSatisfiable
  | expectationFailed
  | internalServerError
  | notImplemented
  | badGateway
  | serviceUnavailable
  | gatewayTimeout
  | httpVersionNotSupported
  deriving DecidableEq, Repr

/-- The case-insensitive header map, in the order of insertion. Two keys share
an entry when their hashed lower-case forms are equal. -/
abbrev Headers := List (Bytes × Bytes)

def Headers.find (headers : Headers) (field : Bytes) : Option Bytes :=
  (List.find? (fun entry => toLower entry.1 = toLower field) headers).map Prod.snd

def Headers.count (headers : Headers) (field : Bytes) : Bool := (headers.find field).isSome

/-- `emplace` keeps an entry that is already there. -/
def Headers.emplace (headers : Headers) (field value : Bytes) : Headers :=
  if headers.count field then headers else headers ++ [(field, value)]

def Headers.erase (headers : Headers) (field : Bytes) : Headers :=
  headers.filter fun entry => toLower entry.1 ≠ toLower field

/-- The data members of `message`. -/
structure Message where
  headers : Headers
  body : Bytes
  length : Nat
  chunked : Bool
  chunkSize : Int
  deriving DecidableEq, Repr

/-- A parser's outcome: the message, the unread bytes and the return code.
`none` stands for undefined behaviour. -/
abbrev Parsed := Option (Message × Bytes × StatusCode)

def COLON : UInt8 := 58

/-- One pass of `parse_header`. With the first colon behind the line the
length `crlf - pos - 1` wraps around and the value leaves the buffer. -/
def headerPass (s : Message × Bytes) : Pass (Message × Bytes) Parsed :=
  let (m, buf) := s
  match findCrlf buf with
  | none => .done (some (m, buf, .continue))
  | some crlf =>
      if crlf = 0 then .done (some (m, buf.drop 2, .ok))
      else
        match find [COLON] buf with
        | none => .done (some (m, buf, .badRequest))
        | some pos =>
            if crlf < pos then .done none
            else
              let field := buf.take pos
              let value := trim ((buf.drop (pos + 1)).take (crlf - pos - 1))
              let headers := if value = [] then m.headers else m.headers.emplace field value
              .again ({ m with headers := headers }, buf.drop (crlf + 2))

def Message.parseHeader (m : Message) (buf : Bytes) : Parsed :=
  (loop headerPass (buf.length + 1) (m, buf)).join

def Message.parseBodyLength (m : Message) : Message × StatusCode :=
  if m.headers.find (ascii "Transfer-Encoding") = some (ascii "chunked") then
    ({ m with chunked := true }, .ok)
  else
    match m.headers.find (ascii "Content-Length") with
    | none => (m, .continue)
    | some value =>
        let r := svtoll value
        if r.getD (-1) < 0 then (m, .badRequest)
        else
          let m := { m with length := (r.getD (-1)).toNat }
          (m, if 0 < m.length then .ok else .continue)

def Message.parseBodyByContentLength (m : Message) (buf : Bytes) :
    Message × Bytes × StatusCode :=
  if m.length ≤ buf.length then
    ({ m with body := m.body ++ buf.take m.length }, buf.drop m.length, .ok)
  else
    ({ m with body := m.body ++ buf, length := m.length - buf.length }, [], .continue)

/-- The sign in front of a number: whether it is negative, and its length. -/
def signOf : Bytes → Bool × Nat
  | 45 :: _ => (true, 1)
  | 43 :: _ => (false, 1)
  | _ => (false, 0)

/-- The length of a `0x` that has a digit behind it. -/
def hexPrefix : Bytes → Nat
  | 48 :: x :: d :: _ => if (x = 120 ∨ x = 88) ∧ (digit? d).isSome then 2 else 0
  | _ => 0

/-- `strtoll(s, &end, 16)`: the value and the offset of `end`. -/
def strtollHex (s : Bytes) : Int × Nat :=
  let blanks := (s.takeWhile isspace).length
  let number := s.drop blanks
  let sign := signOf number
  let unsigned := number.drop sign.2
  let digits := (unsigned.drop (hexPrefix unsigned)).takeWhile fun c => (digit? c).isSome
  if digits = [] then (0, 0)
  else
    let value := ofDigits 16 digits
    (if sign.1 then -(min value (2 ^ 63) : Nat) else (min value (2 ^ 63 - 1) : Nat),
      blanks + sign.2 + hexPrefix unsigned + digits.length)

def fromHexStr (str : Bytes) : Int :=
  let (chunkSize, stop) := strtollHex str
  if stop = str.length then chunkSize else -1

/-- The conversion of a signed size to `size_t`. -/
def toSizeT (n : Int) : Nat := (n % 2 ^ 64).toNat

/-- The chunk-data part of a pass of `parse_body_by_chunked`. -/
def chunkData (m : Message) (buf : Bytes) : Pass (Message × Bytes) Parsed :=
  if toSizeT m.chunkSize < buf.length then
    if buf.length < toSizeT (m.chunkSize + 2) then .done (some (m, buf, .continue))
    else
      let size := toSizeT m.chunkSize
      let m := { m with body := m.body ++ buf.take size }
      let buf := buf.drop size
      if startsWith buf CRLF then .again ({ m with chunkSize := -1 }, buf.drop 2)
      else .done (some (m, buf, .badRequest))
  else
    .done (some ({ m with
      body := m.body ++ buf
      chunkSize := m.chunkSize - buf.length }, [], .continue))

/-- The trailer part of a pass of `parse_body_by_chunked`. -/
def chunkTrailer (m : Message) (buf : Bytes) : Pass (Message × Bytes) Parsed :=
  match m.parseHeader buf with
  | some (m, buf, .ok) => .done (some ({ m with chunkSize := -1, chunked := false }, buf, .ok))
  | parsed => .done parsed

/-- One pass of `parse_body_by_chunked`. `chunkSize` is -1 in front of a size
line, 0 in the trailer and else what is left of the chunk. -/
def chunkPass (s : Message × Bytes) : Pass (Message × Bytes) Parsed :=
  let (m, buf) := s
  if buf = [] then .done (some (m, buf, .continue))
  else if m.chunkSize = -1 then
    match findCrlf buf with
    | none => .done (some (m, buf, .continue))
    | some crlf =>
        if buf.length < crlf + 4 then .done (some (m, buf, .continue))
        else
          let m := { m with chunkSize := fromHexStr (buf.take crlf) }
          let buf := buf.drop (crlf + 2)
          if m.chunkSize < 0 then .done (some (m, buf, .badRequest))
          else if m.chunkSize = 0 then .again (m, buf)
          else chunkData m buf
  else if m.chunkSize = 0 then chunkTrailer m buf
  else chunkData m buf

def Message.parseBodyByChunked (m : Message) (buf : Bytes) : Parsed :=
  (loop chunkPass (buf.length + 1) (m, buf)).join

def Message.parseBody (m : Message) (buf : Bytes) : Parsed :=
  if m.chunked then m.parseBodyByChunked buf else some (m.parseBodyByContentLength buf)

def Message.clear (m : Message) : Message := { m with headers := [], body := [] }

theorem chunkPass_line {m : Message} {line rest : Bytes} (hsize : m.chunkSize = -1) (hline : ¬ CRLF <:+: line)
    (hrest : 2 ≤ rest.length) :
    chunkPass (m, line ++ CRLF ++ rest) =
      if fromHexStr line < 0 then
        .done (some ({ m with chunkSize := fromHexStr line }, rest, .badRequest))
      else if fromHexStr line = 0 then .again ({ m with chunkSize := fromHexStr line }, rest)
      else chunkData { m with chunkSize := fromHexStr line } rest := by
  have hne : line ++ CRLF ++ rest ≠ [] := by
    simp [CRLF]
  have hlong : ¬ (line ++ CRLF ++ rest).length < line.length + 4 := by
    simp only [List.length_append, CRLF, List.length_cons, List.length_nil]
    omega
  unfold chunkPass
  dsimp only
  rw [if_neg hne, if_pos hsize, findCrlf_line hline]
  dsimp only
  rw [if_neg hlong, take_line, drop_line]

theorem chunkPass_atTrailer {m : Message} {buf : Bytes} (hbuf : buf ≠ [])
    (hsize : m.chunkSize = 0) : chunkPass (m, buf) = chunkTrailer m buf := by
  unfold chunkPass
  dsimp only
  rw [if_neg hbuf, if_neg (by omega), if_pos hsize]

theorem chunkPass_atData {m : Message} {buf : Bytes} (hbuf : buf ≠ [])
    (hline : m.chunkSize ≠ -1) (htrailer : m.chunkSize ≠ 0) :
    chunkPass (m, buf) = chunkData m buf := by
  unfold chunkPass
  dsimp only
  rw [if_neg hbuf, if_neg hline, if_neg htrailer]

theorem parseBodyLength_none {m : Message}
    (hchunked : m.headers.find (ascii "Transfer-Encoding") ≠ some (ascii "chunked"))
    (hlength : m.headers.find (ascii "Content-Length") = none) :
    m.parseBodyLength = (m, .continue) := by
  rw [Message.parseBodyLength, if_neg hchunked, hlength]

theorem parseBodyLength_some {m : Message} {value : Bytes} {n : Nat}
    (hchunked : m.headers.find (ascii "Transfer-Encoding") ≠ some (ascii "chunked"))
    (hlength : m.headers.find (ascii "Content-Length") = some value)
    (hvalue : svtoll value = some (n : Int)) :
    m.parseBodyLength = ({ m with length := n }, if 0 < n then .ok else .continue) := by
  rw [Message.parseBodyLength, if_neg hchunked, hlength]
  dsimp only
  rw [hvalue, Option.getD_some, if_neg (by omega), Int.toNat_natCast]

/-- A header line of the generic message format: a name, a colon and some
text. -/
structure FieldLine where
  name : Bytes
  text : Bytes
  nameFree : COLON ∉ name
  oneLine : ¬ CRLF <:+: name ++ COLON :: text

def FieldLine.line (field : FieldLine) : Bytes := field.name ++ COLON :: field.text

/-- Header lines, each with its line end. -/
def renderFields (fields : List FieldLine) : Bytes :=
  fields.flatMap fun field => field.line ++ CRLF

/-- A line is entered in the map unless its value is empty or its name is
taken. -/
def Headers.enter (headers : Headers) (field : FieldLine) : Headers :=
  if trim field.text = [] then headers else headers.emplace field.name (trim field.text)

def Headers.enterAll (headers : Headers) (fields : List FieldLine) : Headers :=
  fields.foldl Headers.enter headers

@[simp] theorem enterAll_nil (headers : Headers) : headers.enterAll [] = headers := rfl

@[simp] theorem enterAll_cons (headers : Headers) (field : FieldLine) (fields : List FieldLine) :
    headers.enterAll (field :: fields) = (headers.enter field).enterAll fields := rfl

@[simp] theorem enterAll_append (headers : Headers) (first second : List FieldLine) :
    headers.enterAll (first ++ second) = (headers.enterAll first).enterAll second :=
  List.foldl_append

theorem not_crlf_of_not_mem {line : Bytes} (h : CR ∉ line) : ¬ CRLF <:+: line := by
  intro hin
  exact h (hin.subset (by simp [CRLF]))

theorem not_crlf_nil : ¬ CRLF <:+: ([] : Bytes) := by
  simp [CRLF]

private theorem headerPass_field (m : Message) (field : FieldLine) (buf : Bytes) :
    headerPass (m, field.line ++ CRLF ++ buf) =
      .again ({ m with headers := m.headers.enter field }, buf) := by
  have hcrlf : findCrlf (field.line ++ CRLF ++ buf) = some field.line.length :=
    findCrlf_line field.oneLine buf
  have hlen : field.line.length = field.name.length + 1 + field.text.length := by
    simp only [FieldLine.line, List.length_append, List.length_cons]
    omega
  have hcolon : find [COLON] (field.line ++ CRLF ++ buf) = some field.name.length := by
    have hshape : field.line ++ CRLF ++ buf =
        field.name ++ COLON :: (field.text ++ CRLF ++ buf) := by
      simp [FieldLine.line]
    rw [hshape]
    exact find_singleton COLON field.nameFree _
  have hname : (field.line ++ CRLF ++ buf).take field.name.length = field.name := by
    simp [FieldLine.line]
  have htext : ((field.line ++ CRLF ++ buf).drop (field.name.length + 1)).take
      (field.line.length - field.name.length - 1) = field.text := by
    have hshape : field.line ++ CRLF ++ buf =
        field.name ++ COLON :: (field.text ++ (CRLF ++ buf)) := by
      simp [FieldLine.line]
    rw [hshape, drop_separator]
    exact List.take_left' (by omega)
  have hrest := drop_line field.line buf
  unfold headerPass
  dsimp only
  rw [hcrlf]
  dsimp only
  rw [if_neg (by omega), hcolon]
  dsimp only
  rw [if_neg (by omega), hname, htext, hrest]
  rfl

/-- `parse_header` at a block of header lines, of which `buf` has arrived:
either the block is complete and its end is consumed, or the complete lines are
and the rest waits. -/
theorem headerLoop_fields (fields : List FieldLine) {m : Message} {buf rest after : Bytes}
    (hstream : buf ++ rest = renderFields fields ++ CRLF ++ after) {fuel : Nat}
    (hfuel : buf.length < fuel) :
    (∃ extra, extra ++ rest = after ∧ buf = renderFields fields ++ CRLF ++ extra ∧
      loop headerPass fuel (m, buf) =
        some (some ({ m with headers := m.headers.enterAll fields }, extra, .ok))) ∨
    (∃ done todo left, fields = done ++ todo ∧ buf = renderFields done ++ left ∧
      left ++ rest = renderFields todo ++ CRLF ++ after ∧ rest ≠ [] ∧
      loop headerPass fuel (m, buf) =
        some (some ({ m with headers := m.headers.enterAll done }, left, .continue))) := by
  obtain ⟨fuel, rfl⟩ : ∃ n, fuel = n + 1 := ⟨fuel - 1, by omega⟩
  induction fields generalizing m buf fuel with
  | nil =>
      rcases arrived_cases (x := CRLF) hstream with ⟨more, hmore, hbuf, hrest⟩ | ⟨extra, hbuf, hextra⟩
      · right
        refine ⟨[], [], buf, rfl, rfl, hstream, by simp [hrest, hmore], ?_⟩
        have hnone : findCrlf buf = none := findCrlf_incomplete not_crlf_nil hbuf hmore
        exact loop_done (by simp [headerPass, hnone]) fuel
      · left
        refine ⟨extra, hextra, by simpa [renderFields] using hbuf, ?_⟩
        have hsome : findCrlf buf = some 0 := by
          rw [hbuf]
          exact findCrlf_line not_crlf_nil extra
        have hdrop : buf.drop 2 = extra := by
          rw [hbuf, List.drop_left' (by simp [CRLF])]
        exact loop_done (by simp [headerPass, hsome, hdrop]) fuel
  | cons field fields ih =>
      have hsplit : buf ++ rest =
          (field.line ++ CRLF) ++ (renderFields fields ++ CRLF ++ after) := by
        rw [hstream]
        simp [renderFields]
      rcases arrived_cases hsplit with ⟨more, hmore, hbuf, hrest⟩ | ⟨extra, hbuf, hextra⟩
      · right
        refine ⟨[], field :: fields, buf, rfl, rfl, hstream, by simp [hrest, hmore], ?_⟩
        have hnone : findCrlf buf = none := findCrlf_incomplete field.oneLine hbuf hmore
        exact loop_done (by simp [headerPass, hnone]) fuel
      · -- the line is complete: one pass, then the remaining lines
        have hpass := headerPass_field m field extra
        rw [← hbuf] at hpass
        have hlen : extra.length < fuel := by
          have := congrArg List.length hbuf
          simp only [List.length_append, CRLF, List.length_cons] at this
          omega
        obtain ⟨fuel, rfl⟩ : ∃ n, fuel = n + 1 := ⟨fuel - 1, by omega⟩
        rw [loop_again hpass]
        rcases ih hextra fuel hlen with
          ⟨extra', hafter, hshape, hloop⟩ | ⟨done, todo, left, hfields, hshape, hleft, hne, hloop⟩
        · left
          refine ⟨extra', hafter, ?_, ?_⟩
          · simp [hbuf, hshape, renderFields]
          · simpa using hloop
        · right
          refine ⟨field :: done, todo, left, by simp [hfields], ?_, hleft, hne, ?_⟩
          · simp [hbuf, hshape, renderFields]
          · simpa using hloop

theorem parseHeader_fields (fields : List FieldLine) (m : Message) {buf rest after : Bytes}
    (hstream : buf ++ rest = renderFields fields ++ CRLF ++ after) :
    (∃ extra, extra ++ rest = after ∧ buf = renderFields fields ++ CRLF ++ extra ∧
      m.parseHeader buf =
        some ({ m with headers := m.headers.enterAll fields }, extra, .ok)) ∨
    (∃ done todo left, fields = done ++ todo ∧ buf = renderFields done ++ left ∧
      left ++ rest = renderFields todo ++ CRLF ++ after ∧ rest ≠ [] ∧
      m.parseHeader buf =
        some ({ m with headers := m.headers.enterAll done }, left, .continue)) := by
  rcases headerLoop_fields fields (m := m) hstream (Nat.lt_succ_self _) with
    ⟨extra, hafter, hshape, hloop⟩ | ⟨done, todo, left, hfields, hshape, hleft, hne, hloop⟩
  · exact Or.inl ⟨extra, hafter, hshape, by simp [Message.parseHeader, hloop]⟩
  · exact Or.inr ⟨done, todo, left, hfields, hshape, hleft, hne,
      by simp [Message.parseHeader, hloop]⟩

/-- A header line `name: value` with nothing to trim and nothing to ignore. -/
structure HeaderLine where
  name : Bytes
  value : Bytes
  nameFree : ∀ b ∈ name, b ≠ COLON ∧ b ≠ CR ∧ b ≠ LF ∧ b ≠ 0
  valueNonempty : value ≠ []
  valueTrimmed : trim value = value
  valueFree : ∀ b ∈ value, b ≠ CR ∧ b ≠ LF

def SEP : Bytes := ascii ": "

def HeaderLine.text (line : HeaderLine) : Bytes := line.name ++ SEP ++ line.value

/-- The line as a line of the generic format. -/
def HeaderLine.field (line : HeaderLine) : FieldLine where
  name := line.name
  text := 32 :: line.value
  nameFree := fun hmem => (line.nameFree COLON hmem).1 rfl
  oneLine := by
    apply not_crlf_of_not_mem
    intro hmem
    rcases List.mem_append.mp hmem with hname | hvalue
    · exact (line.nameFree CR hname).2.1 rfl
    · rw [List.mem_cons, List.mem_cons] at hvalue
      rcases hvalue with hcolon | hspace | hvalue
      · exact absurd hcolon (by decide)
      · exact absurd hspace (by decide)
      · exact (line.valueFree CR hvalue).1 rfl

theorem HeaderLine.field_line (line : HeaderLine) : line.field.line = line.text := by
  simp [FieldLine.line, HeaderLine.field, HeaderLine.text, SEP, ascii, COLON]

theorem enter_field (headers : Headers) (line : HeaderLine) :
    headers.enter line.field = headers.emplace line.name line.value := by
  have hvalue : trim line.field.text = line.value := trim_cons_space line.valueTrimmed
  rw [Headers.enter, hvalue, if_neg line.valueNonempty]
  rfl

/-- The header lines of a message, each with its line end. -/
def renderLines (lines : List HeaderLine) : Bytes := lines.flatMap fun line => line.text ++ CRLF

theorem renderFields_map (lines : List HeaderLine) :
    renderFields (lines.map HeaderLine.field) = renderLines lines := by
  simp [renderFields, renderLines, List.flatMap_map, HeaderLine.field_line]

/-- The header map of lines with distinct names. -/
def headerMap (lines : List HeaderLine) : Headers :=
  lines.map fun line => (line.name, line.value)

/-- No two lines have the same name, ignoring case. -/
def DistinctNames (lines : List HeaderLine) : Prop :=
  lines.Pairwise fun first second => toLower first.name ≠ toLower second.name

private theorem find_append_none {headers : Headers} {field name value : Bytes}
    (h : headers.find field = none) (hname : toLower name ≠ toLower field) :
    Headers.find (headers ++ [(name, value)]) field = none := by
  simp only [Headers.find, Option.map_eq_none_iff] at h ⊢
  rw [List.find?_append, h]
  simp [hname]

private theorem enterAll_distinct {headers : Headers} {lines : List HeaderLine}
    (hdistinct : DistinctNames lines)
    (hnew : ∀ line ∈ lines, headers.find line.name = none) :
    headers.enterAll (lines.map HeaderLine.field) = headers ++ headerMap lines := by
  induction lines generalizing headers with
  | nil => simp [headerMap]
  | cons line lines ih =>
      obtain ⟨hline, hrest⟩ := List.pairwise_cons.mp hdistinct
      have hfirst : headers.emplace line.name line.value =
          headers ++ [(line.name, line.value)] := by
        simp [Headers.emplace, Headers.count, hnew line List.mem_cons_self]
      have hnext : ∀ other ∈ lines,
          Headers.find (headers ++ [(line.name, line.value)]) other.name = none := by
        intro other hother
        exact find_append_none (hnew other (List.mem_cons_of_mem line hother)) (hline other hother)
      rw [List.map_cons, enterAll_cons, enter_field, hfirst, ih hrest hnext]
      simp [headerMap]

theorem enterAll_headerMap {lines : List HeaderLine} (hdistinct : DistinctNames lines) :
    Headers.enterAll [] (lines.map HeaderLine.field) = headerMap lines :=
  enterAll_distinct hdistinct (fun _ _ => rfl)

/-- No two entries have the same name, ignoring case. -/
def DistinctEntries (headers : Headers) : Prop :=
  headers.Pairwise fun first second => toLower first.1 ≠ toLower second.1

theorem find_of_mem {headers : Headers} (hdistinct : DistinctEntries headers)
    {entry : Bytes × Bytes} (hmem : entry ∈ headers) {field : Bytes}
    (hname : toLower entry.1 = toLower field) : headers.find field = some entry.2 := by
  induction headers with
  | nil => exact absurd hmem List.not_mem_nil
  | cons first headers ih =>
      obtain ⟨hfirst, hrest⟩ := List.pairwise_cons.mp hdistinct
      rcases List.mem_cons.mp hmem with rfl | hmem
      · simp [Headers.find, hname]
      · have hother : toLower first.1 ≠ toLower field := hname ▸ hfirst entry hmem
        have hfind := ih hrest hmem
        simp only [Headers.find] at hfind ⊢
        rw [List.find?_cons_of_neg (by simpa using hother)]
        exact hfind

theorem mem_of_find {headers : Headers} {field value : Bytes}
    (h : headers.find field = some value) :
    ∃ entry ∈ headers, toLower entry.1 = toLower field ∧ entry.2 = value := by
  obtain ⟨entry, hentry, rfl⟩ := Option.map_eq_some_iff.mp h
  exact ⟨entry, List.mem_of_find?_eq_some hentry, by simpa using List.find?_some hentry, rfl⟩

theorem find_perm {headers headers' : Headers} (hperm : headers.Perm headers')
    (hdistinct : DistinctEntries headers) (field : Bytes) :
    headers.find field = headers'.find field := by
  cases hfind : headers'.find field with
  | some value =>
      obtain ⟨entry, hmem, hname, rfl⟩ := mem_of_find hfind
      exact find_of_mem hdistinct (hperm.symm.subset hmem) hname
  | none =>
      rw [← Option.not_isSome_iff_eq_none]
      intro hsome
      obtain ⟨value, hvalue⟩ := Option.isSome_iff_exists.mp hsome
      obtain ⟨entry, hmem, hname, -⟩ := mem_of_find hvalue
      have hnone : ∀ other ∈ headers', toLower other.1 ≠ toLower field := by
        simpa [Headers.find, List.find?_eq_none] using hfind
      exact hnone entry (hperm.subset hmem) hname

theorem find_emplace_other {field name : Bytes} (h : toLower field ≠ toLower name)
    (headers : Headers) (value : Bytes) :
    (headers.emplace field value).find name = headers.find name := by
  unfold Headers.emplace
  split
  · rfl
  · simp [Headers.find, List.find?_append, h]

theorem find_emplace_self (headers : Headers) (field value : Bytes) :
    (headers.emplace field value).find field = (headers.find field).or (some value) := by
  unfold Headers.emplace Headers.count
  cases hfind : headers.find field with
  | some old => simpa using hfind
  | none =>
      simp only [Headers.find, Option.map_eq_none_iff] at hfind
      simp [Headers.find, List.find?_append, hfind]

theorem distinct_emplace {headers : Headers} (h : DistinctEntries headers) (field value : Bytes) :
    DistinctEntries (headers.emplace field value) := by
  unfold Headers.emplace
  split
  · exact h
  · next hcount =>
      have hnone : ∀ entry ∈ headers, toLower entry.1 ≠ toLower field := by
        simpa [Headers.count, Headers.find, List.find?_eq_none] using hcount
      apply List.pairwise_append.mpr
      refine ⟨h, List.pairwise_singleton _ _, ?_⟩
      intro entry hentry other hother
      rw [List.mem_singleton.mp hother]
      exact hnone entry hentry

end Angel.Http
