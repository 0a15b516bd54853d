import Angel.Http.Message
import Angel.Http.Uri

/-!
`httplib::request`: the request line, the grammar of well-formed requests and
what the parser makes of each of their parts.
-/

namespace Angel.Http

open Util Buffer Lib

def QUESTION : UInt8 := 63

def HASH : UInt8 := 35

inductive Version where
  | http10
  | http11
  deriving DecidableEq, Repr

inductive Method where
  | options
  | get
  | head
  | post
  | put
  | delete
  | trace
  | connect
  deriving DecidableEq, Repr

inductive ParseState where
  | parseLine
  | parseHeader
  | parseBody
  deriving DecidableEq, Repr

def methods : List (Bytes × Method) :=
  [(ascii "OPTIONS", .options), (ascii "GET", .get), (ascii "HEAD", .head),
    (ascii "POST", .post), (ascii "PUT", .put), (ascii "DELETE", .delete),
    (ascii "TRACE", .trace), (ascii "CONNECT", .connect)]

def uriMaxLength : Nat := 1024 * 1024

/-- The data members of `request`, with those of its base `message`. -/
structure Request where
  message : Message
  state : ParseState
  reqMethod : Method
  absPath : Bytes
  httpVersion : Version
  queryParams : Params
  hasFile : Bool
  filesize : Nat
  lastModified : Bytes
  etag : Bytes
  deriving DecidableEq, Repr

def Request.headers (req : Request) : Headers := req.message.headers

def Request.body (req : Request) : Bytes := req.message.body

/-- The request-target part of `parse_line`, with whether it is valid. A `#`
in front of the `?` makes the range of the parameters negative. -/
def Request.parseTarget (req : Request) (target : Bytes) : Option (Request × Bool) :=
  let sep := target.idxOf QUESTION
  let (decoded, path) := decode (target.take sep) req.absPath
  let req := { req with absPath := path }
  if !decoded then some (req, false)
  else if sep = target.length then some (req, true)
  else
    let stop := target.idxOf HASH
    if stop < sep then none
    else
      let (parsed, params) := parseParams ((target.take stop).drop (sep + 1)) req.queryParams
      some ({ req with queryParams := params }, parsed)

/-- The version part of `parse_line`: the version, or the error. -/
def parseVersion (version : Bytes) : Except StatusCode Version :=
  if version = ascii "HTTP/1.1" then .ok .http11
  else if version = ascii "HTTP/1.0" then .ok .http10
  else if version = ascii "HTTP/2.0" then .error .httpVersionNotSupported
  else .error .badRequest

def Request.parseLine (req : Request) (buf : Bytes) : Option (Request × Bytes × StatusCode) :=
  match findCrlf buf with
  | none => some (req, buf, .continue)
  | some crlf =>
      if uriMaxLength < crlf then some (req, buf, .requestUriTooLong)
      else
        match split (buf.take crlf) SP with
        | [method, target, version] =>
            match methods.lookup method with
            | none => some (req, buf, .badRequest)
            | some method =>
                match { req with reqMethod := method }.parseTarget target with
                | none => none
                | some (req, false) => some (req, buf, .badRequest)
                | some (req, true) =>
                    match parseVersion version with
                    | .error code => some (req, buf, code)
                    | .ok version =>
                        some ({ req with httpVersion := version }, buf.drop (crlf + 2), .ok)
        | _ => some (req, buf, .badRequest)

def Request.clear (req : Request) : Request :=
  { req with
    state := .parseLine
    absPath := []
    queryParams := []
    message := req.message.clear }

def Method.text : Method → Bytes
  | .options => ascii "OPTIONS"
  | .get => ascii "GET"
  | .head => ascii "HEAD"
  | .post => ascii "POST"
  | .put => ascii "PUT"
  | .delete => ascii "DELETE"
  | .trace => ascii "TRACE"
  | .connect => ascii "CONNECT"

def Version.text : Version → Bytes
  | .http10 => ascii "HTTP/1.0"
  | .http11 => ascii "HTTP/1.1"

theorem methods_lookup (method : Method) : methods.lookup method.text = some method := by
  cases method <;> decide

theorem parseVersion_text (version : Version) : parseVersion version.text = .ok version := by
  cases version <;> rfl

theorem Method.text_free (method : Method) : SP ∉ method.text ∧ CR ∉ method.text := by
  cases method <;> decide

theorem Version.text_free (version : Version) : SP ∉ version.text ∧ CR ∉ version.text := by
  cases version <;> decide

/-- A request target: a percent-encoded path and, behind a `?`, parameters. -/
structure Target where
  pathText : Bytes
  path : Bytes
  pathEscapes : Escapes pathText path
  pathFree : ∀ b ∈ pathText, b ≠ QUESTION
  params : List Param

def Target.text (t : Target) : Bytes :=
  match t.params with
  | [] => t.pathText
  | p :: params => t.pathText ++ QUESTION :: renderParams p params

theorem parseTarget_text (req : Request) (t : Target) (hhash : HASH ∉ t.text) :
    req.parseTarget t.text = some ({ req with
      absPath := req.absPath ++ t.path
      queryParams := req.queryParams.emplaceAll t.params }, true) := by
  have hfree : QUESTION ∉ t.pathText := fun hmem => t.pathFree QUESTION hmem rfl
  unfold Request.parseTarget
  dsimp only
  cases hparams : t.params with
  | nil =>
      have htext : t.text = t.pathText := by simp [Target.text, hparams]
      rw [htext, List.idxOf_eq_length_iff.mpr hfree, List.take_length,
        decode_escapes t.pathEscapes]
      simp [Params.emplaceAll]
  | cons p params =>
      have htext : t.text = t.pathText ++ QUESTION :: renderParams p params := by
        simp [Target.text, hparams]
      have hsep : t.text.idxOf QUESTION = t.pathText.length := by
        rw [htext, idxOf_separator hfree]
      have hstop : t.text.idxOf HASH = t.text.length := List.idxOf_eq_length_iff.mpr hhash
      have hpath : t.text.take t.pathText.length = t.pathText := by simp [htext]
      have hquery : t.text.drop (t.pathText.length + 1) = renderParams p params := by
        rw [htext, drop_separator]
      have hinside : t.pathText.length < t.text.length := by simp [htext]
      rw [hsep, hpath, decode_escapes t.pathEscapes]
      dsimp only
      rw [if_neg (by simp), if_neg (by omega), hstop, if_neg (by omega), List.take_length,
        hquery, parseParams_render]

def requestLine (method : Method) (target : Target) (version : Version) : Bytes :=
  method.text ++ SP :: (target.text ++ SP :: version.text)

/-- The body has the announced length; without an announcement it is empty. -/
def Announces (headers : Headers) (body : Bytes) : Prop :=
  match headers.find (ascii "Content-Length") with
  | none => body = []
  | some value => value ≠ [] ∧ value.all isdigit = true ∧ ofDigits 10 value = body.length

/-- A well-formed request as it stands on the wire. -/
structure WireRequest where
  method : Method
  target : Target
  version : Version
  lines : List HeaderLine
  body : Bytes
  targetFree : ∀ b ∈ target.text, b ≠ SP ∧ b ≠ HASH
  targetLine : ¬ CRLF <:+: target.text
  lineShort : (requestLine method target version).length ≤ uriMaxLength
  namesDistinct : DistinctNames lines
  host : (headerMap lines).count (ascii "Host") = true
  noTransferEncoding : (headerMap lines).find (ascii "Transfer-Encoding") = none
  noExpect : (headerMap lines).find (ascii "Expect") = none
  announced : Announces (headerMap lines) body
  bodyBounded : body.length ≤ maxSize

def WireRequest.line (r : WireRequest) : Bytes := requestLine r.method r.target r.version

def WireRequest.encode (r : WireRequest) : Bytes :=
  r.line ++ CRLF ++ (renderLines r.lines ++ CRLF ++ r.body)

theorem crlf_infix_append_cons {x y : Bytes} {c : UInt8} (hcr : c ≠ CR) (hlf : c ≠ LF)
    (h : CRLF <:+: x ++ c :: y) : CRLF <:+: x ∨ CRLF <:+: y := by
  induction x with
  | nil =>
      rcases List.infix_cons_iff.mp h with hpre | hin
      · exact absurd (List.cons_prefix_cons.mp hpre).1.symm hcr
      · exact Or.inr hin
  | cons a x ih =>
      rcases List.infix_cons_iff.mp h with hpre | hin
      · left
        obtain ⟨rfl, hlast⟩ := List.cons_prefix_cons.mp hpre
        cases x with
        | nil => exact absurd (List.cons_prefix_cons.mp hlast).1.symm hlf
        | cons b x =>
            obtain ⟨rfl, _⟩ := List.cons_prefix_cons.mp hlast
            exact ⟨[], x, rfl⟩
      · rcases ih hin with hx | hy
        · exact Or.inl (hx.trans (List.suffix_cons a x).isInfix)
        · exact Or.inr hy

theorem WireRequest.line_no_crlf (r : WireRequest) : ¬ CRLF <:+: r.line := by
  intro hin
  rcases crlf_infix_append_cons (by decide) (by decide) hin with hmethod | hin
  · exact not_crlf_of_not_mem r.method.text_free.2 hmethod
  · rcases crlf_infix_append_cons (by decide) (by decide) hin with htarget | hversion
    · exact r.targetLine htarget
    · exact not_crlf_of_not_mem r.version.text_free.2 hversion

theorem WireRequest.split_line (r : WireRequest) :
    split r.line SP = [r.method.text, r.target.text, r.version.text] := by
  have htarget : SP ∉ r.target.text := fun hmem => (r.targetFree SP hmem).1 rfl
  rw [WireRequest.line, requestLine, split_separator r.method.text_free.1,
    split_separator htarget, split_free r.version.text_free.1]

/-- The request after its line has been read. -/
def Request.withLine (req : Request) (r : WireRequest) : Request :=
  { req with
    reqMethod := r.method
    absPath := req.absPath ++ r.target.path
    queryParams := req.queryParams.emplaceAll r.target.params
    httpVersion := r.version }

theorem parseLine_wire (req : Request) (r : WireRequest) {buf rest after : Bytes}
    (hstream : buf ++ rest = r.line ++ CRLF ++ after) :
    (∃ extra, extra ++ rest = after ∧ extra.length < buf.length ∧
      req.parseLine buf = some (req.withLine r, extra, .ok)) ∨
    (rest ≠ [] ∧ req.parseLine buf = some (req, buf, .continue)) := by
  rcases arrived_cases hstream with ⟨more, hmore, hbuf, hrest⟩ | ⟨extra, hbuf, hextra⟩
  · right
    refine ⟨by simp [hrest, hmore], ?_⟩
    rw [Request.parseLine, findCrlf_incomplete r.line_no_crlf hbuf hmore]
  · left
    have hcrlf : findCrlf buf = some r.line.length := by
      rw [hbuf]
      exact findCrlf_line r.line_no_crlf extra
    have htake : buf.take r.line.length = r.line := hbuf ▸ take_line r.line extra
    have hdrop : buf.drop (r.line.length + 2) = extra := hbuf ▸ drop_line r.line extra
    have hhash : HASH ∉ r.target.text := fun hmem => (r.targetFree HASH hmem).2 rfl
    have hshort : ¬ uriMaxLength < r.line.length := Nat.not_lt.mpr r.lineShort
    refine ⟨extra, hextra, ?_, ?_⟩
    · rw [hbuf]
      simp only [List.length_append, CRLF, List.length_cons, List.length_nil]
      omega
    · unfold Request.parseLine
      rw [hcrlf]
      dsimp only
      rw [if_neg hshort, htake, r.split_line]
      dsimp only
      rw [methods_lookup]
      dsimp only
      rw [parseTarget_text _ _ hhash]
      dsimp only
      rw [parseVersion_text]
      dsimp only
      rw [hdrop]
      rfl

theorem parseBodyLength_announced {m : Message} {body : Bytes}
    (hchunked : m.headers.find (ascii "Transfer-Encoding") = none)
    (hannounced : Announces m.headers body) (hbounded : body.length ≤ maxSize) :
    (body = [] ∧ (∃ n, m.parseBodyLength = ({ m with length := n }, .continue))) ∨
    (body ≠ [] ∧ m.parseBodyLength = ({ m with length := body.length }, .ok)) := by
  unfold Announces at hannounced
  have hnot : m.headers.find (ascii "Transfer-Encoding") ≠ some (ascii "chunked") := by
    simp [hchunked]
  cases hlength : m.headers.find (ascii "Content-Length") with
  | none =>
      rw [hlength] at hannounced
      exact Or.inl ⟨hannounced, m.length, parseBodyLength_none hnot hlength⟩
  | some value =>
      rw [hlength] at hannounced
      obtain ⟨hne, hdigits, hvalue⟩ := hannounced
      have hread : svtoll value = some (body.length : Int) := by
        rw [svtoll_digits hne hdigits (hvalue.trans_le hbounded), hvalue]
      have hparse := parseBodyLength_some hnot hlength hread
      cases body with
      | nil => exact Or.inl ⟨rfl, 0, hparse⟩
      | cons b body => exact Or.inr ⟨by simp, hparse⟩

end Angel.Http
