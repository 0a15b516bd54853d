import Angel.Mime.Model

/-!
The stream parser of `mime.cc`. A node of the tree keeps its state between two
calls and falls through from one state into the next; a node whose current part
is a multipart passes the buffer on to it. Fuel stands for the depth of the
recursion: a call goes one part deeper or has taken bytes from the buffer.
-/

namespace Angel.Mime

open Angel.Lib Util Buffer Http

inductive ParseCode where
  | notEnough
  | error
  | ok
  deriving DecidableEq, Repr

/-- What ends a call without a return code. -/
inductive Fault where
  /-- `std::length_error` of a string operation. -/
  | lengthError
  /-- A read outside the buffer. -/
  | outOfBounds
  /-- A null pointer in place of a part: the parser was called again after it had
  returned `Ok`. -/
  | nullPart
  /-- A recursion that does not end. -/
  | spins
  deriving DecidableEq, Repr

/-- A pass of the loop in `parse_header`. With the first colon behind the line
the length of the value wraps around and it leaves the buffer. -/
def headerPass (s : Headers × Bytes) :
    Pass (Headers × Bytes) (Except Fault (ParseCode × Headers × Bytes)) :=
  let (headers, buf) := s
  if buf = [] then .done (.ok (.notEnough, headers, buf))
  else
    match findCrlf buf with
    | none => .done (.ok (.notEnough, headers, buf))
    | some crlf =>
        if startsWith buf CRLF then .done (.ok (.ok, headers, buf.drop 2))
        else
          match find [COLON] buf with
          | none => .done (.ok (.error, headers, buf))
          | some pos =>
              if crlf < pos then .done (.error .outOfBounds)
              else
                let field := buf.take pos
                let value := trim ((buf.drop (pos + 1)).take (crlf - pos - 1))
                let headers := if value ≠ [] then headers.emplace field value else headers
                .again (headers, buf.drop (crlf + 2))

def parseHeader (headers : Headers) (buf : Bytes) : Except Fault (ParseCode × Headers × Bytes) :=
  (loop headerPass (buf.length + 1) (headers, buf)).getD (.error .spins)

/-- `parse_quoted_string`: the offset of the closing quote. -/
def parseQuotedString : Bytes → Option Nat
  | [] => none
  | c :: s =>
      if c = 92 then
        match s with
        | [] => none
        | _ :: s => (parseQuotedString s).map (· + 2)
      else if c = 34 then some 0
      else (parseQuotedString s).map (· + 1)

/-- `content_value_t`. -/
structure ContentValue where
  value : Bytes
  parameters : Headers
  deriving DecidableEq, Repr

/-- A pass of the loop over the parameters. -/
def parameterPass (s : Headers × Bytes) : Pass (Headers × Bytes) (Bool × Headers) :=
  let (parameters, str) := s
  let p := str.dropWhile isspace
  if p = [] then .done (true, parameters)
  else
    match find (ascii "=") p with
    | none => .done (false, parameters)
    | some n =>
        let attr := p.take n
        match p.drop (n + 1) with
        | [] => .done (false, parameters)
        | c :: sep =>
            if c = 34 then
              match parseQuotedString sep with
              | none => .done (false, parameters)
              | some k =>
                  let parameters := parameters.emplace attr (sep.take k)
                  match find (ascii ";") (sep.drop k) with
                  | none => .done (true, parameters)
                  | some stop => .again (parameters, (sep.drop k).drop (stop + 1))
            else
              match find (ascii ";") (c :: sep) with
              | none => .done (true, parameters.emplace attr (trim (c :: sep)))
              | some stop =>
                  .again (parameters.emplace attr (trim ((c :: sep).take stop)),
                    (c :: sep).drop (stop + 1))

/-- `content_value_t::parse`: what it returns and the value. Without a semicolon
`assign` is called with the length `npos`. -/
def ContentValue.parse (str : Bytes) : Except Fault (Bool × ContentValue) :=
  match find (ascii ";") str with
  | none => .error .lengthError
  | some pos =>
      let (ok, parameters) :=
        (loop parameterPass (str.length + 1) ([], str.drop (pos + 1))).getD (false, [])
      .ok (ok, { value := str.take pos, parameters := parameters })

/-- `content_type_t::maintype`. -/
def ContentValue.maintype (contentType : ContentValue) : Bytes :=
  (split contentType.value 47).headD []

/-- `content_type_t::parse`; `none` is `false`. -/
def parseContentType (str : Bytes) : Except Fault (Option ContentValue) := do
  let (ok, contentType) ← ContentValue.parse str
  .ok (if ok ∧ (split contentType.value 47).length = 2 then some contentType else none)

inductive NodeState where
  | dashBoundary
  | headerPart
  | bodyPart
  | delimiter
  deriving DecidableEq, Repr

/-- The members of `part_node`. -/
structure NodeData where
  headers : Headers
  contentType : ContentValue
  body : Bytes
  deriving DecidableEq, Repr

/-- `part_node` and `multipart_node`. -/
inductive Node where
  | part (data : NodeData)
  | multipart (data : NodeData) (boundary : Bytes) (state : NodeState) (parts : List Node)
      (partHeaders : Headers) (cur : Option Node)

def Node.isMultipart : Node → Bool
  | .part _ => false
  | .multipart .. => true

def Node.iterParts : Node → List Node
  | .part _ => []
  | .multipart _ _ _ parts _ _ => parts

def Node.getBody : Node → Bytes
  | .part data => data.body
  | .multipart data _ _ _ _ _ => data.body

/-- How deep the multiparts in progress are nested. -/
def Node.depth : Node → Nat
  | .part _ => 0
  | .multipart _ _ _ _ _ none => 1
  | .multipart _ _ _ _ _ (some cur) => cur.depth + 1

def dashBoundary (boundary : Bytes) : Bytes := TWO_HYPHEN ++ boundary

def delimiter (boundary : Bytes) : Bytes := CRLF ++ dashBoundary boundary

/-- `multipart_node(boundary)` with the headers and the content type that it is
given. -/
def Node.create (headers : Headers) (contentType : ContentValue) (boundary : Bytes) : Node :=
  .multipart { headers := headers, contentType := contentType, body := [] } boundary .dashBoundary []
    [] none

/-- `get_part_node` of a node with the content type `own`; `none` is the null
pointer. The headers are moved into the node. -/
def getPartNode (own : ContentValue) (headers : Headers) : Except Fault (Option Node) :=
  match headers.find (ascii "Content-Type") with
  | none =>
      let contentType : ContentValue :=
        if equalCase own.value (ascii "multipart/digest") then ⟨ascii "message/rfc822", []⟩
        else ⟨ascii "text/plain", [(ascii "charset", ascii "us-ascii")]⟩
      .ok (some (.part { headers := headers, contentType := contentType, body := [] }))
  | some value => do
      match ← parseContentType value with
      | none => .ok none
      | some contentType =>
          if !equalCase contentType.maintype (ascii "multipart") then
            .ok (some (.part { headers := headers, contentType := contentType, body := [] }))
          else
            match contentType.parameters.find (ascii "boundary") with
            | none => .ok none
            | some boundary => .ok (some (Node.create headers contentType boundary))

/-- `decode`: what it returns and the members. -/
def NodeData.decode (n : NodeData) (data : Bytes) : Bool × NodeData :=
  if data = [] then (true, n)
  else
    match n.headers.find (ascii "Content-Transfer-Encoding") with
    | none => (true, n)
    | some encoding =>
        let body :=
          if equalCase encoding (ascii "base64") then Base64.mimeDecode data
          else if equalCase encoding (ascii "quoted-printable") then QP.decode data
          else data
        (body ≠ [], { n with body := body })

def Node.decode (data : Bytes) : Node → Bool × Node
  | .part n => ((n.decode data).1, .part (n.decode data).2)
  | .multipart n boundary state parts partHeaders cur =>
      ((n.decode data).1, .multipart (n.decode data).2 boundary state parts partHeaders cur)

def islwsp (c : UInt8) : Bool := c = SP || c = QP.HT

/-- `skip_lwsp_char`. -/
def skipLwspChar (buf : Bytes) : Bytes := buf.dropWhile islwsp

/-- What `parse` returns, the node and the buffer. -/
abbrev ParseResult := Except Fault (ParseCode × Node × Bytes)

section

-- The recursive calls go to `parse`.
variable (parse : Node → Bytes → ParseResult) (data : NodeData) (boundary : Bytes)

/-- `case Delimiter`. -/
def delimiterCase (parts : List Node) (partHeaders : Headers) (cur : Option Node) (buf : Bytes) :
    ParseResult :=
  let node := Node.multipart data boundary .delimiter parts partHeaders cur
  if buf.length < 2 then .ok (.notEnough, node, buf)
  else if startsWith buf TWO_HYPHEN then
    match cur with
    | none => .error .nullPart
    | some part =>
        .ok (.ok, .multipart data boundary .delimiter (parts ++ [part]) partHeaders none,
          skipLwspChar (buf.drop 2))
  else
    match findCrlf buf with
    | none => .ok (.notEnough, node, buf)
    | some crlf =>
        if !(buf.take crlf).all islwsp then .ok (.error, node, buf)
        else
          match cur with
          | none => .error .nullPart
          | some part =>
              parse (.multipart data boundary .headerPart (parts ++ [part]) partHeaders none)
                (buf.drop (crlf + 2))

/-- `case BodyPart`. -/
def bodyPartCase (parts : List Node) (partHeaders : Headers) (cur : Option Node) (buf : Bytes) :
    ParseResult :=
  match find (delimiter boundary) buf with
  | none => .ok (.notEnough, .multipart data boundary .bodyPart parts partHeaders cur, buf)
  | some pos =>
      match cur with
      | none => .error .nullPart
      | some part =>
          let (ok, part) := part.decode (buf.take pos)
          if !ok then
            .ok (.error, .multipart data boundary .bodyPart parts partHeaders (some part), buf)
          else
            delimiterCase parse data boundary parts partHeaders (some part)
              (buf.drop (pos + (delimiter boundary).length))

/-- `case HeaderPart` behind the headers. -/
def currentPart (parts : List Node) (partHeaders : Headers) (cur : Node) (buf : Bytes) : ParseResult :=
  match cur with
  | .part _ => bodyPartCase parse data boundary parts partHeaders (some cur) buf
  | .multipart .. => do
      let (code, cur, buf) ← parse cur buf
      if code ≠ .ok then
        .ok (code, .multipart data boundary .headerPart parts partHeaders (some cur), buf)
      else bodyPartCase parse data boundary parts partHeaders (some cur) buf

/-- `case HeaderPart`. -/
def headerPartCase (parts : List Node) (partHeaders : Headers) (cur : Option Node) (buf : Bytes) :
    ParseResult :=
  match cur with
  | some cur => currentPart parse data boundary parts partHeaders cur buf
  | none => do
      let (code, partHeaders, buf) ← parseHeader partHeaders buf
      if code ≠ .ok then
        .ok (code, .multipart data boundary .headerPart parts partHeaders none, buf)
      else
        match ← getPartNode data.contentType partHeaders with
        | none => .ok (.error, .multipart data boundary .headerPart parts partHeaders none, buf)
        | some cur => currentPart parse data boundary parts [] cur buf

/-- `case DashBoundary`. -/
def dashBoundaryCase (parts : List Node) (partHeaders : Headers) (cur : Option Node) (buf : Bytes) :
    ParseResult :=
  let node := Node.multipart data boundary .dashBoundary parts partHeaders cur
  match findCrlf buf with
  | none => .ok (.notEnough, node, buf)
  | some crlf =>
      if !startsWith buf (dashBoundary boundary) then .ok (.error, node, buf)
      -- a range that ends before it starts
      else if crlf < (dashBoundary boundary).length then .error .outOfBounds
      else if !((buf.take crlf).drop (dashBoundary boundary).length).all islwsp then
        .ok (.error, node, buf)
      else headerPartCase parse data boundary parts partHeaders cur (buf.drop (crlf + 2))

end

/-- `multipart_node::parse`. -/
def Node.parse : Nat → Node → Bytes → ParseResult
  | 0, _, _ => .error .spins
  | _ + 1, .part n, buf => .ok (.error, .part n, buf)
  | fuel + 1, .multipart data boundary state parts partHeaders cur, buf =>
      match state with
      | .dashBoundary => dashBoundaryCase (parse fuel) data boundary parts partHeaders cur buf
      | .headerPart => headerPartCase (parse fuel) data boundary parts partHeaders cur buf
      | .bodyPart => bodyPartCase (parse fuel) data boundary parts partHeaders cur buf
      | .delimiter => delimiterCase (parse fuel) data boundary parts partHeaders cur buf

inductive ParserState where
  | preamble
  | multipartBody
  | epilogue
  deriving DecidableEq, Repr

structure MultipartParser where
  contentType : Bytes
  root : Option Node
  state : ParserState
  preamble : Bytes
  epilogue : Bytes

namespace MultipartParser

/-- The constructor; it gives `state` no value. -/
def create (contentType : Bytes) : MultipartParser :=
  { contentType := contentType, root := none, state := .preamble, preamble := [], epilogue := [] }

/-- `case Epilogue`. -/
def epilogueCase (p : MultipartParser) (buf : Bytes) : ParseCode × MultipartParser × Bytes :=
  match findCrlf buf with
  | none => (.notEnough, p, buf)
  | some crlf => (.ok, { p with epilogue := buf.take crlf }, buf.drop (crlf + 2))

/-- `case MultipartBody`. -/
def bodyCase (p : MultipartParser) (root : Node) (buf : Bytes) :
    Except Fault (ParseCode × MultipartParser × Bytes) := do
  let (code, root, buf) ← root.parse (root.depth + buf.length + 1) buf
  let p := { p with root := some root }
  if code ≠ .ok then .ok (code, p, buf)
  else if startsWith buf CRLF then .ok (epilogueCase { p with state := .epilogue } (buf.drop 2))
  else .ok (.ok, p, buf)

/-- `case Preamble`; `boundary` is the boundary of the root. -/
def preambleCase (p : MultipartParser) (root : Node) (boundary buf : Bytes) :
    Except Fault (ParseCode × MultipartParser × Bytes) :=
  match findCrlf buf with
  | none => .ok (.notEnough, p, buf)
  | some crlf =>
      if !startsWith buf (dashBoundary boundary) then
        bodyCase { p with preamble := buf.take crlf, state := .multipartBody } root (buf.drop (crlf + 2))
      else bodyCase { p with state := .multipartBody } root buf

/-- The root that the content type asks for; `none` where `parse` returns
`Error`. -/
def makeRoot (contentType : Bytes) : Except Fault (Option Node) := do
  match ← parseContentType contentType with
  | none => .ok none
  | some value =>
      if !equalCase value.maintype (ascii "multipart") then .ok none
      else
        match value.parameters.find (ascii "boundary") with
        | none => .ok none
        | some boundary => .ok (some (Node.create [] value boundary))

/-- The `switch` of `parse`. -/
def parseRoot (p : MultipartParser) (root : Node) (buf : Bytes) :
    Except Fault (ParseCode × MultipartParser × Bytes) :=
  match p.state, root with
  | .preamble, .multipart _ boundary _ _ _ _ => preambleCase p root boundary buf
  | .preamble, .part _ => .ok (.error, p, buf)
  | .multipartBody, _ => bodyCase p root buf
  | .epilogue, _ => .ok (epilogueCase p buf)

/-- `multipart_parser::parse`. -/
def parse (p : MultipartParser) (buf : Bytes) :
    Except Fault (ParseCode × MultipartParser × Bytes) :=
  match p.root with
  | some root => parseRoot p root buf
  | none => do
      match ← makeRoot p.contentType with
      | none => .ok (.error, p, buf)
      | some root => parseRoot { p with root := some root, state := .preamble } root buf

end MultipartParser

/-- A segment arrives: the parser is called until it returns something other
than `NotEnough`. -/
def feed (s : Except Fault (ParseCode × MultipartParser × Bytes)) (segment : Bytes) :
    Except Fault (ParseCode × MultipartParser × Bytes) := do
  let (code, p, buf) ← s
  if code = .notEnough then p.parse (buf ++ segment) else .ok (code, p, buf ++ segment)

end Angel.Mime
