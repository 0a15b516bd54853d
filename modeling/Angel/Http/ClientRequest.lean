import Angel.Http.Response
import Angel.Mime.Qp

/-!
The request side of the client: `uri::parse`, `uri::encode` and
`http_request`, which writes a request as it goes out on the wire.
-/

namespace Angel.Http

open Util Buffer

/-- The data members of `uri`. -/
structure Uri where
  scheme : Bytes
  host : Bytes
  port : Int
  path : Bytes
  params : Params
  fragment : Bytes
  deriving DecidableEq, Repr

/-- `uri::clear`. -/
def Uri.cleared : Uri := ⟨[], [], 80, [], [], []⟩

/-- The end of `uri::parse`, from the first `/` on. A `#` in front of the `?`
makes the range of the parameters negative, which is undefined. -/
def Uri.parsePath (uri : Uri) (text : Bytes) : Option (Uri × Bool) :=
  if text = [] then some ({ uri with path := ascii "/" }, true)
  else
    let sep := text.idxOf QUESTION
    let (decoded, path) := decode (text.take sep) uri.path
    let uri := { uri with path := path }
    if !decoded then some (uri, false)
    else
      let frag := text.idxOf HASH
      let fragment := if frag = text.length then uri.fragment else text.drop (frag + 1)
      if sep = text.length then some ({ uri with fragment := fragment }, true)
      else if frag < sep then none
      else
        let (parsed, params) := parseParams ((text.take frag).drop (sep + 1)) uri.params
        let uri := { uri with params := params }
        if !parsed then some (uri, false) else some ({ uri with fragment := fragment }, true)

/-- The host and the port of `uri::parse`. The first colon is looked for in all
of the text behind the scheme. -/
def Uri.parseAuthority (uri : Uri) (text : Bytes) : Option (Uri × Bool) :=
  let sep := text.idxOf COLON
  if sep = text.length then
    let slash := text.idxOf SLASH
    { uri with host := text.take slash }.parsePath (text.drop slash)
  else
    let port := text.drop (sep + 1)
    let slash := port.idxOf SLASH
    let uri := { uri with
      host := text.take sep
      port := (svtoi (port.take slash)).getD (-1) }
    if uri.port ≤ 0 then some (uri, false) else uri.parsePath (port.drop slash)

/-- `uri::parse`: the members afterwards, and whether the text is accepted. -/
def Uri.parse (url : Bytes) : Option (Uri × Bool) :=
  match find (ascii "://") url with
  | none => some (.cleared, false)
  | some sep =>
      let uri := { Uri.cleared with scheme := url.take sep }
      let text := url.drop (sep + 3)
      if uri.scheme = ascii "http" then { uri with port := 80 }.parseAuthority text
      else if uri.scheme = ascii "https" then { uri with port := 443 }.parseAuthority text
      else some (uri, false)

def isalnum (c : UInt8) : Bool := isdigit c || (65 ≤ c && c ≤ 90) || (97 ≤ c && c ≤ 122)

/-- A character that `uri::encode` writes as it is. `strchr` finds the null
character too, at the end of its string. -/
def unescaped (c : UInt8) : Bool := isalnum c || (ascii "-_.~").contains c || c = 0

def encodeByte (c : UInt8) : Bytes :=
  if unescaped c then [c] else Mime.QP.toHexPair PERCENT c

/-- `uri::encode`. -/
def encode (text : Bytes) : Bytes := text.flatMap encodeByte

/-- `headers[field] = value`: the key of an entry that is there is kept. -/
def Headers.set (headers : Headers) (field value : Bytes) : Headers :=
  if headers.count field then
    headers.map fun entry => if toLower entry.1 = toLower field then (entry.1, value) else entry
  else headers ++ [(field, value)]

/-- The data members of `http_request`, but for its timeouts and its buffer. -/
structure HttpRequest where
  uri : Uri
  invalidUrl : Bool
  headers : Headers
  body : Bytes
  method : Bytes
  deriving DecidableEq, Repr

def HttpRequest.init : HttpRequest := ⟨⟨[], [], 0, [], [], []⟩, true, [], [], []⟩

namespace HttpRequest

def setUrl (req : HttpRequest) (url : Bytes) : Option HttpRequest :=
  (Uri.parse url).map fun (uri, parsed) => { req with uri := uri, invalidUrl := !parsed }

def setParams (req : HttpRequest) (params : Params) : HttpRequest :=
  { req with uri := { req.uri with params := params } }

def setHeaders (req : HttpRequest) (headers : Headers) : HttpRequest :=
  { req with headers := headers }

def setBody (req : HttpRequest) (body : Bytes) : HttpRequest := { req with body := body }

def get (req : HttpRequest) : HttpRequest := { req with method := ascii "GET" }

def post (req : HttpRequest) : HttpRequest := { req with method := ascii "POST" }

-- The orders in which the parameters and the headers are traversed.
variable (paramOrder : Params → Params) (order : Headers → Headers)

/-- The request target that `str` writes. The last `&` is overwritten by the
blank behind the target. -/
def target (req : HttpRequest) : Bytes :=
  req.uri.path ++
    if req.uri.params = [] then []
    else QUESTION :: ((paramOrder req.uri.params).flatMap fun entry =>
      encode entry.1 ++ EQUALS :: (encode entry.2 ++ [AMPERSAND])).dropLast

/-- `http_request::str`: the object afterwards and the text. -/
def str (req : HttpRequest) : HttpRequest × Bytes :=
  let headers := req.headers.set (ascii "Host") req.uri.host
  ({ req with headers := headers },
    req.method ++ [SP] ++ req.target paramOrder ++ [SP] ++ ascii "HTTP/1.1" ++ CRLF ++
      (order headers).flatMap (fun entry => formatHeader entry.1 entry.2) ++ CRLF)

end HttpRequest

end Angel.Http
