import Angel.Http.Message
import Angel.Http.Request

/-!
`httplib::response`: the status line, the header block and the sending
functions. Apart from its header map, which a file handler is given, the object
is only written to: what it does with a list of calls is `Response.execAll`.
-/

namespace Angel.Http

open Util

def StatusCode.value : StatusCode → Nat
  | .continue => 100
  | .switchingProtocols => 101
  | .ok => 200
  | .created => 201
  | .accepted => 202
  | .nonAuthoritativeInformation => 203
  | .noContent => 204
  | .resetContent => 205
  | .partialContent => 206
  | .multipleChoices => 300
  | .movedPermanently => 301
  | .found => 302
  | .seeOther => 303
  | .notModified => 304
  | .useProxy => 305
  | .temporaryRedirect => 307
  | .badRequest => 400
  | .unauthorized => 401
  | .forbidden => 403
  | .notFound => 404
  | .methodNotAllowed => 405
  | .notAcceptable => 406
  | .proxyAuthenticationRequired => 407
  | .requestTimeout => 408
  | .conflict => 409
  | .gone => 410
  | .lengthRequired => 411
  | .preconditionFailed => 412
  | .requestEntityTooLarge => 413
  | .requestUriTooLong => 414
  | .unsupportedMediaType => 415
  | .requestedRangeNotSatisfiable => 416
  | .expectationFailed => 417
  | .internalServerError => 500
  | .notImplemented => 501
  | .badGateway => 502
  | .serviceUnavailable => 503
  | .gatewayTimeout => 504
  | .httpVersionNotSupported => 505

/-- `to_str`: every code is in `code_map`. -/
def StatusCode.toStr : StatusCode → Bytes
  | .continue => ascii "Continue"
  | .switchingProtocols => ascii "Switching Protocols"
  | .ok => ascii "OK"
  | .created => ascii "Created"
  | .accepted => ascii "Accepted"
  | .nonAuthoritativeInformation => ascii "Non Authoritative Information"
  | .noContent => ascii "No Content"
  | .resetContent => ascii "Reset Content"
  | .partialContent => ascii "Partial Content"
  | .multipleChoices => ascii "Multiple Choices"
  | .movedPermanently => ascii "Moved Permanently"
  | .found => ascii "Found"
  | .seeOther => ascii "See Other"
  | .notModified => ascii "Not Modified"
  | .useProxy => ascii "Use Proxy"
  | .temporaryRedirect => ascii "Temporary Redirect"
  | .badRequest => ascii "Bad Request"
  | .unauthorized => ascii "Unauthorized"
  | .forbidden => ascii "Forbidden"
  | .notFound => ascii "Not Found"
  | .methodNotAllowed => ascii "Method Not Allowed"
  | .notAcceptable => ascii "Not Acceptable"
  | .proxyAuthenticationRequired => ascii "Proxy Authentication Required"
  | .requestTimeout => ascii "Request Timeout"
  | .conflict => ascii "Conflict"
  | .gone => ascii "Gone"
  | .lengthRequired => ascii "Length Required"
  | .preconditionFailed => ascii "Precondition Failed"
  | .requestEntityTooLarge => ascii "Request Entity Too Large"
  | .requestUriTooLong => ascii "Request-URI Too Long"
  | .unsupportedMediaType => ascii "Unsupported Media Type"
  | .requestedRangeNotSatisfiable => ascii "Requested Range Not Satisfiable"
  | .expectationFailed => ascii "Expectation Failed"
  | .internalServerError => ascii "Internal Server Error"
  | .notImplemented => ascii "Not Implemented"
  | .badGateway => ascii "Bad Gateway"
  | .serviceUnavailable => ascii "Service Unavailable"
  | .gatewayTimeout => ascii "Gateway Timeout"
  | .httpVersionNotSupported => ascii "Http Version Not Supported"

/-- A broken-down time in UTC, as `gmtime` returns it; `year` is the full
year. -/
structure Tm where
  wday : Fin 7
  mday : Nat
  mon : Fin 12
  year : Nat
  hour : Nat
  min : Nat
  sec : Nat
  deriving DecidableEq, Repr

def wkday : Fin 7 → Bytes
  | 0 => ascii "Sun"
  | 1 => ascii "Mon"
  | 2 => ascii "Tue"
  | 3 => ascii "Wed"
  | 4 => ascii "Thu"
  | 5 => ascii "Fri"
  | 6 => ascii "Sat"

def month : Fin 12 → Bytes
  | 0 => ascii "Jan"
  | 1 => ascii "Feb"
  | 2 => ascii "Mar"
  | 3 => ascii "Apr"
  | 4 => ascii "May"
  | 5 => ascii "Jun"
  | 6 => ascii "Jul"
  | 7 => ascii "Aug"
  | 8 => ascii "Sep"
  | 9 => ascii "Oct"
  | 10 => ascii "Nov"
  | 11 => ascii "Dec"

/-- A number with at least two digits. -/
def twoDigits (n : Nat) : Bytes := if n < 10 then 48 :: decimal n else decimal n

/-- `format_date`: the conversion `%a, %d %b %Y %T GMT` in the C locale. -/
def formatDate (tm : Tm) : Bytes :=
  wkday tm.wday ++ ascii ", " ++ twoDigits tm.mday ++ ascii " " ++ month tm.mon ++ ascii " " ++
    decimal tm.year ++ ascii " " ++ twoDigits tm.hour ++ ascii ":" ++ twoDigits tm.min ++
    ascii ":" ++ twoDigits tm.sec ++ ascii " GMT"

/-- The data members of `response`. -/
structure Response where
  statusCode : StatusCode
  headers : Headers
  chunked : Bool
  chunkedBuf : Bytes
  deriving DecidableEq, Repr

/-- What a response does to its connection. `head` marks that `header()` has
built a header block: its status and its header map. A file descriptor is -1
where `open` failed; the completion handler closes it. -/
inductive Output where
  | head (code : StatusCode) (headers : Headers)
  | send (bytes : Bytes)
  | sendFile (fd : Int) (offset count : Nat)
  | setSendCompleteHandler (fd : Int)
  | close
  deriving DecidableEq, Repr

/-- The bytes handed to `connection::send`. -/
def sentBytes (out : List Output) : Bytes :=
  out.flatMap fun
    | .send bytes => bytes
    | _ => []

@[simp] theorem sentBytes_append (first second : List Output) :
    sentBytes (first ++ second) = sentBytes first ++ sentBytes second :=
  List.flatMap_append

/-- The header maps of the header blocks. -/
def sentHeads (out : List Output) : List Headers :=
  out.filterMap fun
    | .head _ headers => some headers
    | _ => none

def Response.setStatusCode (res : Response) (code : StatusCode) : Response :=
  { res with statusCode := code }

def Response.addHeader (res : Response) (field value : Bytes) : Response :=
  { res with headers := res.headers.emplace field value }

def formatHeader (field value : Bytes) : Bytes := field ++ SEP ++ value ++ CRLF

def Response.statusLine (res : Response) : Bytes :=
  ascii "HTTP/1.1" ++ [SP] ++ decimal res.statusCode.value ++ [SP] ++ res.statusCode.toStr ++ CRLF

def bufferedSize : Nat := 4096

/-- `snprintf(x, 16, "%zx\r\n", size)`. -/
def chunkSizeLine (size : Nat) : Bytes :=
  (((Nat.toDigits 16 size).map fun c => c.toNat.toUInt8) ++ CRLF).take 15

section Send

-- The order in which the header map is traversed, and the time.
variable (order : Headers → Headers) (now : Tm)

/-- The header map `header()` writes. -/
def Response.finalHeaders (res : Response) : Headers :=
  (res.headers.emplace (ascii "Server") (ascii "angel")).emplace (ascii "Date") (formatDate now)

/-- `header()`: the header block. -/
def Response.block (res : Response) : Bytes :=
  res.statusLine ++
    (order (res.finalHeaders now)).flatMap (fun entry => formatHeader entry.1 entry.2) ++ CRLF

/-- The mark of a call of `header()`. -/
def Response.mark (res : Response) : Output := .head res.statusCode (res.finalHeaders now)

/-- The object after a call of `header()`. -/
def Response.headerSent (res : Response) : Response := { res with headers := [] }

def Response.send (res : Response) (body : Bytes) : Response × List Output :=
  let res := if 0 < body.length then
      res.addHeader (ascii "Content-Length") (decimal body.length)
    else res
  if bufferedSize ≤ body.length then
    (res.headerSent, [res.mark now, .send (res.block order now), .send body])
  else (res.headerSent, [res.mark now, .send (res.block order now ++ body)])

def Response.setContent (res : Response) (body type : Bytes) : Response × List Output :=
  (res.addHeader (ascii "Content-Type") type).send order now body

/-- The first part of `send_chunk`: the first chunk of a response writes the
header block, to the connection or to the chunk buffer. -/
def Response.openChunked (res : Response) (chunk : Bytes) : Response × List Output :=
  if res.chunked then (res, [])
  else
    let res := { res with chunked := true }.addHeader (ascii "Transfer-Encoding") (ascii "chunked")
    if bufferedSize ≤ chunk.length then
      (res.headerSent, [res.mark now, .send (res.block order now)])
    else
      ({ res.headerSent with chunkedBuf := res.chunkedBuf ++ res.block order now },
        [res.mark now])

def Response.sendChunk (res : Response) (chunk : Bytes) : Response × List Output :=
  let (res, out) := res.openChunked order now chunk
  let size := chunkSizeLine chunk.length
  if bufferedSize ≤ chunk.length then
    ({ res with chunkedBuf := CRLF }, out ++ [.send (res.chunkedBuf ++ size), .send chunk])
  else
    let buf := res.chunkedBuf ++ size ++ chunk ++ CRLF
    if bufferedSize ≤ buf.length then ({ res with chunkedBuf := [] }, out ++ [.send buf])
    else ({ res with chunkedBuf := buf }, out)

def Response.sendDone (res : Response) : Response × List Output :=
  ({ res with chunked := false, chunkedBuf := [] },
    [.send (res.chunkedBuf ++ ascii "0\r\n\r\n")])

/-- `err_page`: at most 1023 characters, which no page reaches. -/
def errPage (code : StatusCode) : Bytes :=
  ascii "<html>\n<head><title>" ++ decimal code.value ++ [SP] ++ code.toStr ++
    ascii "</title></head>\n<body>\n<center><h1>" ++ decimal code.value ++ [SP] ++ code.toStr ++
    ascii "</h1></center>\n<hr><center>ange-server</center>\n</body>\n</html>"

def Response.sendErr (res : Response) : Response × List Output :=
  (res.addHeader (ascii "Content-Type") (ascii "text/html")).send order now
    (errPage res.statusCode)

/-- The calls a user handler can make: the public members of `response`. -/
inductive UserCall where
  | setStatusCode (code : StatusCode)
  | addHeader (field value : Bytes)
  | setContent (body type : Bytes)
  | sendChunk (chunk : Bytes)
  | sendDone
  deriving DecidableEq, Repr

/-- The calls of the server: those of its handlers, the private members of
`response`, an assignment to the header map by a file handler, and calls on the
connection itself. -/
inductive Call where
  | user (call : UserCall)
  | send (body : Bytes)
  | sendErr
  | setHeaders (headers : Headers)
  | connSend (bytes : Bytes)
  | connSendFile (fd : Int) (offset count : Nat)
  | connSetSendCompleteHandler (fd : Int)
  | connClose
  deriving DecidableEq, Repr

def Call.setStatusCode (code : StatusCode) : Call := .user (.setStatusCode code)

def Call.addHeader (field value : Bytes) : Call := .user (.addHeader field value)

def Response.execUser (res : Response) : UserCall → Response × List Output
  | .setStatusCode code => (res.setStatusCode code, [])
  | .addHeader field value => (res.addHeader field value, [])
  | .setContent body type => res.setContent order now body type
  | .sendChunk chunk => res.sendChunk order now chunk
  | .sendDone => res.sendDone

def Response.exec (res : Response) : Call → Response × List Output
  | .user call => res.execUser order now call
  | .send body => res.send order now body
  | .sendErr => res.sendErr order now
  | .setHeaders headers => ({ res with headers := headers }, [])
  | .connSend bytes => (res, [.send bytes])
  | .connSendFile fd offset count => (res, [.sendFile fd offset count])
  | .connSetSendCompleteHandler fd => (res, [.setSendCompleteHandler fd])
  | .connClose => (res, [.close])

/-- Calls in a row. -/
def Response.execAll (res : Response) : List Call → Response × List Output
  | [] => (res, [])
  | call :: calls =>
      let (res, out) := res.exec order now call
      let (res, more) := res.execAll calls
      (res, out ++ more)

theorem execAll_cons (res : Response) (call : Call) (calls : List Call) :
    res.execAll order now (call :: calls) =
      (((res.exec order now call).1.execAll order now calls).1,
        (res.exec order now call).2 ++ ((res.exec order now call).1.execAll order now calls).2) :=
  rfl

end Send

end Angel.Http
