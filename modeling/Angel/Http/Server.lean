import Angel.Connection.Model
import Angel.Http.Entity
import Angel.Http.Handler

/-!
`http_server`: what is done with a complete request. Functions that act on the
response return the calls they make on it, in their order; the response is read
by file handlers only, which are given its header map. The file system, the
clock and the user's handlers act on a world of any type.
-/

namespace Angel.Http

open Util Lib

variable {W : Type}

/-- The system calls and library functions the server uses. -/
structure System (W : Type) where
  /-- the order in which a header map is traversed -/
  order : Headers → Headers
  now : W → Tm
  isRegularFile : W → Bytes → Bool
  /-- in microseconds -/
  getLastModified : W → Bytes → Int
  getFileSize : W → Bytes → Nat
  /-- `gmtime` of a time in microseconds -/
  gmtime : Int → Tm
  /-- the SHA-1 digest of a file, in hexadecimal -/
  hexDigest : W → Bytes → Bytes
  getMimeType : Bytes → Bytes
  generateBoundary : W → W × Bytes
  /-- `open(path, O_RDONLY)`; a negative descriptor is a failure -/
  openRead : W → Bytes → W × Int
  /-- `open(path, O_RDWR | O_TRUNC | O_CREAT, 0644)` -/
  openTruncate : W → Bytes → W × Int
  /-- what `read_fd` collects until it returns no more bytes -/
  readAll : W → Int → Bytes
  writeFile : W → Int → Bytes → W × Bool
  close : W → Int → W
  unlink : W → Bytes → W
  /-- the contents of the open files -/
  openFiles : W → Nat → Bytes

/-- A user handler: it is given the request and makes calls on the response. -/
abbrev ServerHandler (W : Type) := W → Request → W × List UserCall

/-- A file handler: it is given the request and the header map of the
response. -/
abbrev FileHandler (W : Type) := W → Request → Headers → W × Headers

/-- The data members of `http_server`. -/
structure Server (W : Type) where
  router : Method → Option (Bytes → Option (ServerHandler W))
  fileTable : Bytes → Option (FileHandler W)
  baseDir : Bytes
  generateFileEtagBySha1 : Bool

/-- A server without handlers. -/
def Server.create (baseDir : Bytes) : Server W where
  router := fun _ => none
  fileTable := fun _ => none
  baseDir := baseDir
  generateFileEtagBySha1 := false

/-- `router[method].emplace(path, handler)`. -/
def Server.route (server : Server W) (method : Method) (path : Bytes)
    (handler : ServerHandler W) : Server W :=
  let table := (server.router method).getD fun _ => none
  { server with
    router := fun m =>
      if m = method then some fun p => if p = path then (table p).or (some handler) else table p
      else server.router m }

def Server.get (server : Server W) (path : Bytes) (handler : ServerHandler W) : Server W :=
  server.route .get path handler

def Server.post (server : Server W) (path : Bytes) (handler : ServerHandler W) : Server W :=
  server.route .post path handler

def Server.file (server : Server W) (path : Bytes) (handler : FileHandler W) : Server W :=
  let file := server.baseDir ++ path ++ (if path = ascii "/" then ascii "index.html" else [])
  { server with
    fileTable := fun p =>
      if p = file then (server.fileTable p).or (some handler) else server.fileTable p }

def indexPage : Bytes :=
  ascii "<html>\n<head><title>angel-server</title></head>\n<body>\n" ++
    ascii "<center><h1>Welcome to angel-server!</h1></center>\n</body>\n</html>\n"

def Request.keepalive (req : Request) : Bool :=
  match req.headers.find (ascii "Connection") with
  | none => req.httpVersion = .http11
  | some value => equalCase value (ascii "keep-alive")

section Conditional

/-- `if_range`: without a match the `Range` header is dropped. -/
def Request.ifRange (req : Request) : Request :=
  match req.headers.find (ascii "If-Range") with
  | none => req
  | some value =>
      if !req.headers.count (ascii "Range") then req
      else if isEtag value && strongEtagEqual value req.etag then req
      else if !isEtag value && value = req.lastModified then req
      else { req with message :=
        { req.message with headers := req.message.headers.erase (ascii "Range") } }

def Request.ifNoneMatch (req : Request) : ConditionCode × List Call :=
  match req.headers.find (ascii "If-None-Match") with
  | none => (.noHeader, [])
  | some value =>
      let cached := req.reqMethod = .get ∨ req.reqMethod = .head
      let etagEqual := if cached then weakEtagEqual else strongEtagEqual
      if value = ascii "*" ∨ (split value COMMA).any (etagEqual · req.etag) then
        (.failed, if cached then [.setStatusCode .notModified, .send []]
          else [.setStatusCode .preconditionFailed, .sendErr])
      else (.successful, [])

def Request.ifModifiedSince (req : Request) : ConditionCode × List Call :=
  match req.headers.find (ascii "If-Modified-Since") with
  | none => (.noHeader, [])
  | some value =>
      if value ≠ req.lastModified then (.successful, [])
      else (.failed, [.setStatusCode .notModified, .send []])

def Request.ifMatch (req : Request) : ConditionCode × List Call :=
  match req.headers.find (ascii "If-Match") with
  | none => (.noHeader, [])
  | some value =>
      if value = ascii "*" then (.successful, [])
      else if (split value COMMA).any (strongEtagEqual · req.etag) then (.successful, [])
      else (.failed, [.setStatusCode .preconditionFailed, .sendErr])

def Request.ifUnmodifiedSince (req : Request) : ConditionCode × List Call :=
  match req.headers.find (ascii "If-Unmodified-Since") with
  | none => (.noHeader, [])
  | some value =>
      if value = req.lastModified then (.successful, [])
      else (.failed, [.setStatusCode .preconditionFailed, .sendErr])

/-- `handle_conditional` behind `if_range`: the first header that is there
decides. -/
def Request.handleConditional (req : Request) : ConditionCode × List Call :=
  if req.ifNoneMatch.1 ≠ .noHeader then req.ifNoneMatch
  else if req.ifModifiedSince.1 ≠ .noHeader then req.ifModifiedSince
  else if req.ifMatch.1 ≠ .noHeader then req.ifMatch
  else req.ifUnmodifiedSince

end Conditional

section Requests

variable (sys : System W) (server : Server W)

def sendFile (w : W) (req : Request) : W × List Call :=
  let (w, fd) := sys.openRead w req.absPath
  let head := [Call.setStatusCode .ok,
    .addHeader (ascii "Content-Type") (sys.getMimeType req.absPath)]
  if req.filesize < 256 * 1024 then (sys.close w fd, head ++ [.send (sys.readAll w fd)])
  else
    (w, head ++ [.addHeader (ascii "Content-Length") (decimal req.filesize), .send [],
      .connSendFile fd 0 req.filesize, .connSetSendCompleteHandler fd])

/-- `update_file`. `headers().at("Host")` throws without the header. -/
def updateFile (w : W) (req : Request) : Option (W × List Call) :=
  let (w, fd) := sys.openTruncate w req.absPath
  if fd < 0 then some (w, [.setStatusCode .internalServerError, .sendErr])
  else
    let (w, rc) := sys.writeFile w fd req.body
    if !rc then some (sys.close w fd, [.setStatusCode .internalServerError, .sendErr])
    else
      match req.headers.find (ascii "Host") with
      | none => none
      | some host =>
          some (sys.close w fd,
            [.setStatusCode (if req.hasFile then .noContent else .created),
              .addHeader (ascii "Location") (ascii "http://" ++ host ++ req.absPath),
              .send []])

def deleteFile (w : W) (req : Request) : W × List Call :=
  let w := if req.hasFile then sys.unlink w req.absPath else w
  (w, [.setStatusCode .noContent, .send []])

/-- `handle_range_request`. `parse_byte_ranges` returns three codes; any other
one aborts. -/
def handleRangeRequest (w : W) (req : Request) : Option (W × List Call) :=
  let mimeType := sys.getMimeType req.absPath
  if req.filesize = 0 then
    some (w, [.setStatusCode .ok, .addHeader (ascii "Content-Type") mimeType,
      .addHeader (ascii "Content-Length") (ascii "0"), .send []])
  else
    match req.headers.find (ascii "Range") with
    | none => none
    | some range =>
        match parseByteRanges req.filesize range with
        | (.ok, _) => some (sendFile sys w req)
        | (.requestedRangeNotSatisfiable, _) =>
            some (w, [.setStatusCode .requestedRangeNotSatisfiable,
              .addHeader (ascii "Content-Range") (contentRange (ascii "*") req.filesize),
              .send [], .connClose])
        | (.partialContent, ranges) =>
            let (w, fd) := sys.openRead w req.absPath
            let (w, boundary) := if ranges.length = 1 then (w, []) else sys.generateBoundary w
            some (w, sendRangeResponse mimeType req.filesize boundary fd ranges)
        | _ => none

/-- `handle_user_router`: no calls where no handler is registered for the path.
`router.at` throws without a table for the method. -/
def Server.handleUserRouter (w : W) (req : Request) : Option (W × Option (List Call)) :=
  match server.router req.reqMethod with
  | none => none
  | some table =>
      match table req.absPath with
      | none => some (w, none)
      | some handler => some ((handler w req).1, some ((handler w req).2.map .user))

def Server.handleFileRouter (w : W) (headers : Headers) (req : Request) : W × List Call :=
  match server.fileTable req.absPath with
  | none => (w, [])
  | some handler => ((handler w req headers).1, [.setHeaders (handler w req headers).2])

/-- The request with what the file system says about its file. -/
def Server.statFile (w : W) (req : Request) : Request :=
  let lastModifiedTime := sys.getLastModified w req.absPath
  let filesize := sys.getFileSize w req.absPath
  { req with
    filesize := filesize
    lastModified := formatDate (sys.gmtime lastModifiedTime)
    etag := if server.generateFileEtagBySha1 then
        Http.generateFileEtagBySha1 (sys.hexDigest w req.absPath) filesize
      else generateFileEtag lastModifiedTime filesize }

/-- The headers every response about an existing file gets. -/
def Request.validators (req : Request) : List (Bytes × Bytes) :=
  [(ascii "Last-Modified", req.lastModified), (ascii "Accept-Ranges", ascii "bytes"),
    (ascii "ETag", req.etag)]

def Request.addValidators (req : Request) : List Call :=
  req.validators.map fun entry => .addHeader entry.1 entry.2

/-- `handle_static_file_request` for a file that exists, from the conditional
headers on. -/
def Server.serveFile (w : W) (headers : Headers) (req : Request) :
    Option (W × Request × List Call) :=
  let req := req.ifRange
  let (code, calls) := req.handleConditional
  if code = .failed then some (w, req, req.addValidators ++ calls)
  else
    match req.reqMethod with
    | .get =>
        let headers := req.validators.foldl (fun h entry => h.emplace entry.1 entry.2) headers
        let (w, edit) := server.handleFileRouter w headers req
        if req.headers.count (ascii "Range") then
          (handleRangeRequest sys w req).map fun r =>
            (r.1, req, req.addValidators ++ edit ++ r.2)
        else
          let (w, calls) := sendFile sys w req
          some (w, req, req.addValidators ++ edit ++ calls)
    | .head =>
        some (w, req, req.addValidators ++ [.setStatusCode .ok,
          .addHeader (ascii "Content-Length") (decimal req.filesize), .send []])
    | _ => some (w, req, req.addValidators)

/-- `handle_static_file_request`; `headers` is the header map of the response
at the call. -/
def Server.handleStaticFileRequest (w : W) (headers : Headers) (req : Request) :
    Option (W × Request × List Call) :=
  let rootIndex := req.absPath = ascii "/"
  let path := server.baseDir ++ (if rootIndex then ascii "/index.html" else req.absPath)
  let req := { req with absPath := path, hasFile := sys.isRegularFile w path }
  match req.reqMethod with
  | .put => (updateFile sys w req).map fun r => (r.1, req, r.2)
  | .delete => some ((deleteFile sys w req).1, req, (deleteFile sys w req).2)
  | _ =>
      if !req.hasFile then
        some (w, req, if rootIndex then [.setStatusCode .ok, .send indexPage]
          else [.setStatusCode .notFound, .sendErr])
      else server.serveFile sys w headers (server.statFile sys w req)

/-- The switch of `process_request` over the method. -/
def Server.dispatch (w : W) (headers : Headers) (req : Request) :
    Option (W × Request × List Call) :=
  match req.reqMethod with
  | .get =>
      match server.handleUserRouter w req with
      | none => none
      | some (w, some calls) => some (w, req, calls)
      | some (w, none) => server.handleStaticFileRequest sys w headers req
  | .head => server.handleStaticFileRequest sys w headers req
  | .post => (server.handleUserRouter w req).map fun r => (r.1, req, r.2.getD [])
  | .put => server.handleStaticFileRequest sys w headers req
  | .delete => server.handleStaticFileRequest sys w headers req
  | _ => some (w, req, [.setStatusCode .notImplemented, .sendErr])

def Request.connectionHeader (req : Request) : Bytes :=
  if req.keepalive then ascii "keep-alive" else ascii "close"

/-- `process_request`: the world, the cleared request and the calls made on a
response with the header map `headers`. -/
def Server.processRequest (w : W) (headers : Headers) (req : Request) :
    Option (W × Request × List Call) :=
  let entered := headers.emplace (ascii "Connection") req.connectionHeader
  match server.dispatch sys w entered req with
  | none => none
  | some (w, after, calls) =>
      some (w, after.clear, .addHeader (ascii "Connection") req.connectionHeader :: calls ++
        if req.keepalive then [] else [.connClose])

/-- `process_request` on the response of a connection. -/
def Server.answer (res : Response) (w : W) (req : Request) :
    Option (Response × W × Request × List Output) :=
  match server.processRequest sys w res.headers req with
  | none => none
  | some (w', req, calls) =>
      let (res, out) := res.execAll sys.order (sys.now w) calls
      some (res, w', req, out)

/-- A connection of the server with all that its requests act on. `socket`
holds the results of the coming system calls on the socket, each with the byte
in front of the argument. -/
structure ServerState (W : Type) where
  conn : Connection.Conn Int
  socket : Nat → UInt8 × Connection.IoResult
  res : Response
  world : W

/-- One output of the response, on the connection. -/
def ServerState.perform (env : ServerState W) (output : Output) : ServerState W :=
  let (before, r) := env.socket 0
  let env' := { env with socket := fun n => env.socket (n + 1) }
  match output with
  | .head _ _ => env
  | .send bytes => { env' with conn := env.conn.sendInLoop before bytes r }
  | .sendFile fd offset count =>
      { env' with conn :=
        env.conn.sendFileInLoop (sys.openFiles env.world) ⟨fd.toNat, offset, count⟩ r }
  | .setSendCompleteHandler fd => { env with conn := env.conn.setSendCompleteHandler fd }
  | .close => { env with conn := env.conn.close }

/-- Calls on the response of the connection. -/
def ServerState.apply (env : ServerState W) (calls : List Call) : ServerState W :=
  let (res, out) := env.res.execAll sys.order (sys.now env.world) calls
  out.foldl (ServerState.perform sys) { env with res := res }

/-- The calls `message_handler` makes, on a connection of the server. -/
def Server.service : Service (ServerState W) where
  isConnected env := env.conn.state = .connected
  expect env req :=
    match req.headers.find (ascii "Expect") with
    | none => (env, .noHeader)
    | some value =>
        if equalCase value (ascii "100-continue") then (env, .successful)
        else (env.apply sys [.setStatusCode .expectationFailed, .sendErr], .failed)
  processRequest env req :=
    match server.answer sys env.res env.world req with
    | none => none
    | some (res, w, req, out) =>
        some (out.foldl (ServerState.perform sys) { env with res := res, world := w }, req)
  error env code :=
    env.apply sys [.setStatusCode code, .addHeader (ascii "Connection") (ascii "close"), .sendErr,
      .connClose]

end Requests

end Angel.Http
