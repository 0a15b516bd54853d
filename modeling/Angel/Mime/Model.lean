import Angel.Base64
import Angel.Http.Message
import Angel.Mime.Qp

/-!
MIME messages, after `mime.cc`: the objects that `text` and `multipart` build
and write with `str`, and the parser of multipart bodies. The header map has no
order of its own; `order` is the one in which `str` iterates over it.
-/

namespace Angel.Mime

open Angel.Lib Util Buffer Http

inductive Encoding where
  | none
  | qp
  | base64
  | bit7
  | bit7or8
  deriving DecidableEq, Repr

def charsetMap : List (Bytes × Encoding) := [
  (ascii "iso-8859-1", .qp),
  (ascii "iso-8859-2", .qp),
  (ascii "iso-8859-3", .qp),
  (ascii "iso-8859-4", .qp),
  (ascii "iso-8859-9", .qp),
  (ascii "iso-8859-10", .qp),
  (ascii "iso-8859-13", .qp),
  (ascii "iso-8859-14", .qp),
  (ascii "iso-8859-15", .qp),
  (ascii "iso-8859-16", .qp),
  (ascii "gb2312", .base64),
  (ascii "gbk", .base64),
  (ascii "gb18030", .base64),
  (ascii "big5", .base64),
  (ascii "euc-jp", .base64),
  (ascii "shift_jis", .base64),
  (ascii "utf-8", .base64),
  (ascii "us-ascii", .bit7)]

def aliasMap : List (Bytes × Bytes) := [
  (ascii "latin_1", ascii "iso-8859-1"),
  (ascii "latin-1", ascii "iso-8859-1"),
  (ascii "latin_2", ascii "iso-8859-2"),
  (ascii "latin-2", ascii "iso-8859-2"),
  (ascii "latin_3", ascii "iso-8859-3"),
  (ascii "latin-3", ascii "iso-8859-3"),
  (ascii "latin_4", ascii "iso-8859-4"),
  (ascii "latin-4", ascii "iso-8859-4"),
  (ascii "latin_5", ascii "iso-8859-9"),
  (ascii "latin-5", ascii "iso-8859-9"),
  (ascii "latin_6", ascii "iso-8859-10"),
  (ascii "latin-6", ascii "iso-8859-10"),
  (ascii "latin_7", ascii "iso-8859-13"),
  (ascii "latin-7", ascii "iso-8859-13"),
  (ascii "latin_8", ascii "iso-8859-14"),
  (ascii "latin-8", ascii "iso-8859-14"),
  (ascii "latin_9", ascii "iso-8859-15"),
  (ascii "latin-9", ascii "iso-8859-15"),
  (ascii "latin_10", ascii "iso-8859-16"),
  (ascii "latin-10", ascii "iso-8859-16"),
  (ascii "euc_jp", ascii "euc-jp"),
  (ascii "ascii", ascii "us-ascii")]

def getEncoding (charset : Bytes) : Encoding :=
  ((charsetMap.find? fun entry => entry.1 = charset).map Prod.snd).getD .none

def getCanonical (charset : Bytes) : Option Bytes :=
  (aliasMap.find? fun entry => entry.1 = charset).map Prod.snd

/-- `base`, less the buffers that `str` works in. -/
structure Base where
  topLevel : Bool
  headers : Headers
  encodedData : Bytes
  deriving DecidableEq, Repr

namespace Base

def create : Base := { topLevel := true, headers := [], encodedData := [] }

def addHeader (b : Base) (field value : Bytes) : Base :=
  { b with headers := b.headers.emplace field value }

/-- `encode_7or8bit`. -/
def encode7or8bit (data : Bytes) : Bytes :=
  if data.all fun c => c < 128 then ascii "7bit" else ascii "8bit"

def encode (b : Base) (data : Bytes) : Encoding → Base
  | .qp => { b with encodedData := QP.encode data }.addHeader (ascii "Content-Transfer-Encoding")
      (ascii "quoted-printable")
  | .base64 => { b with encodedData := Base64.mimeEncode data }.addHeader
      (ascii "Content-Transfer-Encoding") (ascii "base64")
  | .bit7 => { b with encodedData := data }.addHeader (ascii "Content-Transfer-Encoding")
      (ascii "7bit")
  | .bit7or8 => { b with encodedData := data }.addHeader (ascii "Content-Transfer-Encoding")
      (encode7or8bit data)
  | .none => b

def init (b : Base) (data type subtype : Bytes) (name : Option Bytes) (encoding : Encoding)
    (charset : Option Bytes) : Base :=
  let contentType := type ++ ascii "/" ++ subtype
  let contentType := match charset with
    | some charset => contentType ++ ascii "; charset=" ++ charset
    | none => contentType
  let contentType := match name with
    | some name => contentType ++ ascii "; name=\"" ++ name ++ ascii "\""
    | none => contentType
  (b.addHeader (ascii "Content-Type") contentType).encode data encoding

/-- `base::str`; `date` is the date it is called at. -/
def str (date : Bytes) (order : Headers → Headers) (b : Base) : Bytes :=
  let headers :=
    if b.topLevel then
      (b.headers.emplace (ascii "Date") date).emplace (ascii "MIME-Version") (ascii "1.0")
    else b.headers
  ((order headers).flatMap fun header => header.1 ++ ascii ": " ++ header.2 ++ CRLF) ++ CRLF ++
    b.encodedData

end Base

/-- The character set that `text` works with. -/
def canonical (charset : Bytes) : Bytes := (getCanonical (toLower charset)).getD (toLower charset)

/-- `text(txtdata, subtype, charset, name)`; `none` is a failed assertion. -/
def text (txtdata subtype charset : Bytes) (name : Option Bytes) : Option Base :=
  let encoding := getEncoding (canonical charset)
  if encoding = .none then none
  else some (Base.create.init txtdata (ascii "text") subtype name encoding (some (canonical charset)))

/-- `text(txtdata, name)`. -/
def textPlain (txtdata : Bytes) (name : Option Bytes) : Base :=
  Base.create.init txtdata (ascii "text") (ascii "plain") name (getEncoding (ascii "us-ascii"))
    (some (ascii "us-ascii"))

def TWO_HYPHEN : Bytes := ascii "--"

/-- The parts of a message. -/
inductive Part where
  | single (base : Base)
  | multipart (base : Base) (boundary : Bytes) (parts : List Part)

/-- The `Content-Type` of a multipart. -/
def multipartType (subtype boundary : Bytes) : Bytes :=
  ascii "multipart/" ++ subtype ++ ascii "; boundary=\"" ++ boundary ++ ascii "\""

/-- `multipart(subtype)`, with the boundary that is generated for it. -/
def multipart (subtype boundary : Bytes) : Part :=
  if subtype = ascii "form-data" then .multipart { Base.create with topLevel := false } boundary []
  else .multipart (Base.create.addHeader (ascii "Content-Type") (multipartType subtype boundary))
    boundary []

namespace Part

def base : Part → Base
  | single base => base
  | multipart base _ _ => base

def withBase (base : Base) : Part → Part
  | single _ => single base
  | multipart _ boundary parts => multipart base boundary parts

/-- `add_header` of the object. -/
def addHeader (part : Part) (field value : Bytes) : Part :=
  part.withBase (part.base.addHeader field value)

/-- `attach`; only a multipart has it. -/
def attach (part : Part) : Part → Part
  | single base => single base
  | multipart base boundary parts =>
      multipart base boundary (parts ++ [part.withBase { part.base with topLevel := false }])

/-- `form_data_writer::add_text_part`. -/
def addTextPart (name value : Bytes) (whole : Part) : Part :=
  let part := (Base.create.addHeader (ascii "Content-Disposition")
      (ascii "form-data; name=\"" ++ name ++ ascii "\"")).addHeader (ascii "Content-Type")
    (ascii "text/plain; charset=utf-8")
  (single { part with encodedData := value }).attach whole

/-- `form_data_writer::add_file_part`: `mediaType` is what is known of the path
name, and `content` what has been read from the file. -/
def addFilePart (name pathname : Bytes) (mediaType : Option Bytes) (content : Bytes) (whole : Part) :
    Part :=
  let part := (Base.create.addHeader (ascii "Content-Disposition")
      (ascii "form-data; name=\"" ++ name ++ ascii "\"; filename=\"" ++ pathname ++
        ascii "\"")).addHeader (ascii "Content-Type")
    (mediaType.getD (ascii "application/octet-stream"))
  (single { part with encodedData := content }).attach whole

/-- `str` of the object. -/
def str (date : Bytes) (order : Headers → Headers) : Part → Bytes
  | single base => base.str date order
  | multipart base boundary parts =>
      let data := base.str date order
      let data := if parts.isEmpty then data else data ++ TWO_HYPHEN ++ boundary ++ CRLF
      let data := data ++ strAll boundary parts
      data.dropLast.dropLast ++ TWO_HYPHEN
where
  /-- The loop over the parts. -/
  strAll (boundary : Bytes) : List Part → Bytes
    | [] => []
    | part :: parts =>
        part.str date order ++ CRLF ++ TWO_HYPHEN ++ boundary ++ CRLF ++ strAll boundary parts

end Part

end Angel.Mime
