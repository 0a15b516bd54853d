import Angel.Http.Response

/-!
The pure part of static files: entity tags, `Last-Modified`, byte ranges and
the calls that send a file or parts of it.
-/

namespace Angel.Http

open Util

def QUOTE : UInt8 := 34

def MINUS : UInt8 := 45

def COMMA : UInt8 := 44

def isStrongEtag (etag : Bytes) : Bool :=
  2 ≤ etag.length && etag.head? = some QUOTE && etag.getLast? = some QUOTE

def isWeakEtag (etag : Bytes) : Bool :=
  (ascii "W/").isPrefixOf etag && isStrongEtag (etag.drop 2)

def isEtag (etag : Bytes) : Bool := isStrongEtag etag || isWeakEtag etag

def strongEtagEqual (etag1 etag2 : Bytes) : Bool :=
  isStrongEtag etag1 && isStrongEtag etag2 && etag1 = etag2

/-- An entity tag without the mark of weakness. -/
def opaqueTag (etag : Bytes) : Bytes := if (ascii "W/").isPrefixOf etag then etag.drop 2 else etag

def weakEtagEqual (etag1 etag2 : Bytes) : Bool :=
  isEtag etag1 && isEtag etag2 && opaqueTag etag1 = opaqueTag etag2

/-- Lower-case hexadecimal digits, as `std::hex` writes an `int64_t`. -/
def hexadecimal (n : Int) : Bytes :=
  (Nat.toDigits 16 (n % 2 ^ 64).toNat).map fun c => c.toNat.toUInt8

/-- `generate_file_etag` from the modification time in microseconds. -/
def generateFileEtag (lastModifiedTime : Int) (filesize : Nat) : Bytes :=
  [QUOTE] ++ hexadecimal lastModifiedTime ++ [MINUS] ++ decimal filesize ++ [QUOTE]

/-- `generate_file_etag` from the digest of the file. -/
def generateFileEtagBySha1 (hexDigest : Bytes) (filesize : Nat) : Bytes :=
  [QUOTE] ++ hexDigest ++ [MINUS] ++ decimal filesize ++ [QUOTE]

/-- A byte range of a file, both ends included. -/
structure ByteRange where
  firstBytePos : Nat
  lastBytePos : Nat
  deriving DecidableEq, Repr

def ByteRange.toStr (range : ByteRange) : Bytes :=
  decimal range.firstBytePos ++ [MINUS] ++ decimal range.lastBytePos

def ByteRange.length (range : ByteRange) : Nat := range.lastBytePos - range.firstBytePos + 1

def contentRange (resp : Bytes) (filesize : Nat) : Bytes :=
  ascii "bytes" ++ [SP] ++ resp ++ ascii "/" ++ decimal filesize

def bytePos (s : Bytes) : Int := (svtoll s).getD (-1)

section Ranges

variable (filesize : Nat)

def parseByteRangeSpec (spec : Bytes) : Option ByteRange :=
  match split spec MINUS with
  | [first, last] =>
      let firstPos := bytePos (trim first)
      if firstPos < 0 ∨ (filesize : Int) ≤ firstPos then none
      else if last = [] then some ⟨firstPos.toNat, filesize - 1⟩
      else
        let lastPos := bytePos (trim last)
        if lastPos < 0 ∨ lastPos < firstPos then none
        else if (filesize : Int) ≤ lastPos then some ⟨firstPos.toNat, filesize - 1⟩
        else some ⟨firstPos.toNat, lastPos.toNat⟩
  | _ => none

def parseSuffixByteRangeSpec (spec : Bytes) : Option ByteRange :=
  let suffixLength := bytePos spec
  if suffixLength ≤ 0 then none
  else some ⟨filesize - min suffixLength.toNat filesize, filesize - 1⟩

/-- One pass of the loop of `parse_byte_ranges`. -/
def parseRange (spec : Bytes) : Option ByteRange :=
  match trim spec with
  | 45 :: b :: suffix =>
      if isdigit b then parseSuffixByteRangeSpec filesize (b :: suffix) else none
  | a :: b :: rest => parseByteRangeSpec filesize (a :: b :: rest)
  | _ => none

/-- `parse_byte_ranges` of the value of the `Range` header: `Ok` where the
range is ignored. -/
def parseByteRanges (range : Bytes) : StatusCode × List ByteRange :=
  if !(ascii "bytes=").isPrefixOf range then (.ok, [])
  else if range.drop 6 = [] then (.ok, [])
  else
    match (split (range.drop 6) COMMA).mapM (parseRange filesize) with
    | none => (.requestedRangeNotSatisfiable, [])
    | some ranges => (.partialContent, ranges)

theorem parseByteRanges_cases (range : Bytes) :
    parseByteRanges filesize range = (.ok, []) ∨
      parseByteRanges filesize range = (.requestedRangeNotSatisfiable, []) ∨
      ∃ ranges, parseByteRanges filesize range = (.partialContent, ranges) := by
  unfold parseByteRanges
  split
  · exact Or.inl rfl
  · split
    · exact Or.inl rfl
    · cases (split (range.drop 6) COMMA).mapM (parseRange filesize) with
      | none => exact Or.inr (Or.inl rfl)
      | some ranges => exact Or.inr (Or.inr ⟨ranges, rfl⟩)

end Ranges

section Multipart

variable (mimeType : Bytes) (filesize : Nat) (boundary : Bytes)

/-- The length `build_multipart_header` adds up for one part. -/
def partLength (range : ByteRange) : Nat :=
  2 + boundary.length + 2 +
    ((ascii "Content-Type").length + 2 + mimeType.length + 2) +
    ((ascii "Content-Range").length + 2 + (contentRange range.toStr filesize).length + 2) +
    2 + (range.length + 2)

/-- `len` of `build_multipart_header`, added up in a `size_t`. -/
def multipartLen (ranges : List ByteRange) : Nat :=
  (ranges.foldl (fun len range => (len + partLength mimeType filesize boundary range) % 2 ^ 64) 0 +
    (2 + boundary.length + 2 + 2)) % 2 ^ 64

def buildMultipartHeader (ranges : List ByteRange) : List Call :=
  [.addHeader (ascii "Content-Type")
      (ascii "multipart/byteranges" ++ ascii "; " ++ ascii "boundary=\"" ++ boundary ++
        ascii "\""),
    .addHeader (ascii "Content-Length")
      (decimal (multipartLen mimeType filesize boundary ranges))]

/-- The loop of `send_range_response` and what follows it; `buf` is what the
last pass has left for the next one to send. -/
def sendParts (fd : Int) (buf : Bytes) : List ByteRange → List Call
  | [] =>
      [.connSend (buf ++ ascii "--" ++ boundary ++ ascii "--" ++ CRLF),
        .connSetSendCompleteHandler fd]
  | range :: ranges =>
      .connSend (buf ++ ascii "--" ++ boundary ++ CRLF ++
          formatHeader (ascii "Content-Type") mimeType ++
          formatHeader (ascii "Content-Range") (contentRange range.toStr filesize) ++ CRLF) ::
        .connSendFile fd range.firstBytePos range.length :: sendParts fd CRLF ranges

/-- `send_range_response` with the file open. -/
def sendRangeResponse (fd : Int) : List ByteRange → List Call
  | [range] =>
      [.setStatusCode .partialContent,
        .addHeader (ascii "Content-Type") mimeType,
        .addHeader (ascii "Content-Range") (contentRange range.toStr filesize),
        .addHeader (ascii "Content-Length") (decimal range.length),
        .send [],
        .connSendFile fd range.firstBytePos range.length,
        .connSetSendCompleteHandler fd]
  | ranges =>
      .setStatusCode .partialContent :: buildMultipartHeader mimeType filesize boundary ranges ++
        .send [] :: sendParts mimeType filesize boundary fd [] ranges

end Multipart

end Angel.Http
