import Angel.Http.FramedPaths
import Angel.Lib.Separated

/-!
The body of a response with several ranges, for a reader who takes it apart at the delimiters:
the parts come back, one for each range, when the delimiter has no other place in them.
The length that is announced is the sum in a `size_t`.
-/

namespace Angel.Http

open Util Lib

/-- A part of a multipart body. -/
structure BodyPart where
  contentType : Bytes
  contentRange : Bytes
  content : Bytes

namespace BodyPart

/-- The header lines, the empty line and the content. -/
def text (part : BodyPart) : Bytes :=
  formatHeader (ascii "Content-Type") part.contentType ++
    formatHeader (ascii "Content-Range") part.contentRange ++ CRLF ++ part.content

end BodyPart

/-- A line end and the line that starts with the boundary. -/
def delimiter (boundary : Bytes) : Bytes := CRLF ++ ascii "--" ++ boundary

/-- A multipart body: the first delimiter begins it and needs no line end of its
own, each part is followed by a delimiter, and the last of these is marked. -/
def multipartBody (boundary : Bytes) : List BodyPart → Bytes
  | [] => []
  | first :: rest =>
      ascii "--" ++ boundary ++ CRLF ++ first.text ++
        rest.flatMap (fun part => delimiter boundary ++ CRLF ++ part.text) ++
        delimiter boundary ++ ascii "--" ++ CRLF

/-- The parts in front of the closing delimiter. -/
def readParts (boundary : Bytes) : Nat → Bytes → Option (List Bytes)
  | 0, _ => none
  | fuel + 1, text =>
      match Separated.cut (delimiter boundary) text with
      | none => none
      | some (part, rest) =>
          if CRLF <+: rest then (readParts boundary fuel (rest.drop 2)).map (part :: ·)
          else if ascii "--" <+: rest then some [part]
          else none

/-- A reader of multipart bodies: the parts between the delimiters, up to the one that is
marked as the last. -/
def readMultipart (boundary body : Bytes) : Option (List Bytes) :=
  if ascii "--" ++ boundary ++ CRLF <+: body then
    readParts boundary body.length (body.drop (ascii "--" ++ boundary ++ CRLF).length)
  else none

section Reader

variable {boundary part : Bytes} {fuel : Nat}

theorem clear_of_readParts {rest : Bytes} {parts : List Bytes}
    (h : readParts boundary fuel (part ++ delimiter boundary ++ rest) = some (part :: parts)) :
    Separated.Clear (delimiter boundary) part := by
  cases fuel with
  | zero => cases h
  | succ fuel =>
      rw [readParts] at h
      cases hcut : Separated.cut (delimiter boundary) (part ++ delimiter boundary ++ rest) with
      | none =>
          rw [hcut] at h
          cases h
      | some r =>
          obtain ⟨front, behind⟩ := r
          rw [hcut] at h
          dsimp only at h
          have hfront : front = part := by
            split at h
            · obtain ⟨_, -, heq⟩ := Option.map_eq_some_iff.mp h
              exact (List.cons.inj heq).1
            · split at h
              · exact (List.cons.inj (Option.some.inj h)).1
              · cases h
          exact (Separated.cut_append_iff _ _ _).mp ⟨behind, hfront ▸ hcut⟩

private theorem readParts_next (h : Separated.Clear (delimiter boundary) part) (rest : Bytes) :
    readParts boundary (fuel + 1) (part ++ delimiter boundary ++ (CRLF ++ rest)) =
      (readParts boundary fuel rest).map (part :: ·) := by
  rw [readParts, Separated.cut_append h]
  dsimp only
  rw [if_pos (List.prefix_append CRLF rest)]
  rfl

private theorem readParts_last (h : Separated.Clear (delimiter boundary) part) (rest : Bytes) :
    readParts boundary (fuel + 1) (part ++ delimiter boundary ++ (ascii "--" ++ rest)) =
      some [part] := by
  have hmark : ¬ CRLF <+: ascii "--" ++ rest := by
    intro hin
    exact absurd (List.cons_prefix_cons.mp hin).1 (by decide)
  rw [readParts, Separated.cut_append h]
  dsimp only
  rw [if_neg hmark, if_pos (List.prefix_append (ascii "--") rest)]

private theorem readParts_iff (rest : List BodyPart) (first : BodyPart)
    (hfuel : rest.length < fuel) :
    readParts boundary fuel (first.text ++
        rest.flatMap (fun part => delimiter boundary ++ CRLF ++ part.text) ++
        delimiter boundary ++ ascii "--" ++ CRLF) = some ((first :: rest).map BodyPart.text) ↔
      ∀ part ∈ first :: rest, Separated.Clear (delimiter boundary) part.text := by
  obtain ⟨fuel, rfl⟩ : ∃ n, fuel = n + 1 := ⟨fuel - 1, by omega⟩
  induction rest generalizing first fuel with
  | nil =>
      have hshape : first.text ++ ([] : List BodyPart).flatMap
          (fun part => delimiter boundary ++ CRLF ++ part.text) ++ delimiter boundary ++
            ascii "--" ++ CRLF = first.text ++ delimiter boundary ++ (ascii "--" ++ CRLF) := by
        simp
      rw [hshape, List.forall_mem_singleton]
      exact ⟨clear_of_readParts, fun h => readParts_last h CRLF⟩
  | cons next rest ih =>
      have hshape : first.text ++ (next :: rest).flatMap
          (fun part => delimiter boundary ++ CRLF ++ part.text) ++ delimiter boundary ++
            ascii "--" ++ CRLF = first.text ++ delimiter boundary ++ (CRLF ++ (next.text ++
              rest.flatMap (fun part => delimiter boundary ++ CRLF ++ part.text) ++
              delimiter boundary ++ ascii "--" ++ CRLF)) := by
        simp
      rw [List.length_cons] at hfuel
      obtain ⟨more, rfl⟩ : ∃ n, fuel = n + 1 := ⟨fuel - 1, by omega⟩
      have hrest := ih next more (by omega)
      rw [hshape, List.forall_mem_cons, ← hrest]
      constructor
      · intro hread
        have hclear := clear_of_readParts hread
        rw [readParts_next hclear] at hread
        obtain ⟨parts, hparts, heq⟩ := Option.map_eq_some_iff.mp hread
        exact ⟨hclear, hparts.trans (congrArg some (List.cons.inj heq).2)⟩
      · rintro ⟨hclear, hread⟩
        rw [readParts_next hclear, hread]
        rfl

/-- A reader gets the parts of a body exactly when the delimiter is in none of them. -/
theorem readMultipart_iff (first : BodyPart) (rest : List BodyPart) :
    readMultipart boundary (multipartBody boundary (first :: rest)) =
        some ((first :: rest).map BodyPart.text) ↔
      ∀ part ∈ first :: rest, Separated.Clear (delimiter boundary) part.text := by
  have hshape : multipartBody boundary (first :: rest) = ascii "--" ++ boundary ++ CRLF ++
      (first.text ++ rest.flatMap (fun part => delimiter boundary ++ CRLF ++ part.text) ++
        delimiter boundary ++ ascii "--" ++ CRLF) := by
    simp [multipartBody]
  have hfuel : rest.length < (multipartBody boundary (first :: rest)).length := by
    have hflat : rest.length ≤
        (rest.flatMap fun part => delimiter boundary ++ CRLF ++ part.text).length := by
      have hsum := List.length_le_sum_of_one_le
        (rest.map fun part => (delimiter boundary ++ CRLF ++ part.text).length) ?_
      · rwa [List.length_map, ← List.length_flatMap] at hsum
      · intro n hn
        obtain ⟨part, -, rfl⟩ := List.mem_map.mp hn
        simp only [delimiter, CRLF, List.length_append, List.length_cons]
        omega
    have hdashes : (ascii "--").length = 2 := rfl
    rw [hshape]
    simp only [List.length_append, hdashes] at hflat ⊢
    omega
  rw [readMultipart, ← readParts_iff rest first hfuel, hshape, if_pos (List.prefix_append _ _),
    List.drop_left]

end Reader

section

variable (files : Nat → Bytes) (mimeType : Bytes) (filesize : Nat) (boundary : Bytes) (fd : Int)

/-- The part for a range of an open file. -/
def rangePart (range : ByteRange) : BodyPart where
  contentType := mimeType
  contentRange := contentRange range.toStr filesize
  content := fileBytes files fd range.firstBytePos range.length

/-- What goes out behind the content of a part: the line end that the pass has
left for the next buffer completes the delimiter. -/
theorem sendParts_wire (ranges : List ByteRange) :
    (sendParts mimeType filesize boundary fd CRLF ranges).flatMap (Call.wire files) =
      (ranges.map (rangePart files mimeType filesize fd)).flatMap
          (fun part => delimiter boundary ++ CRLF ++ part.text) ++
        delimiter boundary ++ ascii "--" ++ CRLF := by
  induction ranges with
  | nil => simp [sendParts, Call.wire, delimiter]
  | cons range ranges ih =>
      rw [sendParts, List.flatMap_cons, List.flatMap_cons, ih]
      simp [Call.wire, delimiter, rangePart, BodyPart.text]

theorem sendParts_body (range : ByteRange) (ranges : List ByteRange) :
    (sendParts mimeType filesize boundary fd [] (range :: ranges)).flatMap (Call.wire files) =
      multipartBody boundary ((range :: ranges).map (rangePart files mimeType filesize fd)) := by
  rw [sendParts, List.flatMap_cons, List.flatMap_cons, sendParts_wire]
  simp [Call.wire, rangePart, BodyPart.text, multipartBody]

/-- The calls of a response with several ranges: the header block, and the body
behind it. -/
theorem sendRangeResponse_several {ranges : List ByteRange} (htwo : 2 ≤ ranges.length) :
    sendRangeResponse mimeType filesize boundary fd ranges =
      .setStatusCode .partialContent :: buildMultipartHeader mimeType filesize boundary ranges ++
        .send [] :: sendParts mimeType filesize boundary fd [] ranges := by
  rcases ranges with _ | ⟨a, _ | ⟨b, ranges⟩⟩
  · exact absurd htwo (by simp)
  · exact absurd htwo (by simp)
  · rfl

/-- The bytes of the body that the response hands to the connection. -/
def rangeBody (ranges : List ByteRange) : Bytes :=
  (sendRangeResponse mimeType filesize boundary fd ranges).flatMap (Call.wire files)

theorem rangeBody_several {ranges : List ByteRange} (htwo : 2 ≤ ranges.length) :
    rangeBody files mimeType filesize boundary fd ranges =
      (sendParts mimeType filesize boundary fd [] ranges).flatMap (Call.wire files) := by
  rw [rangeBody, sendRangeResponse_several _ _ _ _ htwo]
  rfl

theorem rangeBody_length (ranges : List ByteRange) (htwo : 2 ≤ ranges.length)
    (hopen : (fileContent files fd).length = filesize)
    (hin : ∀ range ∈ ranges, range.firstBytePos ≤ range.lastBytePos ∧ range.lastBytePos < filesize) :
    (rangeBody files mimeType filesize boundary fd ranges).length =
      (ranges.map (partLength mimeType filesize boundary)).sum + (2 + boundary.length + 2 + 2) := by
  have hlength := sendParts_length files mimeType filesize boundary fd [] ranges
  have hmissing : ranges.map (ByteRange.missing (fileContent files fd).length) =
      ranges.map fun _ => 0 := by
    apply List.map_congr_left
    intro range hrange
    obtain ⟨hordered, hinside⟩ := hin range hrange
    rw [hopen, ByteRange.missing, ByteRange.length]
    omega
  rw [hmissing] at hlength
  rw [rangeBody_several _ _ _ _ _ htwo]
  simpa using hlength

/-- A response with several ranges of a file: its bytes are a part for each range, with its
`Content-Range` and its content; a reader gets these parts exactly when the delimiter is in none
of them; the announced length is the number of the bytes as long as a `size_t` can hold it. -/
theorem range_response_exact (ranges : List ByteRange) (htwo : 2 ≤ ranges.length)
    (hopen : (fileContent files fd).length = filesize)
    (hin : ∀ range ∈ ranges, range.firstBytePos ≤ range.lastBytePos ∧ range.lastBytePos < filesize) :
    rangeBody files mimeType filesize boundary fd ranges =
        multipartBody boundary (ranges.map (rangePart files mimeType filesize fd)) ∧
      (readMultipart boundary (rangeBody files mimeType filesize boundary fd ranges) =
          some (ranges.map fun range => (rangePart files mimeType filesize fd range).text) ↔
        ∀ range ∈ ranges, Separated.Clear (delimiter boundary)
          (rangePart files mimeType filesize fd range).text) ∧
      (∀ range ∈ ranges,
        (rangePart files mimeType filesize fd range).contentRange =
          contentRange range.toStr filesize ∧
        (rangePart files mimeType filesize fd range).content =
          ((fileContent files fd).drop range.firstBytePos).take range.length ∧
        (rangePart files mimeType filesize fd range).content.length = range.length) ∧
      (multipartLen mimeType filesize boundary ranges =
          (rangeBody files mimeType filesize boundary fd ranges).length ↔
        (rangeBody files mimeType filesize boundary fd ranges).length < 2 ^ 64) := by
  have hbody : rangeBody files mimeType filesize boundary fd ranges =
      multipartBody boundary (ranges.map (rangePart files mimeType filesize fd)) := by
    rw [rangeBody_several _ _ _ _ _ htwo]
    rcases ranges with _ | ⟨range, ranges⟩
    · exact absurd htwo (by simp)
    · exact sendParts_body files mimeType filesize boundary fd range ranges
  refine ⟨hbody, ?_, ?_, ?_⟩
  · rw [hbody]
    rcases ranges with _ | ⟨range, ranges⟩
    · exact absurd htwo (by simp)
    · have hread : readMultipart boundary (multipartBody boundary
            (rangePart files mimeType filesize fd range ::
              ranges.map (rangePart files mimeType filesize fd))) = _ ↔ _ :=
        readMultipart_iff (rangePart files mimeType filesize fd range)
          (ranges.map (rangePart files mimeType filesize fd))
      rw [← List.map_cons, List.map_map, List.forall_mem_map] at hread
      exact hread
  · intro range hrange
    obtain ⟨hordered, hinside⟩ := hin range hrange
    refine ⟨rfl, rfl, (fileBytes_length_iff files fd _ range.length_pos).mpr ?_⟩
    rw [hopen, ByteRange.length]
    omega
  · rw [rangeBody_length _ _ _ _ _ _ htwo hopen hin, multipartLen_eq]
    constructor
    · intro heq
      rw [← heq]
      exact Nat.mod_lt _ (by decide)
    · exact Nat.mod_eq_of_lt

end

/-- Two ranges of a file of ten bytes. -/
theorem range_response_two :
    rangeBody (fun _ => ascii "0123456789") (ascii "text/plain") 10 (ascii "x") 3
        [⟨0, 3⟩, ⟨8, 9⟩] =
      multipartBody (ascii "x") [⟨ascii "text/plain", ascii "bytes 0-3/10", ascii "0123"⟩,
        ⟨ascii "text/plain", ascii "bytes 8-9/10", ascii "89"⟩] :=
  (range_response_exact (fun _ => ascii "0123456789") (ascii "text/plain") 10 (ascii "x") 3
    [⟨0, 3⟩, ⟨8, 9⟩] (by decide) (by decide) (by decide)).1.trans (by decide)

/-- A file with a line that is the last delimiter: the reader of two ranges gets one part. And
twice the whole of the largest file: the sum does not fit a `size_t`. -/
theorem range_response_breaks :
    (readMultipart (ascii "x") (rangeBody (fun _ => ascii "ab\r\n--x--\r\ncd") (ascii "text/plain")
        13 (ascii "x") 3 [⟨0, 12⟩, ⟨0, 1⟩])).map List.length = some 1 ∧
      multipartLen (ascii "text/plain") (2 ^ 63 - 1) (ascii "x")
          [⟨0, 2 ^ 63 - 2⟩, ⟨0, 2 ^ 63 - 2⟩] ≠
        (rangeBody (fun _ => List.replicate (2 ^ 63 - 1) 0) (ascii "text/plain") (2 ^ 63 - 1)
          (ascii "x") 3 [⟨0, 2 ^ 63 - 2⟩, ⟨0, 2 ^ 63 - 2⟩]).length := by
  constructor
  · decide +kernel
  have hopen : (fileContent (fun _ => List.replicate (2 ^ 63 - 1) 0) 3).length = 2 ^ 63 - 1 :=
    List.length_replicate
  have hlength := rangeBody_length (fun _ => List.replicate (2 ^ 63 - 1) 0) (ascii "text/plain")
    (2 ^ 63 - 1) (ascii "x") 3 [⟨0, 2 ^ 63 - 2⟩, ⟨0, 2 ^ 63 - 2⟩] (by decide) hopen (by decide)
  rw [hlength, multipartLen_eq]
  decide

end Angel.Http
