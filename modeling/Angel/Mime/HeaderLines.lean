import Angel.Http.HeaderLines
import Angel.Mime.Content

/-!
The header block of a part line by line. Both header parsers search the whole buffer for the
colon of a line, and both of them read the lines by themselves under the same condition.
-/

namespace Angel.Mime

open Angel.Lib Lib.Lines Util Buffer Http

/-- What `codec::parse_header` comes to when every line is read by itself. -/
def readByLines (headers : Headers) (buf : Bytes) : ParseCode × Headers × Bytes :=
  let (headers, rest, code) := readHeaders headers buf
  (codeOf code, headers, rest)

private theorem parseHeader_lines (headers : Headers) (buf : Bytes) :
    (¬ Borrows (lines CR LF buf) → parseHeader headers buf = .ok (readByLines headers buf)) ∧
      (Borrows (lines CR LF buf) → ∃ fault, parseHeader headers buf = .error fault) := by
  obtain ⟨hread, hundefined⟩ := Http.parseHeader_lines ⟨headers, [], 0, false, -1⟩ buf
  exact ⟨fun hno => parseHeader_same (hread hno),
    fun hborrows => parseHeader_fault (hundefined hborrows)⟩

/-- For every buffer: each complete line of the block is read by itself, with its own colon or
not at all, exactly when the first line without a colon has none behind it. This holds of the
header parser of HTTP and of that of MIME. -/
theorem header_lines_iff (m : Message) (headers : Headers) (buf : Bytes) :
    (m.parseHeader buf = some (m.readByLines buf) ↔ ¬ Borrows (lines CR LF buf)) ∧
      (parseHeader headers buf = .ok (readByLines headers buf) ↔ ¬ Borrows (lines CR LF buf)) := by
  obtain ⟨hread, hundefined⟩ := Http.parseHeader_lines m buf
  obtain ⟨hread', hundefined'⟩ := parseHeader_lines headers buf
  refine ⟨⟨?_, hread⟩, ⟨?_, hread'⟩⟩
  · intro heq hborrows
    rw [hundefined hborrows] at heq
    cases heq
  · intro heq hborrows
    obtain ⟨fault, hfault⟩ := hundefined' hborrows
    rw [hfault] at heq
    cases heq

/-- A line without a colon in front of one that has it: by itself the line is refused, and in
the buffer the value ends in front of its start. -/
theorem colon_borrowed :
    (readByLines [] (ascii "a\x0d\x0ab:c\x0d\x0a")).1 = .error ∧
      parseHeader [] (ascii "a\x0d\x0ab:c\x0d\x0a") = .error .outOfBounds ∧
      ((⟨[], [], 0, false, -1⟩ : Message).readByLines (ascii "a\x0d\x0ab:c\x0d\x0a")).2.2 =
        .badRequest ∧
      (⟨[], [], 0, false, -1⟩ : Message).parseHeader (ascii "a\x0d\x0ab:c\x0d\x0a") = none := by
  decide

end Angel.Mime
