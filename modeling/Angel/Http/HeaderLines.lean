import Angel.Buffer.Lines
import Angel.Http.Message

/-!
The header block line by line. `parse_header` looks for the colon of a line in the whole
buffer, so what it makes of a line without one depends on what has arrived behind it. The
lines read by themselves are what it is compared with.
-/

namespace Angel.Http

open Util Buffer Lib Lib.Lines

/-- A header line by itself: its first colon parts the name from the value, and without one
it is no header line. -/
def readField (headers : Headers) (line : Bytes) : Option Headers :=
  if COLON ∈ line then
    let pos := line.idxOf COLON
    let value := trim (line.drop (pos + 1))
    some (if value = [] then headers else headers.emplace (line.take pos) value)
  else none

/-- The lines of a buffer up to the empty line, of which the last one is not complete: the
headers, the lines that are left and the return code. -/
def readBlock (headers : Headers) : List Bytes → Headers × List Bytes × StatusCode
  | line :: next :: rest =>
      if line = [] then (headers, next :: rest, .ok)
      else
        match readField headers line with
        | none => (headers, line :: next :: rest, .badRequest)
        | some headers => readBlock headers (next :: rest)
  | rest => (headers, rest, .continue)

/-- The headers of a buffer, what is left of it, and the return code. -/
def readHeaders (headers : Headers) (buf : Bytes) : Headers × Bytes × StatusCode :=
  let (headers, rest, code) := readBlock headers (lines CR LF buf)
  (headers, CRLF.intercalate rest, code)

/-- The first line of the block without a colon is complete and has one somewhere behind
it. -/
def Borrows : List Bytes → Prop
  | line :: rest =>
      line ≠ [] ∧ if COLON ∈ line then Borrows rest else ∃ later ∈ rest, COLON ∈ later
  | [] => False

theorem find_colon {line : Bytes} (hmem : COLON ∈ line) (rest : Bytes) :
    find [COLON] (line ++ CRLF ++ rest) = some (line.idxOf COLON) ∧
      line.idxOf COLON < line.length := by
  refine ⟨?_, List.idxOf_lt_length_iff.mpr hmem⟩
  have hbuf : COLON ∈ line ++ CRLF ++ rest := by simp [hmem]
  rw [find_byte, if_pos hbuf, List.append_assoc, List.idxOf_append_of_mem hmem]

theorem find_colon_behind {line rest : Bytes} (hmem : COLON ∉ line) (hrest : COLON ∈ rest) :
    ∃ pos, find [COLON] (line ++ CRLF ++ rest) = some pos ∧ line.length < pos := by
  have hcrlf : COLON ∉ line ++ CRLF := by
    rw [List.mem_append, not_or]
    exact ⟨hmem, by decide⟩
  have hbuf : COLON ∈ line ++ CRLF ++ rest := List.mem_append_right _ hrest
  refine ⟨_, by rw [find_byte, if_pos hbuf], ?_⟩
  rw [List.idxOf_append_of_notMem hcrlf, List.length_append]
  exact Nat.lt_of_lt_of_le (Nat.lt_add_of_pos_right Nat.zero_lt_two) (Nat.le_add_right _ _)

theorem find_colon_nowhere {line rest : Bytes} (hmem : COLON ∉ line) (hrest : COLON ∉ rest) :
    find [COLON] (line ++ CRLF ++ rest) = none := by
  apply find_eq_none
  rw [List.mem_append, List.mem_append, not_or, not_or]
  exact ⟨⟨hmem, by decide⟩, hrest⟩

theorem value_view {line : Bytes} (rest : Bytes) {pos : Nat} (hpos : pos < line.length) :
    ((line ++ CRLF ++ rest).drop (pos + 1)).take (line.length - pos - 1) = line.drop (pos + 1) := by
  rw [List.append_assoc, List.drop_append_of_le_length hpos]
  apply List.take_left'
  rw [List.length_drop]
  omega

/-- What `parse_header` comes to when every line is read by itself. -/
def Message.readByLines (m : Message) (buf : Bytes) : Message × Bytes × StatusCode :=
  let (headers, rest, code) := readHeaders m.headers buf
  ({ m with headers := headers }, rest, code)

section Pass

variable {line : Bytes} (m : Message) (rest : Bytes)

theorem lines_first (hfree : ¬ CRLF <:+: line) :
    lines CR LF (line ++ CRLF ++ rest) = line :: lines CR LF rest := by
  have hsome := lines_some (findCrlf_line hfree rest)
  rwa [take_line, drop_line] at hsome

section Block

variable (headers : Headers) {line : Bytes} {ls : List Bytes} (hls : ls ≠ [])

include hls

theorem readBlock_end : readBlock headers ([] :: ls) = (headers, ls, .ok) := by
  obtain ⟨next, ls, rfl⟩ := List.exists_cons_of_ne_nil hls
  rfl

theorem readBlock_refused (hline : line ≠ []) (h : readField headers line = none) :
    readBlock headers (line :: ls) = (headers, line :: ls, .badRequest) := by
  obtain ⟨next, ls, rfl⟩ := List.exists_cons_of_ne_nil hls
  rw [readBlock, if_neg hline, h]

private theorem readBlock_field {headers' : Headers} (hline : line ≠ [])
    (h : readField headers line = some headers') :
    readBlock headers (line :: ls) = readBlock headers' ls := by
  obtain ⟨next, ls, rfl⟩ := List.exists_cons_of_ne_nil hls
  rw [readBlock, if_neg hline, h]

end Block

theorem headerPass_colon (hfree : ¬ CRLF <:+: line) (hline : line ≠ []) (hmem : COLON ∈ line) :
    ∃ headers, readField m.headers line = some headers ∧
      headerPass (m, line ++ CRLF ++ rest) = .again ({ m with headers := headers }, rest) ∧
      m.readByLines (line ++ CRLF ++ rest) = ({ m with headers := headers } : Message).readByLines rest := by
  obtain ⟨hfind, hpos⟩ := find_colon hmem rest
  have hlength : line.length ≠ 0 := fun hzero => hline (List.length_eq_zero_iff.mp hzero)
  have hname : (line ++ CRLF ++ rest).take (line.idxOf COLON) = line.take (line.idxOf COLON) := by
    rw [List.append_assoc, List.take_append_of_le_length (Nat.le_of_lt hpos)]
  have hfield : readField m.headers line = some (if trim (line.drop (line.idxOf COLON + 1)) = [] then
      m.headers else m.headers.emplace (line.take (line.idxOf COLON))
        (trim (line.drop (line.idxOf COLON + 1)))) := by
    rw [readField, if_pos hmem]
  refine ⟨_, hfield, ?_, ?_⟩
  · simp only [headerPass, findCrlf_line hfree, if_neg hlength, hfind,
      if_neg (Nat.not_lt.mpr (Nat.le_of_lt hpos)), value_view rest hpos, hname, drop_line]
  · simp only [Message.readByLines, readHeaders, lines_first rest hfree,
      readBlock_field m.headers (lines_ne_nil rest) hline hfield]

theorem headerPass_waits {buf : Bytes} (h : findCrlf buf = none) :
    headerPass (m, buf) = .done (some (m, buf, .continue)) ∧
      m.readByLines buf = (m, buf, .continue) := by
  constructor
  · simp only [headerPass, h]
  · simp [Message.readByLines, readHeaders, lines_none h, readBlock, List.intercalate]

private theorem headerPass_end :
    headerPass (m, [] ++ CRLF ++ rest) = .done (some (m, rest, .ok)) ∧
      m.readByLines ([] ++ CRLF ++ rest) = (m, rest, .ok) := by
  have hfree : ¬ CRLF <:+: [] := by decide
  have hmark : CRLF = [CR, LF] := rfl
  constructor
  · simp only [headerPass, findCrlf_line hfree, List.length_nil, if_true]
    rfl
  · simp only [Message.readByLines, readHeaders, lines_first rest hfree,
      readBlock_end m.headers (lines_ne_nil rest)]
    rw [hmark, intercalate_lines]

/-- A line without a colon is refused by itself; in the buffer it is when no colon has
arrived behind it, and one that has is taken for its own. -/
theorem headerPass_bare (hfree : ¬ CRLF <:+: line) (hline : line ≠ []) (hmem : COLON ∉ line) :
    m.readByLines (line ++ CRLF ++ rest) = (m, line ++ CRLF ++ rest, .badRequest) ∧
      (COLON ∉ rest → headerPass (m, line ++ CRLF ++ rest) =
        .done (some (m, line ++ CRLF ++ rest, .badRequest))) ∧
      (COLON ∈ rest → headerPass (m, line ++ CRLF ++ rest) = .done none) := by
  have hlength : line.length ≠ 0 := fun hzero => hline (List.length_eq_zero_iff.mp hzero)
  have hnone : readField m.headers line = none := by rw [readField, if_neg hmem]
  have hmark : CRLF = [CR, LF] := rfl
  refine ⟨?_, fun hrest => ?_, fun hrest => ?_⟩
  · simp only [Message.readByLines, readHeaders, lines_first rest hfree,
      readBlock_refused m.headers (lines_ne_nil rest) hline hnone]
    rw [← lines_first rest hfree, hmark, intercalate_lines]
  · simp only [headerPass, findCrlf_line hfree, if_neg hlength, find_colon_nowhere hmem hrest]
  · obtain ⟨pos, hfind, hbehind⟩ := find_colon_behind hmem hrest
    simp only [headerPass, findCrlf_line hfree, if_neg hlength, hfind, if_pos hbehind]

end Pass

/-- The parser reads the lines by themselves as long as no line borrows a colon, and else is
undefined. -/
theorem parseHeader_lines (m : Message) (buf : Bytes) :
    (¬ Borrows (lines CR LF buf) → m.parseHeader buf = some (m.readByLines buf)) ∧
      (Borrows (lines CR LF buf) → m.parseHeader buf = none) := by
  unfold Message.parseHeader
  generalize hfuel : buf.length + 1 = fuel
  have hlt : buf.length < fuel := by omega
  clear hfuel
  induction fuel generalizing m buf with
  | zero => exact absurd hlt (Nat.not_lt_zero _)
  | succ fuel ih =>
      cases hcrlf : findCrlf buf with
      | none =>
          obtain ⟨hpass, hread⟩ := headerPass_waits m hcrlf
          have hno : ¬ Borrows [buf] := by simp [Borrows]
          rw [loop_done hpass, hread, lines_none hcrlf]
          exact ⟨fun _ => rfl, fun hborrows => absurd hborrows hno⟩
      | some crlf =>
          obtain ⟨line, rest, rfl, rfl, hfree⟩ := findCrlf_some hcrlf
          rw [lines_first rest hfree]
          by_cases hline : line = []
          · subst hline
            obtain ⟨hpass, hread⟩ := headerPass_end m rest
            have hno : ¬ Borrows ([] :: lines CR LF rest) := fun h => h.1 rfl
            rw [loop_done hpass, hread]
            exact ⟨fun _ => rfl, fun hborrows => absurd hborrows hno⟩
          by_cases hmem : COLON ∈ line
          · obtain ⟨headers, -, hpass, hread⟩ := headerPass_colon m rest hfree hline hmem
            rw [loop_again hpass, hread]
            simp only [Borrows, hline, hmem, if_true, ne_eq, not_false_eq_true, true_and]
            apply ih
            simp only [List.length_append, CRLF, List.length_cons, List.length_nil] at hlt
            omega
          · obtain ⟨hread, hrefused, hborrowed⟩ := headerPass_bare m rest hfree hline hmem
            simp only [Borrows, hline, hmem, if_false, ne_eq, not_false_eq_true, true_and]
            rw [mem_lines (by decide) (by decide), hread]
            constructor
            · intro hrest
              rw [loop_done (hrefused hrest)]
              rfl
            · intro hrest
              rw [loop_done (hborrowed hrest)]
              rfl

end Angel.Http
