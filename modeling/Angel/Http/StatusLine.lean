import Angel.Http.Client

/-!
The bounds of the status line. `http_response::parse_line` looks for a blank twice, the
second time from one behind where the first search ended. Where the first blank is missing
that is behind the end of the line, and where the second one is, so is the reason phrase.
-/

namespace Angel.Http

open Util Buffer

/-- The ranges `[first, last)` of offsets that `parse_line` searches, compares, converts or
copies, in this order, up to the first one whose effect is undefined. -/
def statusRanges (buf : Bytes) : List (Nat × Nat) :=
  match findCrlf buf with
  | none => []
  | some crlf =>
      let line := buf.take crlf
      let sp := line.idxOf SP
      let version := line.take sp
      if version ≠ ascii "HTTP/1.1" ∧ version ≠ ascii "HTTP/1.0" then [(0, crlf), (0, sp)]
      else
        let p := sp + 1
        if crlf < p then [(0, crlf), (0, sp), (p, crlf)]
        else
          let code := line.drop p
          let sp' := p + code.idxOf SP
          if (svtoi (code.take (code.idxOf SP))).getD 0 ≤ 0 then
            [(0, crlf), (0, sp), (p, crlf), (p, sp')]
          else [(0, crlf), (0, sp), (p, crlf), (p, sp'), (sp' + 1, crlf)]

/-- `HTTP/1.x SP digits`, and a reason phrase behind a blank if there is one. -/
def StatusLine (line : Bytes) : Prop :=
  ∃ (version : Version) (code rest : Bytes), line = version.text ++ SP :: (code ++ rest) ∧
    code ≠ [] ∧ code.all isdigit = true ∧ (rest = [] ∨ ∃ reason, rest = SP :: reason)

/-- A status line that ends with its code, or with the blank behind it. -/
def WithoutReason (line : Bytes) : Prop :=
  ∃ (version : Version) (code : Bytes), SP ∉ code ∧
    (line = version.text ++ SP :: code ∨ line = version.text ++ SP :: (code ++ [SP]))

/-- A blank that `parse_line` counts on is missing: the line is only a version, or it ends
with the code. -/
def BreaksOff (line : Bytes) : Prop :=
  (∃ version : Version, line = version.text) ∨
    ∃ (version : Version) (code : Bytes), line = version.text ++ SP :: code ∧ SP ∉ code ∧
      0 < (svtoi code).getD 0

/-- What `parse_line` is to do with a complete line at the front of the buffer. -/
structure ReadsInside (res : HttpResponse) (line rest : Bytes) : Prop where
  ranges : ∀ r ∈ statusRanges (line ++ CRLF ++ rest), r.1 ≤ r.2 ∧ r.2 ≤ line.length
  rejects : ¬ StatusLine line → ∃ res', res.parseLine (line ++ CRLF ++ rest) =
    some (res', line ++ CRLF ++ rest, .badRequest)
  noReason : WithoutReason line → ∃ res' left code,
    res.parseLine (line ++ CRLF ++ rest) = some (res', left, code) ∧
      (code = .badRequest ∨ code = .ok ∧ res'.statusMessage = [])

theorem svtoi_positive {code : Bytes} (h : 0 < (svtoi code).getD 0) :
    code ≠ [] ∧ code.all isdigit = true := by
  cases hvalue : svtoi code with
  | none =>
      rw [hvalue] at h
      exact absurd h (Int.lt_irrefl 0)
  | some value =>
      rw [hvalue, Option.getD_some] at h
      unfold svtoi svtointegral at hvalue
      split at hvalue
      rename_i negative digits hmatch
      dsimp only at hvalue
      split at hvalue
      case isTrue => cases hvalue
      case isFalse hdigits =>
        rw [not_or, not_not] at hdigits
        split at hmatch
        · -- a negative number
          obtain ⟨rfl, rfl⟩ := Prod.mk.inj hmatch
          rw [if_pos rfl] at hvalue
          split at hvalue
          · obtain rfl := Option.some.inj hvalue
            omega
          · cases hvalue
        · obtain ⟨rfl, rfl⟩ := Prod.mk.inj hmatch
          exact hdigits

section Forms

variable {line : Bytes}

theorem word_cases (line : Bytes) :
    SP ∉ line ∨ ∃ word rest, line = word ++ SP :: rest ∧ SP ∉ word := by
  by_cases hmem : SP ∈ line
  · exact .inr (List.eq_append_cons_of_mem hmem)
  · exact .inl hmem

theorem known_version (word : Bytes) :
    (word ≠ ascii "HTTP/1.1" ∧ word ≠ ascii "HTTP/1.0") ∨ ∃ version : Version, word = version.text := by
  by_cases h11 : word = ascii "HTTP/1.1"
  · exact .inr ⟨.http11, h11⟩
  by_cases h10 : word = ascii "HTTP/1.0"
  · exact .inr ⟨.http10, h10⟩
  · exact .inl ⟨h11, h10⟩

theorem text_known (version : Version) :
    ¬ (version.text ≠ ascii "HTTP/1.1" ∧ version.text ≠ ascii "HTTP/1.0") := by
  cases version <;> decide

/-- What the first word of a line and the word behind it decide. -/
inductive Form : Bytes → Prop where
  | unknown {line : Bytes} (h : line.take (line.idxOf SP) ≠ ascii "HTTP/1.1" ∧
      line.take (line.idxOf SP) ≠ ascii "HTTP/1.0") : Form line
  | version (version : Version) : Form version.text
  | refused (version : Version) {code : Bytes}
      (hcode : (svtoi (code.take (code.idxOf SP))).getD 0 ≤ 0) : Form (version.text ++ SP :: code)
  | code (version : Version) {code : Bytes} (hfree : SP ∉ code) (hcode : 0 < (svtoi code).getD 0) :
      Form (version.text ++ SP :: code)
  | complete (version : Version) {code : Bytes} (reason : Bytes) (hfree : SP ∉ code)
      (hcode : 0 < (svtoi code).getD 0) : Form (version.text ++ SP :: (code ++ SP :: reason))

theorem take_idxOf_free {word : Bytes} (hfree : SP ∉ word) : word.take (word.idxOf SP) = word := by
  rw [List.idxOf_eq_length hfree, List.take_length]

theorem form (line : Bytes) : Form line := by
  rcases word_cases line with hfree | ⟨word, rest, rfl, hfree⟩
  · rcases known_version line with hunknown | ⟨version, rfl⟩
    · apply Form.unknown
      rw [take_idxOf_free hfree]
      exact hunknown
    · exact .version version
  · rcases known_version word with hunknown | ⟨version, rfl⟩
    · obtain ⟨hsp, htake, -⟩ := word_split hfree rest
      apply Form.unknown
      rw [hsp, htake]
      exact hunknown
    by_cases hcode : (svtoi (rest.take (rest.idxOf SP))).getD 0 ≤ 0
    · exact .refused version hcode
    rcases word_cases rest with hfree' | ⟨code, reason, rfl, hfree'⟩
    · rw [take_idxOf_free hfree', not_le] at hcode
      exact .code version hfree' hcode
    · obtain ⟨hsp, htake, -⟩ := word_split hfree' reason
      rw [hsp, htake, not_le] at hcode
      exact .complete version reason hfree' hcode

theorem word_unique {word word' rest rest' : Bytes} (hfree : SP ∉ word) (hfree' : SP ∉ word')
    (h : word ++ SP :: rest = word' ++ SP :: rest') : word = word' ∧ rest = rest' := by
  obtain ⟨hsp, htake, hdrop, -⟩ := word_split hfree rest
  obtain ⟨hsp', htake', hdrop', -⟩ := word_split hfree' rest'
  have hlen : word.length = word'.length := by rw [← hsp, ← hsp', h]
  refine ⟨?_, ?_⟩
  · rw [← htake, ← htake', h, hlen]
  · rw [← hdrop, ← hdrop', h, hlen]

variable (res : HttpResponse) (rest : Bytes)

theorem parseLine_unknown (hline : ¬ CRLF <:+: line)
    (h : line.take (line.idxOf SP) ≠ ascii "HTTP/1.1" ∧
      line.take (line.idxOf SP) ≠ ascii "HTTP/1.0") :
    res.parseLine (line ++ CRLF ++ rest) = some (res, line ++ CRLF ++ rest, .badRequest) ∧
      statusRanges (line ++ CRLF ++ rest) = [(0, line.length), (0, line.idxOf SP)] := by
  constructor
  · unfold HttpResponse.parseLine
    rw [findCrlf_line hline]
    dsimp only
    rw [take_line, if_pos h]
  · unfold statusRanges
    rw [findCrlf_line hline]
    dsimp only
    rw [take_line, if_pos h]

/-- Where the first blank is missing, the second search begins behind the line. -/
theorem statusRanges_version (version : Version) (hline : ¬ CRLF <:+: version.text) :
    (version.text.length + 1, version.text.length) ∈ statusRanges (version.text ++ CRLF ++ rest) := by
  have hsp : version.text.idxOf SP = version.text.length :=
    List.idxOf_eq_length version.text_no_space
  unfold statusRanges
  rw [findCrlf_line hline]
  dsimp only
  rw [take_line, hsp, List.take_length, if_neg (text_known version), if_pos (Nat.lt_succ_self _)]
  simp

section Code

variable (version : Version) {code : Bytes}

theorem statusRanges_code (hline : ¬ CRLF <:+: version.text ++ SP :: code) :
    statusRanges (version.text ++ SP :: code ++ CRLF ++ rest) =
      let line := version.text ++ SP :: code
      let p := version.text.length + 1
      let sp := p + code.idxOf SP
      if (svtoi (code.take (code.idxOf SP))).getD 0 ≤ 0 then
        [(0, line.length), (0, version.text.length), (p, line.length), (p, sp)]
      else
        [(0, line.length), (0, version.text.length), (p, line.length), (p, sp),
          (sp + 1, line.length)] := by
  obtain ⟨hsp, htake, hdrop, -⟩ := word_split version.text_no_space code
  have hinside : ¬ (version.text ++ SP :: code).length < version.text.length + 1 := by simp
  unfold statusRanges
  rw [findCrlf_line hline]
  dsimp only
  rw [take_line, hsp, htake, if_neg (text_known version), if_neg hinside, hdrop]

private theorem parseLine_refused (hline : ¬ CRLF <:+: version.text ++ SP :: code)
    (hcode : (svtoi (code.take (code.idxOf SP))).getD 0 ≤ 0) :
    ∃ res', res.parseLine (version.text ++ SP :: code ++ CRLF ++ rest) =
      some (res', version.text ++ SP :: code ++ CRLF ++ rest, .badRequest) := by
  obtain ⟨hsp, htake, hdrop, hlen⟩ := word_split version.text_no_space code
  unfold HttpResponse.parseLine
  rw [findCrlf_line hline]
  dsimp only
  rw [take_line, hsp, htake, if_neg (text_known version), if_neg hlen, hdrop, if_pos hcode]
  exact ⟨_, rfl⟩

private theorem parseLine_complete {reason : Bytes}
    (hline : ¬ CRLF <:+: version.text ++ SP :: (code ++ SP :: reason)) (hfree : SP ∉ code)
    (hcode : 0 < (svtoi code).getD 0) :
    ∃ res' left, res.parseLine (version.text ++ SP :: (code ++ SP :: reason) ++ CRLF ++ rest) =
      some (res', left, .ok) ∧ res'.statusMessage = reason := by
  obtain ⟨hsp, htake, hdrop, hlen⟩ := word_split version.text_no_space (code ++ SP :: reason)
  obtain ⟨hsp', htake', hdrop', hlen'⟩ := word_split hfree reason
  unfold HttpResponse.parseLine
  rw [findCrlf_line hline]
  dsimp only
  rw [take_line, hsp, htake, if_neg (text_known version), if_neg hlen, hdrop, hsp', htake',
    if_neg (not_le.mpr hcode), if_neg hlen', hdrop']
  exact ⟨_, _, rfl, rfl⟩

end Code

end Forms

private theorem readsInside_iff (res : HttpResponse) {line : Bytes} (hline : ¬ CRLF <:+: line)
    (rest : Bytes) : ReadsInside res line rest ↔ ¬ BreaksOff line := by
  cases form line with
  | unknown hunknown =>
      obtain ⟨hparse, hranges⟩ := parseLine_unknown res rest hline hunknown
      have hnot : ¬ BreaksOff line := by
        rintro (⟨version, rfl⟩ | ⟨version, code, rfl, -⟩)
        · rw [take_idxOf_free version.text_no_space] at hunknown
          exact text_known version hunknown
        · obtain ⟨hsp, htake, -⟩ := word_split version.text_no_space code
          rw [hsp, htake] at hunknown
          exact text_known version hunknown
      refine ⟨fun _ => hnot, fun _ => ⟨?_, fun _ => ⟨res, hparse⟩, fun _ => ?_⟩⟩
      · have hsp : line.idxOf SP ≤ line.length := List.idxOf_le_length
        rw [hranges]
        simp [hsp]
      · exact ⟨res, _, .badRequest, hparse, .inl rfl⟩
  | version version =>
      refine ⟨fun h => ?_, fun h => absurd (.inl ⟨version, rfl⟩) h⟩
      have hrange := (h.ranges _ (statusRanges_version rest version hline)).1
      dsimp only at hrange
      omega
  | @refused version code hcode =>
      obtain ⟨res', hparse⟩ := parseLine_refused res rest version hline hcode
      have hnot : ¬ BreaksOff (version.text ++ SP :: code) := by
        rintro (⟨version', heq⟩ | ⟨version', code', heq, hfree, hpositive⟩)
        · have hmem : SP ∈ version'.text := by simp [← heq]
          exact version'.text_no_space hmem
        · obtain ⟨-, rfl⟩ := word_unique version.text_no_space version'.text_no_space heq
          rw [take_idxOf_free hfree] at hcode
          omega
      refine ⟨fun _ => hnot, fun _ => ⟨?_, fun _ => ⟨res', hparse⟩, fun _ => ?_⟩⟩
      · have hsp : code.idxOf SP ≤ code.length := List.idxOf_le_length
        rw [statusRanges_code rest version hline, if_pos hcode]
        simp
        omega
      · exact ⟨res', _, .badRequest, hparse, .inl rfl⟩
  | @code version code hfree hcode =>
      refine ⟨fun h => ?_, fun h => absurd (.inr ⟨version, code, rfl, hfree, hcode⟩) h⟩
      have hrange := h.ranges (version.text.length + 1 + code.length + 1,
        (version.text ++ SP :: code).length) (by
          rw [statusRanges_code rest version hline, take_idxOf_free hfree,
            if_neg (not_le.mpr hcode), List.idxOf_eq_length hfree]
          simp)
      simp only [List.length_append, List.length_cons] at hrange
      omega
  | @complete version code reason hfree hcode =>
      obtain ⟨res', left, hparse, hmessage⟩ :=
        parseLine_complete res rest version hline hfree hcode
      obtain ⟨hsp, htake, -⟩ := word_split hfree reason
      obtain ⟨hne, hdigits⟩ := svtoi_positive hcode
      have hnot : ¬ BreaksOff (version.text ++ SP :: (code ++ SP :: reason)) := by
        rintro (⟨version', heq⟩ | ⟨version', code', heq, hfree', -⟩)
        · have hmem : SP ∈ version'.text := by simp [← heq]
          exact version'.text_no_space hmem
        · obtain ⟨-, rfl⟩ := word_unique version.text_no_space version'.text_no_space heq
          exact hfree' (by simp)
      refine ⟨fun _ => hnot, fun _ => ⟨?_, fun hnever => ?_, fun hshort => ?_⟩⟩
      · rw [statusRanges_code rest version hline, hsp, htake, if_neg (not_le.mpr hcode)]
        simp
        omega
      · exact absurd ⟨version, code, SP :: reason, rfl, hne, hdigits, .inr ⟨reason, rfl⟩⟩ hnever
      · refine ⟨res', left, .ok, hparse, .inr ⟨rfl, hmessage.trans ?_⟩⟩
        obtain ⟨version', code', hfree', heq | heq⟩ := hshort
        · obtain ⟨-, rfl⟩ := word_unique version.text_no_space version'.text_no_space heq
          exact absurd (by simp) hfree'
        · obtain ⟨-, heq⟩ := word_unique version.text_no_space version'.text_no_space heq
          exact (word_unique hfree hfree' heq).2

/-- What `parse_line` is to do with a buffer: wait for the end of the line, and then read
inside it. -/
structure StaysInside (res : HttpResponse) (buf : Bytes) : Prop where
  waits : findCrlf buf = none →
    statusRanges buf = [] ∧ res.parseLine buf = some (res, buf, .continue)
  reads : ∀ line rest, buf = line ++ CRLF ++ rest → ¬ CRLF <:+: line → ReadsInside res line rest

/-- Whatever the buffer holds: the status line is read inside the line, or rejected, unless
the line breaks off behind its version or behind a positive code. -/
theorem statusLine_inside_iff (res : HttpResponse) (buf : Bytes) :
    StaysInside res buf ↔
      ∀ line rest, buf = line ++ CRLF ++ rest → ¬ CRLF <:+: line → ¬ BreaksOff line := by
  constructor
  · intro h line rest hbuf hline
    exact (readsInside_iff res hline rest).mp (h.reads line rest hbuf hline)
  · intro h
    refine ⟨?_, ?_⟩
    · intro hnone
      constructor
      · rw [statusRanges, hnone]
      · rw [HttpResponse.parseLine, hnone]
    · intro line rest hbuf hline
      exact (readsInside_iff res hline rest).mpr (h line rest hbuf hline)

/-- A response without a reason phrase: the phrase is copied from behind the line, with the
length -1. -/
theorem reasonless_leaves :
    ¬ StaysInside HttpConnection.create.response (ascii "HTTP/1.1 200\x0d\x0a") ∧
      HttpConnection.create.response.parseLine (ascii "HTTP/1.1 200\x0d\x0a") = none := by
  refine ⟨fun h => ?_, by decide⟩
  have hreads := h.reads (ascii "HTTP/1.1 200") [] (by decide) (by decide)
  have hrange := hreads.ranges (13, 12) (by decide)
  exact absurd hrange.1 (by decide)

end Angel.Http
