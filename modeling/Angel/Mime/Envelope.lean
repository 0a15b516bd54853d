import Angel.Lib.Related
import Angel.Mime.Progress

/-!
A whole multipart body, fed to the parser in segments. What stands behind the
close-delimiter is looked at once, with the segment that completes it: the
result depends on how much of it that segment brings.
-/

namespace Angel.Mime

open Angel.Lib Util Buffer Http

/-- `multipart-body` with a preamble of at most one line. -/
structure MultipartBody where
  preamble : Option TextLine
  boundary : Boundary
  parts : List Entity
  padding : Padding
  epilogue : Option (List TextLine)

namespace MultipartBody

/-- The body up to the end of the close-delimiter. -/
def front (m : MultipartBody) : Bytes :=
  opening m.preamble ++ (dashBoundary m.boundary.bytes ++
    Entity.content.behind m.boundary.bytes m.parts)

/-- `[CRLF epilogue]` -/
def ending (m : MultipartBody) : Bytes :=
  match m.epilogue with
  | none => []
  | some lines => CRLF ++ renderText lines

/-- The body behind the close-delimiter. -/
def tail (m : MultipartBody) : Bytes := m.padding.bytes ++ m.ending

def text (m : MultipartBody) : Bytes := m.front ++ m.tail

/-- The line of the preamble. -/
def preambleText (m : MultipartBody) : Bytes :=
  match m.preamble with
  | none => []
  | some line => line.bytes

/-- The first line of the epilogue. -/
def epilogueText (m : MultipartBody) : Bytes :=
  match m.epilogue with
  | some (line :: _) => line.bytes
  | _ => []

/-- There is a part, every part is well formed, and the preamble is no boundary
line. -/
def WellFormed (m : MultipartBody) : Prop := WellFormedBody m.preamble m.boundary m.parts

/-- The parser has returned `Ok`; the tree, the preamble and the epilogue are
those of the body. -/
def IsRead (m : MultipartBody) (contentType : ContentValue)
    (s : Except Fault (ParseCode × MultipartParser × Bytes)) : Prop :=
  ∃ p data nodes buf, s = .ok (.ok, p, buf) ∧
    p.root = some (.multipart data m.boundary.bytes .delimiter nodes [] none) ∧
    data.contentType = contentType ∧ List.Forall₂ (Shows contentType) m.parts nodes ∧
    p.preamble = m.preambleText ∧ p.epilogue = m.epilogueText

/-- The epilogue is found when `n` bytes have arrived behind the
close-delimiter. -/
def FoundAt (m : MultipartBody) (n : Nat) : Prop :=
  match m.epilogue with
  | none => True
  | some [] => n < m.padding.bytes.length + 2
  | some (line :: _) => line.bytes = [] ∨ m.padding.bytes.length + 2 ≤ n

end MultipartBody

/-- How many bytes the segment with the `n`-th byte brings behind it. -/
def overshoot (n : Nat) : List Bytes → Nat
  | [] => 0
  | seg :: segments =>
      if n ≤ seg.length then seg.length - n else overshoot (n - seg.length) segments

theorem parse_root {p : MultipartParser} {root : Node} (h : p.root = some root) (buf : Bytes) :
    p.parse buf = p.parseRoot root buf := by
  rw [MultipartParser.parse, h]

theorem run_feed_ok (segments : List Bytes) (p : MultipartParser) (buf : Bytes) :
    run feed (.ok (.ok, p, buf)) segments = .ok (.ok, p, buf ++ segments.flatten) := by
  induction segments generalizing buf with
  | nil => rw [run_nil, List.flatten_nil, List.append_nil]
  | cons seg segments ih =>
      have hfeed : feed (.ok (.ok, p, buf)) seg = .ok (.ok, p, buf ++ seg) := rfl
      rw [run_cons, hfeed, ih, List.flatten_cons, List.append_assoc]

/-- A call that has stopped with an error or without a return code. -/
def Stopped (s : Except Fault (ParseCode × MultipartParser × Bytes)) : Prop :=
  (∃ fault, s = .error fault) ∨ ∃ p buf, s = .ok (.error, p, buf)

theorem run_feed_stopped (segments : List Bytes)
    {s : Except Fault (ParseCode × MultipartParser × Bytes)} (h : Stopped s) :
    Stopped (run feed s segments) := by
  induction segments generalizing s with
  | nil => exact h
  | cons seg segments ih =>
      apply ih
      rcases h with ⟨fault, rfl⟩ | ⟨p, buf, rfl⟩
      · exact .inl ⟨fault, rfl⟩
      · exact .inr ⟨p, buf ++ seg, rfl⟩

theorem Stopped.not_isRead {m : MultipartBody} {contentType : ContentValue}
    {s : Except Fault (ParseCode × MultipartParser × Bytes)} (h : Stopped s) :
    ¬ m.IsRead contentType s := by
  rintro ⟨p, data, nodes, buf, rfl, _⟩
  rcases h with ⟨fault, hfault⟩ | ⟨p', buf', herror⟩
  · cases hfault
  · cases herror

section

variable {p : MultipartParser} {root : Node}

theorem parse_epilogue (hroot : p.root = some root) (hstate : p.state = .epilogue) (buf : Bytes) :
    p.parse buf = .ok (p.epilogueCase buf) := by
  rw [parse_root hroot, MultipartParser.parseRoot.eq_def, hstate]

theorem run_feed_epilogue (line : TextLine) {more : Bytes} (hroot : p.root = some root)
    (hstate : p.state = .epilogue) (segments : List Bytes) {buf : Bytes}
    (hbuf : buf ++ segments.flatten = line.bytes ++ CRLF ++ more) :
    ∃ left, run feed (.ok (p.epilogueCase buf)) segments =
      .ok (.ok, { p with epilogue := line.bytes }, left) := by
  induction segments generalizing buf with
  | nil =>
      rw [List.flatten_nil, List.append_nil] at hbuf
      refine ⟨more, ?_⟩
      rw [MultipartParser.epilogueCase, hbuf, findCrlf_line line.unbroken, run_nil]
      simp only [take_line, drop_line]
  | cons seg segments ih =>
      rcases arrived_cases hbuf with ⟨left, hleft, hshort, _⟩ | ⟨extra, rfl, _⟩
      · have hcase : p.epilogueCase buf = (.notEnough, p, buf) := by
          rw [MultipartParser.epilogueCase, findCrlf_incomplete line.unbroken hshort hleft]
        have hfeed : feed (.ok (.notEnough, p, buf)) seg = p.parse (buf ++ seg) := rfl
        rw [hcase, run_cons, hfeed, parse_epilogue hroot hstate]
        apply ih
        rw [← hbuf, List.flatten_cons, List.append_assoc]
      · have hcase : p.epilogueCase (line.bytes ++ CRLF ++ extra) =
            (.ok, { p with epilogue := line.bytes }, extra) := by
          rw [MultipartParser.epilogueCase, findCrlf_line line.unbroken]
          simp only [take_line, drop_line]
        rw [hcase]
        exact ⟨_, run_feed_ok _ _ _⟩

theorem run_feed_no_epilogue (hroot : p.root = some root) (hstate : p.state = .epilogue)
    (segments : List Bytes) (hbuf : segments.flatten = []) :
    run feed (.ok (p.epilogueCase [])) segments = .ok (.notEnough, p, []) := by
  induction segments with
  | nil => rfl
  | cons seg segments ih =>
      rw [List.flatten_cons, List.append_eq_nil_iff] at hbuf
      obtain ⟨rfl, hrest⟩ := hbuf
      have hfeed : feed (.ok (p.epilogueCase [])) [] = p.parse [] := rfl
      rw [run_cons, hfeed, parse_epilogue hroot hstate]
      exact ih hrest

end

/-- What the parser does when the root is complete and `extra` has arrived
behind the close-delimiter. -/
def closing (p : MultipartParser) (extra : Bytes) : ParseCode × MultipartParser × Bytes :=
  if startsWith (skipLwspChar extra) CRLF then
    { p with state := .epilogue }.epilogueCase ((skipLwspChar extra).drop 2)
  else (.ok, p, skipLwspChar extra)

theorem skipLwspChar_padding (padding : Padding) (rest : Bytes) :
    skipLwspChar (padding.bytes ++ CRLF ++ rest) = CRLF ++ rest := by
  rw [List.append_assoc]
  exact List.dropWhile_append_of_pos padding.lwsp

theorem not_startsWith_crlf {padding : Padding} {extra left : Bytes} (hleft : left ≠ [])
    (h : extra ++ left = padding.bytes ++ CRLF) :
    startsWith (skipLwspChar extra) CRLF = false := by
  obtain ⟨front, hfront, hskip⟩ := skipLwspChar_stream h
  rw [startsWith, Bool.eq_false_iff, ne_eq, List.isPrefixOf_iff_prefix]
  rintro ⟨behind, hbehind⟩
  rw [← hbehind] at hskip
  cases front with
  | nil =>
      have hnil : behind ++ left = [] := by simpa [CRLF] using hskip
      exact hleft (List.append_eq_nil_iff.mp hnil).2
  | cons c front =>
      obtain ⟨rfl, _⟩ := List.cons.inj hskip
      exact padding.CR_not_mem (hfront.subset List.mem_cons_self)

theorem skipLwspChar_front {padding : Padding} {extra left : Bytes}
    (h : extra ++ left = padding.bytes) : skipLwspChar extra = [] := by
  rw [skipLwspChar, List.dropWhile_eq_nil_iff]
  exact fun c hc => padding.lwsp c (h ▸ List.mem_append_left left hc)

section

variable {m : MultipartBody} {contentType : ContentValue} {p : MultipartParser} {data : NodeData}
  {nodes : List Node}

/-- The parser when the root is complete. -/
structure RootRead (m : MultipartBody) (contentType : ContentValue) (p : MultipartParser) : Prop where
  root : ∃ data nodes, p.root = some (.multipart data m.boundary.bytes .delimiter nodes [] none) ∧
    data.contentType = contentType ∧ List.Forall₂ (Shows contentType) m.parts nodes
  preamble : p.preamble = m.preambleText
  epilogue : p.epilogue = []

theorem RootRead.isRead_ok (h : RootRead m contentType p) (text buf : Bytes) :
    m.IsRead contentType (.ok (.ok, { p with epilogue := text }, buf)) ↔ text = m.epilogueText := by
  obtain ⟨data, nodes, hroot, htype, hnodes⟩ := h.root
  constructor
  · rintro ⟨p', _, _, _, hp, _, _, _, _, hepilogue⟩
    cases hp
    exact hepilogue
  · intro htext
    exact ⟨_, data, nodes, buf, rfl, hroot, htype, hnodes, h.preamble, htext⟩

theorem isRead_not_found (h : RootRead m contentType p) {extra : Bytes}
    (hstart : startsWith (skipLwspChar extra) CRLF = false) (segments : List Bytes) :
    m.IsRead contentType (run feed (.ok (closing p extra)) segments) ↔ m.epilogueText = [] := by
  have hclosing : closing p extra = (.ok, { p with epilogue := [] }, skipLwspChar extra) := by
    rw [closing, hstart, if_neg (by decide), ← h.epilogue]
  rw [hclosing, run_feed_ok, h.isRead_ok]
  exact eq_comm

private theorem closing_found (p : MultipartParser) (padding : Padding) (behind : Bytes) :
    closing p (padding.bytes ++ CRLF ++ behind) =
      { p with state := .epilogue }.epilogueCase behind := by
  rw [closing, skipLwspChar_padding, startsWith_append, if_pos rfl]
  rfl

private theorem isRead_found (h : RootRead m contentType p) {lines : List TextLine}
    (hepilogue : m.epilogue = some lines) (segments : List Bytes) {behind : Bytes}
    (hbuf : behind ++ segments.flatten = renderText lines) :
    m.IsRead contentType
      (run feed (.ok ({ p with state := .epilogue }.epilogueCase behind)) segments) ↔ lines ≠ [] := by
  obtain ⟨data, nodes, hroot, _⟩ := h.root
  cases lines with
  | nil =>
      obtain ⟨rfl, hrest⟩ := List.append_eq_nil_iff.mp hbuf
      have hrun := run_feed_no_epilogue (p := { p with state := .epilogue }) hroot rfl segments hrest
      rw [hrun]
      constructor
      · rintro ⟨_, _, _, _, hcode, _⟩
        cases hcode
      · exact fun hne => absurd rfl hne
  | cons line lines =>
      have hline : behind ++ segments.flatten = line.bytes ++ CRLF ++ renderText lines := by
        rw [hbuf]
        rfl
      obtain ⟨left, hrun⟩ := run_feed_epilogue (p := { p with state := .epilogue }) line hroot rfl
        segments hline
      have hread : RootRead m contentType { p with state := .epilogue } :=
        ⟨h.root, h.preamble, h.epilogue⟩
      have htext : m.epilogueText = line.bytes := by
        rw [MultipartBody.epilogueText, hepilogue]
      rw [hrun, hread.isRead_ok, htext]
      exact ⟨fun _ => List.cons_ne_nil _ _, fun _ => rfl⟩

theorem isRead_closing (h : RootRead m contentType p) (segments : List Bytes) {extra : Bytes}
    (hbuf : extra ++ segments.flatten = m.tail) :
    m.IsRead contentType (run feed (.ok (closing p extra)) segments) ↔ m.FoundAt extra.length := by
  rw [MultipartBody.tail, MultipartBody.ending] at hbuf
  rw [MultipartBody.FoundAt]
  cases hepilogue : m.epilogue with
  | none =>
      rw [hepilogue, List.append_nil] at hbuf
      have hskip : skipLwspChar extra = [] := skipLwspChar_front hbuf
      have hstart : startsWith (skipLwspChar extra) CRLF = false := by
        rw [hskip]
        rfl
      rw [isRead_not_found h hstart, MultipartBody.epilogueText, hepilogue]
      simp
  | some lines =>
      rw [hepilogue, ← List.append_assoc] at hbuf
      rcases arrived_cases hbuf with ⟨left, hleft, hshort, _⟩ | ⟨behind, rfl, hbehind⟩
      · have hlen := arrived_length_lt hleft hshort
        rw [List.length_append] at hlen
        have hlate : ¬ m.padding.bytes.length + 2 ≤ extra.length := Nat.not_le.mpr hlen
        rw [isRead_not_found h (not_startsWith_crlf hleft hshort), MultipartBody.epilogueText,
          hepilogue]
        cases lines with
        | nil => exact ⟨fun _ => hlen, fun _ => rfl⟩
        | cons line lines => simp [hlate]
      · have hlen : m.padding.bytes.length + 2 ≤ (m.padding.bytes ++ CRLF ++ behind).length := by
          rw [List.length_append, List.length_append]
          exact Nat.le_add_right _ _
        rw [closing_found, isRead_found h hepilogue segments hbehind]
        cases lines with
        | nil => exact ⟨fun hne => absurd rfl hne, fun hlt => absurd hlen (Nat.not_le.mpr hlt)⟩
        | cons line lines => exact ⟨fun _ => .inr hlen, fun _ => List.cons_ne_nil _ _⟩

end

/-- The root as the parser makes it. -/
def rootOf (contentType : ContentValue) (boundary : Boundary) : Node :=
  Node.create [] contentType boundary.bytes

/-- A parser that is still reading the body up to its close-delimiter, with
`rest` to come. -/
inductive Pending (m : MultipartBody) (text : Bytes) (contentType : ContentValue) :
    Except Fault (ParseCode × MultipartParser × Bytes) → Bytes → Prop where
  | fresh {p : MultipartParser} {buf rest : Bytes} (htext : p.contentType = text)
      (hroot : p.root = none ∨ p.root = some (rootOf contentType m.boundary) ∧ p.state = .preamble)
      (hpreamble : p.preamble = []) (hepilogue : p.epilogue = [])
      (hbuf : buf ++ rest = m.text) (hshort : buf.length < m.front.length) :
      Pending m text contentType (.ok (.notEnough, p, buf)) rest
  | reading {p : MultipartParser} {data : NodeData} {node : Node} {remaining buf rest : Bytes}
      (hroot : p.root = some node) (hstate : p.state = .multipartBody)
      (hpreamble : p.preamble = m.preambleText) (hepilogue : p.epilogue = [])
      (htype : data.contentType = contentType)
      (hreading : Reading data none m.boundary m.parts node remaining)
      (hbuf : buf ++ rest = remaining ++ m.tail) (hshort : buf.length < remaining.length) :
      Pending m text contentType (.ok (.notEnough, p, buf)) rest

/-- What a segment brings the parser to: it goes on reading, the root is
complete, or a part is not accepted. -/
def Advanced (m : MultipartBody) (text : Bytes) (contentType : ContentValue)
    (s : Except Fault (ParseCode × MultipartParser × Bytes)) (rest : Bytes) : Prop :=
  Pending m text contentType s rest ∨
  (∃ p extra, s = .ok (closing p extra) ∧ RootRead m contentType p ∧ extra ++ rest = m.tail) ∨
  (Stopped s ∧ ¬ ∀ part ∈ m.parts, part.Accepted)

section

variable {m : MultipartBody} {text : Bytes} {contentType : ContentValue} {p : MultipartParser}
  {buf rest : Bytes}

theorem Pending.length_lt {s : Except Fault (ParseCode × MultipartParser × Bytes)}
    (h : Pending m text contentType s rest) : m.tail.length < rest.length := by
  cases h with
  | fresh _ _ _ _ hbuf hshort =>
      have hlen := congrArg List.length hbuf
      rw [MultipartBody.text, List.length_append, List.length_append] at hlen
      omega
  | reading _ _ _ _ _ _ hbuf hshort =>
      have hlen := congrArg List.length hbuf
      rw [List.length_append, List.length_append] at hlen
      omega

theorem bodyCase_advanced (hm : m.WellFormed) {data : NodeData} {node : Node} {remaining : Bytes}
    (hstate : p.state = .multipartBody) (hpreamble : p.preamble = m.preambleText)
    (hepilogue : p.epilogue = []) (htype : data.contentType = contentType)
    (hreading : Reading data none m.boundary m.parts node remaining)
    (hbuf : buf ++ rest = remaining ++ m.tail) :
    Advanced m text contentType (p.bodyCase node buf) rest := by
  have hok : WellFormedBody none m.boundary m.parts := ⟨nofun, hm.nonempty, hm.parts⟩
  rw [MultipartParser.bodyCase]
  rcases parse_proceeds _ hreading hok hbuf (Nat.lt_succ_self _) with
    ⟨node', remaining', buf', hresult, hreading', hbuf', hshort⟩ |
    ⟨_, nodes, extra, hresult, hnodes, hextra⟩ | ⟨hfailed, hnot⟩
  · rw [hresult]
    exact .inl (.reading rfl hstate hpreamble hepilogue htype hreading' hbuf' hshort)
  · rw [hresult]
    refine .inr (.inl ⟨{ p with root := some (.multipart data m.boundary.bytes .delimiter nodes []
      none) }, extra, ?_, ⟨⟨data, nodes, rfl, htype, htype ▸ hnodes⟩, hpreamble, hepilogue⟩, hextra⟩)
    rw [closing]
    simp only [bind, Except.bind, ne_eq, not_true_eq_false, if_false]
    split <;> rfl
  · refine .inr (.inr ⟨?_, fun hall => hnot ⟨rfl, hall⟩⟩)
    rcases hfailed with ⟨fault, hfault⟩ | ⟨node', buf', herror⟩
    · rw [hfault]
      exact .inl ⟨fault, rfl⟩
    · rw [herror]
      exact .inr ⟨_, _, rfl⟩

theorem reading_root (m : MultipartBody) (contentType : ContentValue) :
    Reading { headers := [], contentType := contentType, body := [] } none m.boundary m.parts
      (rootOf contentType m.boundary) (opening none ++ (dashBoundary m.boundary.bytes ++
        Entity.content.behind m.boundary.bytes m.parts)) := .dash

private theorem front_line (hm : m.WellFormed) (h : m.preamble = none) :
    ∃ (part : Entity) (more : Bytes),
    m.front = dashBoundary m.boundary.bytes ++ part.padding.bytes ++ CRLF ++ more := by
  obtain ⟨part, parts, hparts⟩ := List.exists_cons_of_ne_nil hm.nonempty
  refine ⟨part, renderFields part.fields ++ (CRLF ++ (part.content ++
    (delimiter m.boundary.bytes ++ Entity.content.behind m.boundary.bytes parts))), ?_⟩
  rw [MultipartBody.front, h, hparts, Entity.content.behind]
  simp only [opening, List.nil_append, List.append_assoc]

section

variable (hm : m.WellFormed) (htext : p.contentType = text)
  (hroot : p.root = some (rootOf contentType m.boundary)) (hstate : p.state = .preamble)
  (hpreamble : p.preamble = []) (hepilogue : p.epilogue = []) (hbuf : buf ++ rest = m.text)

include htext hroot hstate hpreamble hepilogue hbuf

theorem preambleCase_waits (hnone : findCrlf buf = none) (hshort : buf.length < m.front.length) :
    Advanced m text contentType
      (p.preambleCase (rootOf contentType m.boundary) m.boundary.bytes buf) rest := by
  rw [MultipartParser.preambleCase, hnone]
  exact .inl (.fresh htext (.inr ⟨hroot, hstate⟩) hpreamble hepilogue hbuf hshort)

include hm

private theorem preambleCase_boundary (hcase : m.preamble = none) :
    Advanced m text contentType
      (p.preambleCase (rootOf contentType m.boundary) m.boundary.bytes buf) rest := by
  obtain ⟨part, more, hline⟩ := front_line hm hcase
  have hfree := boundaryLine_unbroken m.boundary part.padding
  have hstream : buf ++ rest = (dashBoundary m.boundary.bytes ++ part.padding.bytes ++ CRLF) ++
      (more ++ m.tail) := by
    rw [hbuf, MultipartBody.text, hline, List.append_assoc]
  rcases arrived_cases hstream with ⟨left, hleft, hshort, _⟩ | ⟨extra, hextra, _⟩
  · apply preambleCase_waits htext hroot hstate hpreamble hepilogue hbuf
      (findCrlf_incomplete hfree hshort hleft)
    rw [hline, List.length_append]
    exact Nat.lt_add_right _ (arrived_length_lt hleft hshort)
  · have hcrlf : findCrlf buf =
        some (dashBoundary m.boundary.bytes ++ part.padding.bytes).length := by
      rw [hextra]
      exact findCrlf_line hfree extra
    have hstart : startsWith buf (dashBoundary m.boundary.bytes) = true := by
      rw [hextra, List.append_assoc, List.append_assoc]
      exact startsWith_append _ _
    have hkept : p.preamble = m.preambleText := by
      rw [hpreamble, MultipartBody.preambleText, hcase]
    have hbody : buf ++ rest = (opening none ++ (dashBoundary m.boundary.bytes ++
        Entity.content.behind m.boundary.bytes m.parts)) ++ m.tail := by
      rw [hbuf, MultipartBody.text, MultipartBody.front, hcase]
    rw [MultipartParser.preambleCase, hcrlf]
    simp only [hstart, Bool.not_true, Bool.false_eq_true, if_false]
    exact bodyCase_advanced (p := { p with state := .multipartBody }) hm rfl hkept hepilogue rfl
      (reading_root m contentType) hbody

private theorem preambleCase_preamble {line : TextLine} (hcase : m.preamble = some line) :
    Advanced m text contentType
      (p.preambleCase (rootOf contentType m.boundary) m.boundary.bytes buf) rest := by
  have hstream : buf ++ rest = (line.bytes ++ CRLF) ++ ((opening none ++
      (dashBoundary m.boundary.bytes ++ Entity.content.behind m.boundary.bytes m.parts)) ++
        m.tail) := by
    rw [hbuf, MultipartBody.text, MultipartBody.front, hcase]
    simp only [opening, List.nil_append, List.append_assoc]
  rcases arrived_cases hstream with ⟨left, hleft, hshort, _⟩ | ⟨extra, hextra, hrest⟩
  · apply preambleCase_waits htext hroot hstate hpreamble hepilogue hbuf
      (findCrlf_incomplete line.unbroken hshort hleft)
    rw [MultipartBody.front, hcase, opening, List.length_append]
    exact Nat.lt_add_right _ (arrived_length_lt hleft hshort)
  · have hcrlf : findCrlf (line.bytes ++ CRLF ++ extra) = some line.bytes.length :=
      findCrlf_line line.unbroken extra
    have hstart : startsWith (line.bytes ++ CRLF ++ extra) (dashBoundary m.boundary.bytes) = false :=
      startsWith_line (CR_not_mem_dashBoundary m.boundary) (hm.preamble line hcase) extra
    have hkept : line.bytes = m.preambleText := by
      rw [MultipartBody.preambleText, hcase]
    rw [hextra, MultipartParser.preambleCase, hcrlf]
    simp only [hstart, Bool.not_false, if_true, take_line, drop_line]
    exact bodyCase_advanced (p := { p with preamble := line.bytes, state := .multipartBody }) hm rfl
      hkept hepilogue rfl (reading_root m contentType) hrest

private theorem preambleCase_advanced : Advanced m text contentType
    (p.preambleCase (rootOf contentType m.boundary) m.boundary.bytes buf) rest := by
  cases hcase : m.preamble with
  | none => exact preambleCase_boundary hm htext hroot hstate hpreamble hepilogue hbuf hcase
  | some line => exact preambleCase_preamble hm htext hroot hstate hpreamble hepilogue hbuf hcase

end

theorem feed_advanced (hm : m.WellFormed)
    (htype : MultipartParser.makeRoot text = .ok (some (rootOf contentType m.boundary)))
    {s : Except Fault (ParseCode × MultipartParser × Bytes)} {seg : Bytes}
    (h : Pending m text contentType s (seg ++ rest)) :
    Advanced m text contentType (feed s seg) rest := by
  cases h with
  | @fresh p buf _ htext hroot hpreamble hepilogue hbuf hshort =>
      have hfeed : feed (.ok (.notEnough, p, buf)) seg = p.parse (buf ++ seg) := rfl
      rw [← List.append_assoc] at hbuf
      rw [hfeed]
      rcases hroot with hnone | ⟨hroot, hstate⟩
      · have hparse : p.parse (buf ++ seg) =
            MultipartParser.preambleCase { p with
              root := some (rootOf contentType m.boundary), state := .preamble }
              (rootOf contentType m.boundary) m.boundary.bytes (buf ++ seg) := by
          rw [MultipartParser.parse, hnone, htext, htype]
          rfl
        rw [hparse]
        exact preambleCase_advanced hm htext rfl rfl hpreamble hepilogue hbuf
      · have hparse : p.parse (buf ++ seg) =
            p.preambleCase (rootOf contentType m.boundary) m.boundary.bytes (buf ++ seg) := by
          rw [parse_root hroot, MultipartParser.parseRoot.eq_def, hstate]
          rfl
        rw [hparse]
        exact preambleCase_advanced hm htext hroot hstate hpreamble hepilogue hbuf
  | @reading p data node remaining buf _ hroot hstate hpreamble hepilogue hdata hreading hbuf hshort =>
      have hfeed : feed (.ok (.notEnough, p, buf)) seg = p.parse (buf ++ seg) := rfl
      have hparse : p.parse (buf ++ seg) = p.bodyCase node (buf ++ seg) := by
        rw [parse_root hroot, MultipartParser.parseRoot.eq_def, hstate]
      rw [← List.append_assoc] at hbuf
      rw [hfeed, hparse]
      exact bodyCase_advanced hm hstate hpreamble hepilogue hdata hreading hbuf

theorem overshoot_cons_of_le {n : Nat} {seg : Bytes} (h : n ≤ seg.length) (segments : List Bytes) :
    overshoot n (seg :: segments) = seg.length - n := if_pos h

private theorem overshoot_cons_of_lt {n : Nat} {seg : Bytes} (h : seg.length < n)
    (segments : List Bytes) :
    overshoot n (seg :: segments) = overshoot (n - seg.length) segments := if_neg (Nat.not_le.mpr h)

theorem RootRead.accepted (h : RootRead m contentType p) : ∀ part ∈ m.parts, part.Accepted := by
  obtain ⟨_, _, _, _, hnodes⟩ := h.root
  exact forall_of_forall₂ hnodes.flip fun _ _ hshows => hshows.accepted

/-- The rest of a run: the root is completed with one of the segments, or the
run has stopped at a part that is not accepted. -/
theorem pending_run (hm : m.WellFormed)
    (htype : MultipartParser.makeRoot text = .ok (some (rootOf contentType m.boundary)))
    (segments : List Bytes) {s : Except Fault (ParseCode × MultipartParser × Bytes)}
    (h : Pending m text contentType s segments.flatten) :
    (∃ p extra back, run feed s segments = run feed (.ok (closing p extra)) back ∧
      RootRead m contentType p ∧ extra ++ back.flatten = m.tail ∧
      extra.length = overshoot (segments.flatten.length - m.tail.length) segments) ∨
    (Stopped (run feed s segments) ∧ ¬ ∀ part ∈ m.parts, part.Accepted) := by
  induction segments generalizing s with
  | nil => exact absurd h.length_lt (Nat.not_lt_zero _)
  | cons seg segments ih =>
      have hlong := h.length_lt
      rw [List.flatten_cons] at h hlong ⊢
      rw [List.length_append] at hlong ⊢
      rw [run_cons]
      rcases feed_advanced hm htype h with hpending | ⟨p, extra, hresult, hroot, hextra⟩ |
        ⟨hstopped, hnot⟩
      · have hrest := hpending.length_lt
        have hn : seg.length + segments.flatten.length - m.tail.length - seg.length =
            segments.flatten.length - m.tail.length := by omega
        rw [overshoot_cons_of_lt (by omega), hn]
        exact ih hpending
      · have hlen := congrArg List.length hextra
        rw [List.length_append] at hlen
        rw [overshoot_cons_of_le (by omega), hresult]
        refine .inl ⟨p, extra, segments, rfl, hroot, hextra, ?_⟩
        omega
      · exact .inr ⟨run_feed_stopped segments hstopped, hnot⟩

/-- Where every part is accepted the parser waits until the close-delimiter is
complete. -/
theorem pending_waits (hm : m.WellFormed)
    (htype : MultipartParser.makeRoot text = .ok (some (rootOf contentType m.boundary)))
    (hall : ∀ part ∈ m.parts, part.Accepted) {segments : List Bytes} {more : Bytes}
    {s : Except Fault (ParseCode × MultipartParser × Bytes)}
    (h : Pending m text contentType s (segments.flatten ++ more))
    (hmore : m.tail.length < more.length) :
    Pending m text contentType (run feed s segments) more := by
  have hstep : ∀ s seg rest, (m.tail.length < rest.length) →
      Pending m text contentType s (seg ++ rest) → Pending m text contentType (feed s seg) rest := by
    intro s seg rest hlong hpending
    rcases feed_advanced hm htype hpending with hpending | ⟨_, extra, _, _, hextra⟩ | ⟨_, hnot⟩
    · exact hpending
    · have hlen := congrArg List.length hextra
      rw [List.length_append] at hlen
      omega
    · exact absurd hall hnot
  apply run_segments_of hstep _ h
  intro front back _
  rw [List.length_append]
  omega

theorem Pending.returns {s : Except Fault (ParseCode × MultipartParser × Bytes)}
    (h : Pending m text contentType s rest) : ∃ p buf, s = .ok (.notEnough, p, buf) := by
  cases h with
  | fresh => exact ⟨_, _, rfl⟩
  | reading => exact ⟨_, _, rfl⟩

theorem pending_start (hbuf : rest = m.text) :
    Pending m text contentType (.ok (.notEnough, .create text, [])) rest := by
  have hfront : 0 < m.front.length := by
    rw [MultipartBody.front, dashBoundary, List.length_append, List.length_append, List.length_append]
    exact Nat.add_pos_right _ (Nat.add_pos_left (Nat.add_pos_left (by decide) _) _)
  exact .fresh rfl (.inl rfl) rfl rfl hbuf hfront

theorem body_run (hm : m.WellFormed)
    (htype : MultipartParser.makeRoot text = .ok (some (rootOf contentType m.boundary)))
    {segments : List Bytes} (hsegments : segments.flatten = m.text) :
    (∃ p extra back, run feed (.ok (.notEnough, .create text, [])) segments =
        run feed (.ok (closing p extra)) back ∧
      RootRead m contentType p ∧ extra ++ back.flatten = m.tail ∧
      extra.length = overshoot m.front.length segments) ∨
    (Stopped (run feed (.ok (.notEnough, .create text, [])) segments) ∧
      ¬ ∀ part ∈ m.parts, part.Accepted) := by
  have hn : segments.flatten.length - m.tail.length = m.front.length := by
    rw [hsegments, MultipartBody.text, List.length_append, Nat.add_sub_cancel]
  have hrun := pending_run hm htype segments (pending_start hsegments)
  rwa [hn] at hrun

/-- A body is read exactly when every part is accepted and the epilogue is found
with the segment that completes the close-delimiter. -/
theorem isRead_iff (m : MultipartBody) (hm : m.WellFormed) (text : Bytes)
    (contentType : ContentValue)
    (htype : MultipartParser.makeRoot text = .ok (some (rootOf contentType m.boundary)))
    (segments : List Bytes) (hsegments : segments.flatten = m.text) :
    m.IsRead contentType (run feed (.ok (.notEnough, .create text, [])) segments) ↔
      (∀ part ∈ m.parts, part.Accepted) ∧ m.FoundAt (overshoot m.front.length segments) := by
  rcases body_run hm htype hsegments with ⟨p, extra, back, hrun, hroot, hextra, hlen⟩ | ⟨hstopped, hnot⟩
  · rw [hrun, isRead_closing hroot back hextra, hlen]
    exact ⟨fun hfound => ⟨hroot.accepted, hfound⟩, fun h => h.2⟩
  · exact ⟨fun hread => absurd hread hstopped.not_isRead, fun h => absurd h.1 hnot⟩

/-- The root is `root`, and nothing but an epilogue is read any more. -/
def Settled (root : Node) (s : Except Fault (ParseCode × MultipartParser × Bytes)) : Prop :=
  ∃ code p buf, s = .ok (code, p, buf) ∧ p.root = some root ∧
    (code = .notEnough → p.state = .epilogue)

theorem settled_epilogueCase {root : Node} (hroot : p.root = some root) (hstate : p.state = .epilogue)
    (buf : Bytes) : Settled root (.ok (p.epilogueCase buf)) := by
  rw [MultipartParser.epilogueCase]
  split
  · exact ⟨_, _, _, rfl, hroot, fun _ => hstate⟩
  · exact ⟨_, _, _, rfl, hroot, nofun⟩

private theorem settled_closing {root : Node} (hroot : p.root = some root) (extra : Bytes) :
    Settled root (.ok (closing p extra)) := by
  rw [closing]
  split
  · exact settled_epilogueCase (p := { p with state := .epilogue }) hroot rfl _
  · exact ⟨_, _, _, rfl, hroot, nofun⟩

private theorem settled_feed {root : Node} (s : Except Fault (ParseCode × MultipartParser × Bytes))
    (seg : Bytes) (h : Settled root s) : Settled root (feed s seg) := by
  obtain ⟨code, p, buf, rfl, hroot, hstate⟩ := h
  by_cases hcode : code = .notEnough
  · have hfeed : feed (.ok (code, p, buf)) seg = p.parse (buf ++ seg) := if_pos hcode
    rw [hfeed, parse_epilogue hroot (hstate hcode)]
    exact settled_epilogueCase hroot (hstate hcode) _
  · have hfeed : feed (.ok (code, p, buf)) seg = .ok (code, p, buf ++ seg) := if_neg hcode
    rw [hfeed]
    exact ⟨code, p, _, rfl, hroot, hstate⟩

/-- When `Ok` has been returned the nodes show the parts, whatever has become of
the epilogue. -/
theorem shows_of_run_ok (hm : m.WellFormed)
    (htype : MultipartParser.makeRoot text = .ok (some (rootOf contentType m.boundary)))
    {segments : List Bytes} (hsegments : segments.flatten = m.text)
    (hok : run feed (.ok (.notEnough, .create text, [])) segments = .ok (.ok, p, buf)) :
    ∃ data nodes, p.root = some (.multipart data m.boundary.bytes .delimiter nodes [] none) ∧
      List.Forall₂ (Shows contentType) m.parts nodes := by
  rcases body_run hm htype hsegments with ⟨p', extra, back, hrun, hread, _⟩ | ⟨hstopped, _⟩
  · obtain ⟨data, nodes, hroot, _, hnodes⟩ := hread.root
    have hsettled := run_invariant (fun s seg h (_ : True) => settled_feed s seg h)
      (settled_closing hroot extra) (admissible_true feed (.ok (closing p' extra)) back)
    rw [← hrun, hok] at hsettled
    obtain ⟨code, p'', buf', hresult, hroot', _⟩ := hsettled
    cases hresult
    exact ⟨data, nodes, hroot', hnodes⟩
  · rw [hok] at hstopped
    rcases hstopped with ⟨fault, hfault⟩ | ⟨p', buf', herror⟩
    · cases hfault
    · cases herror

end

theorem makeRoot_multipart {subtype : Bytes} (hplain : PlainSubtype subtype) (boundary : Boundary) :
    MultipartParser.makeRoot (multipartType subtype boundary.bytes) =
      .ok (some (rootOf (multipartValue subtype boundary.bytes) boundary)) := by
  rw [MultipartParser.makeRoot]
  simp only [parseContentType_multipart hplain, bind, Except.bind, multipartValue_maintype hplain,
    Bool.not_true, Bool.false_eq_true, if_false, multipartValue_boundary]
  rfl

private theorem edge_plain : ∀ c ∈ ascii "edge", c ≠ CR ∧ c ≠ LF ∧ c ≠ 34 ∧ c ≠ 92 := by decide

def edge : Boundary := ⟨ascii "edge", edge_plain⟩

/-- A text without header lines. -/
def hello : Entity := .leaf .none [] (ascii "hello")

theorem hello_wellFormed : hello.WellFormed edge := by
  apply Entity.WellFormed.leaf
  · decide
  · rintro contentType ⟨value, hvalue, _⟩
    cases hvalue

theorem hello_accepted : hello.Accepted := by
  apply Entity.Accepted.leaf
  · intro value hvalue
    cases hvalue
  · intro _ encoding hencoding
    cases hencoding

theorem mixed_plain : PlainSubtype (ascii "mixed") := by
  unfold PlainSubtype
  decide

theorem see_unbroken : ¬ CRLF <:+: ascii "see below" := by decide

theorem bye_unbroken : ¬ CRLF <:+: ascii "bye" := by decide

/-- A text with a preamble and the epilogue `epilogue`. -/
def greeting (epilogue : Option (List TextLine)) : MultipartBody where
  preamble := some ⟨ascii "see below", see_unbroken⟩
  boundary := edge
  parts := [hello]
  padding := .none
  epilogue := epilogue

theorem greeting_wellFormed (epilogue : Option (List TextLine)) : (greeting epilogue).WellFormed := by
  refine ⟨?_, List.cons_ne_nil _ _, List.forall_mem_singleton.mpr hello_wellFormed⟩
  intro line hline
  cases hline
  change ¬ dashBoundary edge.bytes <+: ascii "see below"
  decide

/-- The whole body in one segment. -/
theorem isRead_greeting :
    (greeting (some [⟨ascii "bye", bye_unbroken⟩])).IsRead (multipartValue (ascii "mixed") edge.bytes)
      (run feed (.ok (.notEnough, .create (multipartType (ascii "mixed") edge.bytes), []))
        [(greeting (some [⟨ascii "bye", bye_unbroken⟩])).text]) := by
  apply (isRead_iff (greeting (some [⟨ascii "bye", bye_unbroken⟩])) (greeting_wellFormed _)
    (multipartType (ascii "mixed") edge.bytes) (multipartValue (ascii "mixed") edge.bytes)
    (makeRoot_multipart mixed_plain edge) [(greeting (some [⟨ascii "bye", bye_unbroken⟩])).text]
    (by simp)).mpr
  refine ⟨List.forall_mem_singleton.mpr hello_accepted, .inr ?_⟩
  decide

/-- What the last call has returned. -/
def returned : Except Fault (ParseCode × MultipartParser × Bytes) → Option ParseCode
  | .ok (code, _, _) => some code
  | .error _ => none

/-- Behind a CRLF and no more the parser waits for a line. -/
theorem isRead_fails : ¬ ∀ (m : MultipartBody) (text : Bytes) (contentType : ContentValue)
    (segments : List Bytes), m.WellFormed →
      MultipartParser.makeRoot text = .ok (some (rootOf contentType m.boundary)) →
      segments.flatten = m.text →
        m.IsRead contentType (run feed (.ok (.notEnough, .create text, [])) segments) := by
  intro h
  obtain ⟨p, data, nodes, buf, hresult, _⟩ := h (greeting (some []))
    (multipartType (ascii "mixed") edge.bytes) (multipartValue (ascii "mixed") edge.bytes)
    [(greeting (some [])).text] (greeting_wellFormed _) (makeRoot_multipart mixed_plain edge) (by simp)
  have hwaits : returned (run feed (.ok (.notEnough, .create (multipartType (ascii "mixed") edge.bytes),
      [])) [(greeting (some [])).text]) = some .notEnough := by decide
  rw [hresult] at hwaits
  cases hwaits

end Angel.Mime
