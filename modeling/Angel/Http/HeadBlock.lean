import Angel.Http.RoundTrip

/-!
A header block as its reader finds it: lines up to an empty one, and the body behind it. Entries
without a line end come back as they were entered; an entry with one in it comes back as
several lines, or ends the block.
-/

namespace Angel.Http

open Util Buffer Lib

/-- The lines that a reader finds in front of the first empty line, and the rest. -/
structure ReadsAs (bytes : Bytes) (lines : List Bytes) (body : Bytes) : Prop where
  text : bytes = lines.flatMap (· ++ CRLF) ++ CRLF ++ body
  whole : ∀ line ∈ lines, line ≠ [] ∧ ¬ CRLF <:+: line

theorem ReadsAs.unique {bytes body body' : Bytes} {lines lines' : List Bytes}
    (h : ReadsAs bytes lines body) (h' : ReadsAs bytes lines' body') :
    lines = lines' ∧ body = body' := by
  obtain ⟨rfl, hwhole⟩ := h
  obtain ⟨htext, hwhole'⟩ := h'
  have hempty : ∀ (rest : Bytes), findCrlf (CRLF ++ rest) = some 0 :=
    findCrlf_line not_crlf_nil
  induction lines generalizing lines' with
  | nil =>
      cases lines' with
      | nil => exact ⟨rfl, List.append_cancel_left htext⟩
      | cons line lines' =>
          obtain ⟨hne, hfree⟩ := hwhole' line List.mem_cons_self
          have hfirst := hempty body
          simp only [List.flatMap_nil, List.nil_append, List.flatMap_cons, List.append_assoc]
            at htext
          rw [htext, ← List.append_assoc line, findCrlf_line hfree] at hfirst
          exact absurd (Option.some.inj hfirst) (by simpa using hne)
  | cons line lines ih =>
      obtain ⟨hne, hfree⟩ := hwhole line List.mem_cons_self
      have hfirst := findCrlf_line hfree (lines.flatMap (· ++ CRLF) ++ CRLF ++ body)
      cases lines' with
      | nil =>
          simp only [List.flatMap_nil, List.nil_append, List.flatMap_cons, List.append_assoc]
            at htext hfirst
          rw [htext, hempty] at hfirst
          exact absurd (Option.some.inj hfirst).symm (by simpa using hne)
      | cons line' lines' =>
          obtain ⟨-, hfree'⟩ := hwhole' line' List.mem_cons_self
          have hfirst' := findCrlf_line hfree' (lines'.flatMap (· ++ CRLF) ++ CRLF ++ body')
          simp only [List.flatMap_cons, List.append_assoc] at htext hfirst hfirst'
          rw [htext, hfirst'] at hfirst
          obtain ⟨rfl, hrest⟩ := List.append_inj htext (Option.some.inj hfirst).symm
          have hrest' := List.append_cancel_left hrest
          simp only [← List.append_assoc] at hrest'
          obtain ⟨rfl, rfl⟩ := ih (fun l hl => hwhole l (List.mem_cons_of_mem line hl)) hrest'
            (fun l hl => hwhole' l (List.mem_cons_of_mem line hl))
          exact ⟨rfl, rfl⟩

/-- The value on a line of this field: the name is compared without case, and blanks around the
value do not count. -/
def fieldValue (field line : Bytes) : Option Bytes :=
  match line.dropWhile (· ≠ COLON) with
  | [] => none
  | _ :: value =>
      if toLower (line.takeWhile (· ≠ COLON)) = toLower field then some (trim value) else none

/-- The values of a field on the lines of a header block. -/
def fieldValues (field : Bytes) (lines : List Bytes) : List Bytes :=
  lines.filterMap (fieldValue field)

/-- A header entry that is one line with its own name. -/
structure PlainEntry (field value : Bytes) : Prop where
  noColon : COLON ∉ field
  oneName : ¬ CRLF <:+: field
  oneLine : ¬ CRLF <:+: value

theorem not_crlf_of_lineByte {value : Bytes} (h : ∀ b ∈ value, LineByte b) : ¬ CRLF <:+: value :=
  not_crlf_of_not_mem fun hmem => (h CR hmem).1 rfl

theorem plainEntry {field value : Bytes} (hname : ∀ b ∈ field, LineByte b ∧ b ≠ COLON)
    (hvalue : ¬ CRLF <:+: value) : PlainEntry field value where
  noColon hmem := (hname COLON hmem).2 rfl
  oneName := not_crlf_of_lineByte fun b hb => (hname b hb).1
  oneLine := hvalue

theorem plainEntry_of_lineByte {field value : Bytes} (hname : ∀ b ∈ field, LineByte b ∧ b ≠ COLON)
    (hvalue : ∀ b ∈ value, LineByte b) : PlainEntry field value :=
  plainEntry hname (not_crlf_of_lineByte hvalue)

/-- A header map that is written line by line. -/
def Headers.Plain (headers : Headers) : Prop :=
  ∀ entry ∈ headers, PlainEntry entry.1 entry.2

theorem Headers.Plain.emplace {headers : Headers} (h : headers.Plain) {field value : Bytes}
    (hentry : PlainEntry field value) : (headers.emplace field value).Plain := by
  unfold Headers.emplace
  split
  · exact h
  · intro entry hmem
    rcases List.mem_append.mp hmem with hold | hnew
    · exact h entry hold
    · obtain rfl := List.mem_singleton.mp hnew
      exact hentry

/-- The line of an entry, without its end. -/
def entryLine (entry : Bytes × Bytes) : Bytes := entry.1 ++ SEP ++ entry.2

private theorem fieldValue_entryLine {entry : Bytes × Bytes} (h : COLON ∉ entry.1) (field : Bytes) :
    fieldValue field (entryLine entry) =
      if toLower entry.1 = toLower field then some (trim entry.2) else none := by
  have hline : entryLine entry = entry.1 ++ COLON :: (SP :: entry.2) := by
    simp [entryLine, SEP, ascii, COLON, SP]
  have hname : ∀ c ∈ entry.1, decide (c ≠ COLON) = true := by
    intro c hc
    exact decide_eq_true fun heq => h (heq ▸ hc)
  have hblank : trim (SP :: entry.2) = trim entry.2 := by
    rw [trim_eq, trim_eq, ← List.singleton_append]
    exact trimmed_front (by simp [SP, isspace])
  rw [fieldValue, hline, List.dropWhile_append_of_pos hname, List.takeWhile_append_of_pos hname]
  simp [hblank]

theorem fieldValues_entries {headers : Headers} (hdistinct : DistinctEntries headers)
    (hplain : headers.Plain) (field : Bytes) :
    fieldValues field (headers.map entryLine) = (headers.find field).toList.map trim := by
  induction headers with
  | nil => rfl
  | cons entry headers ih =>
      obtain ⟨hother, hrest⟩ := List.pairwise_cons.mp hdistinct
      have hvalue := fieldValue_entryLine (hplain entry List.mem_cons_self).noColon field
      have hvalues := ih hrest fun e he => hplain e (List.mem_cons_of_mem entry he)
      rw [fieldValues] at hvalues ⊢
      rw [List.map_cons, List.filterMap_cons, hvalue]
      by_cases hname : toLower entry.1 = toLower field
      · have hnone : Headers.find headers field = none := by
          rw [Headers.find, Option.map_eq_none_iff, List.find?_eq_none]
          intro e he
          simpa [← hname] using (hother e he).symm
        rw [hnone] at hvalues
        rw [if_pos hname, hvalues]
        simp [Headers.find, hname]
      · rw [if_neg hname, hvalues]
        simp [Headers.find, hname]

theorem entryLine_whole {entry : Bytes × Bytes} (h : PlainEntry entry.1 entry.2) :
    entryLine entry ≠ [] ∧ ¬ CRLF <:+: entryLine entry := by
  have hline : entryLine entry = entry.1 ++ COLON :: (SP :: entry.2) := by
    simp [entryLine, SEP, ascii, COLON, SP]
  rw [hline]
  refine ⟨by simp, ?_⟩
  intro hin
  rcases crlf_infix_append_cons (by decide) (by decide) hin with hname | hvalue
  · exact h.oneName hname
  · have hblank : CRLF <:+: ([] : Bytes) ++ SP :: entry.2 := hvalue
    rcases crlf_infix_append_cons (by decide) (by decide) hblank with hnil | hvalue
    · exact not_crlf_nil hnil
    · exact h.oneLine hvalue

end Angel.Http
