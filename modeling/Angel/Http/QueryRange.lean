import Angel.Http.ClientRequest

/-!
The range of the query. `uri::parse` and `request::parse_line` both look for the `?` and for
the `#` from the same place on and hand what lies between the two to `parse_params`, whichever
of them comes first.
-/

namespace Angel.Http

open Util Buffer

/-- The offsets `[first, last)` into a target that `parse_params` is called with, if it is
called: the path in front of the `?` has been decoded. -/
def paramsRange (text : Bytes) : Option (Nat × Nat) :=
  let sep := text.idxOf QUESTION
  if !(decode (text.take sep) []).1 then none
  else if sep = text.length then none
  else some (sep + 1, text.idxOf HASH)

/-- The text that the end of `uri::parse` is run on, from the first `/` on. -/
def Uri.target (url : Bytes) : Option Bytes :=
  match find (ascii "://") url with
  | none => none
  | some sep =>
      let scheme := url.take sep
      let text := url.drop (sep + 3)
      if scheme ≠ ascii "http" ∧ scheme ≠ ascii "https" then none
      else
        let sep := text.idxOf COLON
        if sep = text.length then some (text.drop (text.idxOf SLASH))
        else
          let port := text.drop (sep + 1)
          let slash := port.idxOf SLASH
          if (svtoi (port.take slash)).getD (-1) ≤ 0 then none else some (port.drop slash)

/-- The offsets into the URL that `uri::parse` calls `parse_params` with. -/
def Uri.queryRange (url : Bytes) : Option (Nat × Nat) :=
  (Uri.target url).bind fun text =>
    (paramsRange text).map fun r =>
      (url.length - text.length + r.1, url.length - text.length + r.2)

/-- The request target of a buffer with a complete request line, and its offset. -/
def Request.target (buf : Bytes) : Option (Nat × Bytes) :=
  match findCrlf buf with
  | none => none
  | some crlf =>
      if uriMaxLength < crlf then none
      else
        match split (buf.take crlf) SP with
        | [method, target, _] =>
            (methods.lookup method).map fun _ => (method.length + 1, target)
        | _ => none

/-- The offsets into the buffer that `request::parse_line` calls `parse_params` with. -/
def Request.queryRange (buf : Bytes) : Option (Nat × Nat) :=
  (Request.target buf).bind fun t => (paramsRange t.2).map fun r => (t.1 + r.1, t.1 + r.2)

/-- No `#` stands in front of the first `?`, unless the path in front of that is rejected. -/
def QueryFirst (text : Bytes) : Prop :=
  ∀ path query, text = path ++ QUESTION :: query → QUESTION ∉ path →
    (decode path []).1 = true → HASH ∉ path

/-- A range inside an input of `n` bytes. -/
def RangeInside (n : Nat) (r : Nat × Nat) : Prop := r.1 ≤ r.2 ∧ r.2 ≤ n

/-- Whether the escapes are valid does not depend on what has been decoded before. -/
theorem decode_valid (text res res' : Bytes) : (decode text res).1 = (decode text res').1 := by
  induction text, res using decode.induct generalizing res' with
  | case1 res => rfl
  | case2 res c1 c2 text hdigits ih => simpa [decode, hdigits] using ih _
  | case3 res c1 c2 text hdigits => simp [decode, hdigits]
  | case4 text res hshort => simp [decode]
  | case5 c text res hc ih =>
      unfold decode
      rw [if_neg hc, if_neg hc]
      exact ih _

section Text

variable {path query : Bytes}

theorem paramsRange_query (hpath : QUESTION ∉ path) (hdecode : (decode path []).1 = true) :
    paramsRange (path ++ QUESTION :: query) =
      some (path.length + 1, (path ++ QUESTION :: query).idxOf HASH) := by
  have hlen : path.length ≠ (path ++ QUESTION :: query).length := by simp
  simp only [paramsRange, idxOf_separator hpath, List.take_left, hdecode, Bool.not_true,
    Bool.false_eq_true, if_false, if_neg hlen]

/-- Where `parse_params` is called, there is a `?` and what is in front of it was decoded. -/
theorem paramsRange_some {text : Bytes} {r : Nat × Nat} (h : paramsRange text = some r) :
    ∃ path query, text = path ++ QUESTION :: query ∧ QUESTION ∉ path ∧
      (decode path []).1 = true := by
  by_cases hmem : QUESTION ∈ text
  · obtain ⟨path, query, rfl, hpath⟩ := List.eq_append_cons_of_mem hmem
    refine ⟨path, query, rfl, hpath, ?_⟩
    simp only [paramsRange, idxOf_separator hpath, List.take_left] at h
    split at h
    · cases h
    · simp_all
  · simp only [paramsRange, List.idxOf_eq_length hmem] at h
    split at h
    · cases h
    · cases h

private theorem range_inside_iff :
    RangeInside (path ++ QUESTION :: query).length
      (path.length + 1, (path ++ QUESTION :: query).idxOf HASH) ↔ HASH ∉ path := by
  constructor
  · rintro ⟨hle, -⟩ hmem
    have hlt : path.idxOf HASH < path.length := List.idxOf_lt_length_iff.mpr hmem
    rw [List.idxOf_append_of_mem hmem] at hle
    dsimp only at hle
    omega
  · intro hmem
    refine ⟨?_, List.idxOf_le_length⟩
    have hne : QUESTION ≠ HASH := by decide
    rw [List.idxOf_append_of_notMem hmem, List.idxOf_cons_ne _ hne]
    dsimp only
    omega

end Text

private theorem paramsRange_inside_iff (text : Bytes) :
    (∀ r, paramsRange text = some r → RangeInside text.length r) ↔ QueryFirst text := by
  constructor
  · rintro h path query rfl hpath hdecode
    exact range_inside_iff.mp (h _ (paramsRange_query hpath hdecode))
  · intro h r hr
    obtain ⟨path, query, rfl, hpath, hdecode⟩ := paramsRange_some hr
    obtain rfl := Option.some.inj ((paramsRange_query hpath hdecode).symm.trans hr)
    exact range_inside_iff.mpr (h path query rfl hpath hdecode)

/-- The end of a range is never behind the text, so its place in the whole input does not
matter. -/
theorem shifted_inside_iff {text : Bytes} {base n : Nat} (hbase : base + text.length ≤ n)
    (r : Nat × Nat) (hr : paramsRange text = some r) :
    RangeInside n (base + r.1, base + r.2) ↔ RangeInside text.length r := by
  obtain ⟨path, query, rfl, hpath, hdecode⟩ := paramsRange_some hr
  obtain rfl := Option.some.inj ((paramsRange_query hpath hdecode).symm.trans hr)
  have hlast : (path ++ QUESTION :: query).idxOf HASH ≤ (path ++ QUESTION :: query).length :=
    List.idxOf_le_length
  unfold RangeInside
  omega

theorem ranges_inside_iff {text : Bytes} {base n : Nat} (hbase : base + text.length ≤ n) :
    (∀ r, paramsRange text = some r → RangeInside n (base + r.1, base + r.2)) ↔
      QueryFirst text := by
  rw [← paramsRange_inside_iff]
  constructor
  · intro h r hr
    exact (shifted_inside_iff hbase r hr).mp (h r hr)
  · intro h r hr
    exact (shifted_inside_iff hbase r hr).mpr (h r hr)

theorem Uri.target_suffix {url text : Bytes} (h : Uri.target url = some text) : text <:+ url := by
  unfold Uri.target at h
  split at h
  · cases h
  · next sep _ =>
      dsimp only at h
      have hscheme : url.drop (sep + 3) <:+ url := List.drop_suffix _ _
      split at h
      · cases h
      split at h
      · obtain rfl := Option.some.inj h
        exact (List.drop_suffix _ _).trans hscheme
      split at h
      · cases h
      · obtain rfl := Option.some.inj h
        exact ((List.drop_suffix _ _).trans (List.drop_suffix _ _)).trans hscheme

theorem Uri.parse_target (url : Bytes) :
    (Uri.target url = none ∧ Uri.parse url ≠ none) ∨
      ∃ text uri, Uri.target url = some text ∧ Uri.parse url = Uri.parsePath uri text := by
  unfold Uri.target Uri.parse
  cases find (ascii "://") url with
  | none => exact .inl ⟨rfl, nofun⟩
  | some sep =>
      dsimp only
      generalize url.take sep = scheme, url.drop (sep + 3) = text
      by_cases hscheme : scheme ≠ ascii "http" ∧ scheme ≠ ascii "https"
      · left
        rw [if_pos hscheme, if_neg hscheme.1, if_neg hscheme.2]
        exact ⟨rfl, nofun⟩
      rw [if_neg hscheme]
      have hauthority : ∃ uri : Uri, (if scheme = ascii "http" then
          ({ Uri.cleared with scheme := scheme, port := 80 } : Uri).parseAuthority text
        else if scheme = ascii "https" then
          ({ Uri.cleared with scheme := scheme, port := 443 } : Uri).parseAuthority text
        else some ({ Uri.cleared with scheme := scheme }, false)) = uri.parseAuthority text := by
        split
        · exact ⟨_, rfl⟩
        split
        · exact ⟨_, rfl⟩
        · next h11 h10 => exact absurd ⟨h11, h10⟩ hscheme
      obtain ⟨uri, huri⟩ := hauthority
      rw [huri]
      unfold Uri.parseAuthority
      dsimp only
      split
      · exact .inr ⟨_, _, rfl, rfl⟩
      split
      · exact .inl ⟨rfl, nofun⟩
      · exact .inr ⟨_, _, rfl, rfl⟩

theorem Uri.queryRange_inside_iff (url : Bytes) :
    (∀ r, Uri.queryRange url = some r → RangeInside url.length r) ↔
      ∀ text, Uri.target url = some text → QueryFirst text := by
  unfold Uri.queryRange
  cases htarget : Uri.target url with
  | none => simp
  | some text =>
      have hlen := (Uri.target_suffix htarget).length_le
      have hbase : url.length - text.length + text.length ≤ url.length := by omega
      simp only [Option.bind_some, Option.map_eq_some_iff, Option.some.injEq, forall_eq']
      rw [← ranges_inside_iff hbase]
      constructor
      · intro h r hr
        exact h _ ⟨r, hr, rfl⟩
      · rintro h _ ⟨r, hr, rfl⟩
        exact h r hr

theorem question_ne_hash {text : Bytes} (h : ¬ text.idxOf QUESTION = text.length) :
    text.idxOf HASH ≠ text.idxOf QUESTION := by
  intro heq
  have hquestion : text.idxOf QUESTION < text.length := Nat.lt_of_le_of_ne List.idxOf_le_length h
  have hhash : text.idxOf HASH < text.length := heq ▸ hquestion
  have hsame : HASH = QUESTION := by
    rw [← List.getElem_idxOf hhash, ← List.getElem_idxOf hquestion]
    simp only [heq]
  exact absurd hsame (by decide)

/-- The end of `uri::parse` is undefined exactly where the range is not one. -/
theorem Uri.parsePath_eq_none_iff (uri : Uri) (text : Bytes) :
    uri.parsePath text = none ↔ ∃ r, paramsRange text = some r ∧ r.2 < r.1 := by
  unfold Uri.parsePath paramsRange
  dsimp only
  rw [decode_valid _ uri.path []]
  by_cases hnil : text = []
  · simp [hnil, decode]
  rw [if_neg hnil]
  split
  · simp
  split
  · simp
  · next hsep =>
    have hne := question_ne_hash hsep
    simp only [Option.some.injEq, exists_eq_left']
    split
    · simp
      omega
    · split
      · simp
        omega
      · simp
        omega

theorem Uri.parse_eq_none_iff (url : Bytes) :
    Uri.parse url = none ↔ ∃ r, Uri.queryRange url = some r ∧ r.2 < r.1 := by
  rcases Uri.parse_target url with ⟨htarget, hparse⟩ | ⟨text, uri, htarget, hparse⟩
  · simp [Uri.queryRange, htarget, hparse]
  · rw [hparse, Uri.parsePath_eq_none_iff]
    simp [Uri.queryRange, htarget]

private theorem split_target {line method target version : Bytes}
    (h : split line SP = [method, target, version]) :
    line = method ++ SP :: (target ++ SP :: version) := by
  rw [← intercalate_split line SP, h]
  simp [List.intercalate]

theorem Request.target_inside {buf target : Bytes} {offset : Nat}
    (h : Request.target buf = some (offset, target)) :
    ∃ crlf, findCrlf buf = some crlf ∧ offset + target.length ≤ crlf := by
  unfold Request.target at h
  split at h
  · cases h
  · next crlf hcrlf =>
      refine ⟨crlf, hcrlf, ?_⟩
      split at h
      · cases h
      split at h
      · next method text version hsplit =>
          obtain ⟨known, -, heq⟩ := Option.map_eq_some_iff.mp h
          obtain ⟨rfl, rfl⟩ := Prod.mk.inj heq
          have hline := congrArg List.length (split_target hsplit)
          have htake : (buf.take crlf).length ≤ crlf := List.length_take_le _ _
          simp only [List.length_append, List.length_cons] at hline
          omega
      · cases h

/-- A range of offsets into the request line. -/
def InRequestLine (buf : Bytes) (r : Nat × Nat) : Prop :=
  ∃ crlf, findCrlf buf = some crlf ∧ RangeInside crlf r

theorem Request.queryRange_inside_iff (buf : Bytes) :
    (∀ r, Request.queryRange buf = some r → InRequestLine buf r) ↔
      ∀ offset text, Request.target buf = some (offset, text) → QueryFirst text := by
  unfold Request.queryRange
  cases htarget : Request.target buf with
  | none => simp
  | some t =>
      obtain ⟨crlf, hcrlf, hbase⟩ := Request.target_inside htarget
      have hinside : ∀ r, InRequestLine buf r ↔ RangeInside crlf r := by
        intro r
        simp [InRequestLine, hcrlf]
      simp only [Option.bind_some, Option.map_eq_some_iff, hinside, Option.some.injEq]
      constructor
      · rintro h offset text rfl
        rw [← ranges_inside_iff hbase]
        intro r hr
        exact h _ ⟨r, hr, rfl⟩
      · rintro h _ ⟨r, hr, rfl⟩
        exact (ranges_inside_iff hbase).mpr (h t.1 t.2 rfl) r hr

theorem Request.parseTarget_eq_none_iff (req : Request) (text : Bytes) :
    req.parseTarget text = none ↔ ∃ r, paramsRange text = some r ∧ r.2 < r.1 := by
  unfold Request.parseTarget paramsRange
  dsimp only
  rw [decode_valid _ req.absPath []]
  split
  · simp
  split
  · simp
  · next hsep =>
      have hne := question_ne_hash hsep
      simp only [Option.some.injEq, exists_eq_left']
      split
      · simp
        omega
      · simp
        omega

theorem Request.parseLine_eq_none_iff (req : Request) (buf : Bytes) :
    req.parseLine buf = none ↔ ∃ r, Request.queryRange buf = some r ∧ r.2 < r.1 := by
  unfold Request.parseLine Request.queryRange Request.target
  cases findCrlf buf with
  | none => simp
  | some crlf =>
      dsimp only
      split
      · simp
      generalize split (buf.take crlf) SP = parts
      rcases parts with _ | ⟨method, _ | ⟨target, _ | ⟨version, _ | ⟨other, parts⟩⟩⟩⟩
      · simp
      · simp
      · simp
      · dsimp only
        cases methods.lookup method with
        | none => simp
        | some m =>
            dsimp only
            have htarget := Request.parseTarget_eq_none_iff { req with reqMethod := m } target
            generalize Request.parseTarget { req with reqMethod := m } target = parsed at htarget ⊢
            have hshift : (∃ r, ((some (method.length + 1, target)).bind fun t =>
                (paramsRange t.2).map fun r => (t.1 + r.1, t.1 + r.2)) = some r ∧ r.2 < r.1) ↔
                  parsed = none := by
              rw [htarget]
              simp
            rw [Option.map_some, hshift]
            cases parsed with
            | none => simp
            | some parsed =>
                obtain ⟨req', valid⟩ := parsed
                cases valid with
                | false => simp
                | true => cases parseVersion version <;> simp
      · simp

/-- Wherever `?` and `#` stand: the range that `parse_params` gets is one, inside the URL or
inside the request line, exactly when no `#` comes first in a target that is searched. -/
theorem query_range_inside_iff (url buf : Bytes) :
    ((∀ r, Uri.queryRange url = some r → RangeInside url.length r) ↔
      ∀ text, Uri.target url = some text → QueryFirst text) ∧
    ((∀ r, Request.queryRange buf = some r → InRequestLine buf r) ↔
      ∀ offset text, Request.target buf = some (offset, text) → QueryFirst text) :=
  ⟨Uri.queryRange_inside_iff url, Request.queryRange_inside_iff buf⟩

/-- A fragment with a `?` in it: both functions search for the query behind the fragment and
end it in front of it. -/
theorem fragment_first_reversed :
    Uri.queryRange (ascii "http://h/a#b?c=d") = some (13, 10) ∧
      Uri.parse (ascii "http://h/a#b?c=d") = none ∧
      Request.queryRange (ascii "GET /a#b?c=d HTTP/1.1\x0d\x0a") = some (9, 6) ∧
      (∀ req : Request, req.parseLine (ascii "GET /a#b?c=d HTTP/1.1\x0d\x0a") = none) := by
  have hurl : Uri.queryRange (ascii "http://h/a#b?c=d") = some (13, 10) := by decide +kernel
  have hline : Request.queryRange (ascii "GET /a#b?c=d HTTP/1.1\x0d\x0a") = some (9, 6) := by
    decide +kernel
  refine ⟨hurl, ?_, hline, fun req => ?_⟩
  · rw [Uri.parse_eq_none_iff]
    exact ⟨(13, 10), hurl, by decide⟩
  · rw [Request.parseLine_eq_none_iff]
    exact ⟨(9, 6), hline, by decide⟩

end Angel.Http
