import Angel.Http.ClientRequest
import Angel.Http.Pipeline

/-!
The request line between `http_request::str` and `request::parse_line`. The
client escapes the parameters but writes the path as it was decoded, and the
server decodes it once more.
-/

namespace Angel.Http

open Util Buffer

theorem forall_byte {P : UInt8 → Prop} (h : ∀ n : Fin 256, P (UInt8.ofNat n)) (c : UInt8) :
    P c := by
  have hc := h ⟨c.toNat, c.toNat_lt⟩
  rwa [UInt8.ofNat_toNat] at hc

theorem encodeByte_free (c : UInt8) : ∀ b ∈ encodeByte c,
    b ≠ SP ∧ b ≠ HASH ∧ b ≠ EQUALS ∧ b ≠ AMPERSAND ∧ b ≠ CR := by
  revert c
  apply forall_byte
  decide +kernel

private theorem unescaped_ne_percent (c : UInt8) : unescaped c = true → c ≠ PERCENT := by
  revert c
  apply forall_byte
  decide +kernel

private theorem toHexPair_digits (c : UInt8) :
    digit? (Mime.QP.tohexchar.getD (c >>> 4).toNat 0) = some (c.toNat / 16) ∧
      digit? (Mime.QP.tohexchar.getD (c &&& 0x0f).toNat 0) = some (c.toNat % 16) := by
  revert c
  apply forall_byte
  decide +kernel

theorem encode_escapes (text : Bytes) : Escapes (encode text) text := by
  induction text with
  | nil => exact .nil
  | cons c text ih =>
      change Escapes (encodeByte c ++ encode text) (c :: text)
      unfold encodeByte
      split
      · next hraw => exact .raw (unescaped_ne_percent c hraw) ih
      · obtain ⟨h1, h2⟩ := toHexPair_digits c
        exact .escaped h1 h2 (Nat.div_add_mod c.toNat 16).symm ih

theorem encode_free (text : Bytes) : ∀ b ∈ encode text,
    b ≠ SP ∧ b ≠ HASH ∧ b ≠ EQUALS ∧ b ≠ AMPERSAND ∧ b ≠ CR := by
  intro b hb
  obtain ⟨c, -, hc⟩ := List.mem_flatMap.mp hb
  exact encodeByte_free c b hc

/-- A parameter as the client writes it. -/
def encodeParam (entry : Bytes × Bytes) : Param where
  keyText := encode entry.1
  valueText := encode entry.2
  key := entry.1
  value := entry.2
  keyEscapes := encode_escapes entry.1
  valueEscapes := encode_escapes entry.2
  keyFree := fun b hb => ⟨(encode_free entry.1 b hb).2.2.1, (encode_free entry.1 b hb).2.2.2.1⟩
  valueFree := fun b hb => (encode_free entry.2 b hb).2.2.2.1

private theorem encodeParam_free (entry : Bytes × Bytes) : ∀ b ∈ (encodeParam entry).text,
    b ≠ SP ∧ b ≠ HASH ∧ b ≠ CR := by
  intro b hb
  rcases List.mem_append.mp hb with hkey | hvalue
  · have hfree := encode_free entry.1 b hkey
    exact ⟨hfree.1, hfree.2.1, hfree.2.2.2.2⟩
  · rcases List.mem_cons.mp hvalue with rfl | hvalue
    · decide
    · have hfree := encode_free entry.2 b hvalue
      exact ⟨hfree.1, hfree.2.1, hfree.2.2.2.2⟩

theorem renderParams_free (entry : Bytes × Bytes) (entries : List (Bytes × Bytes)) :
    ∀ b ∈ renderParams (encodeParam entry) (entries.map encodeParam),
      b ≠ SP ∧ b ≠ HASH ∧ b ≠ CR := by
  intro b hb
  rcases List.mem_append.mp hb with hfirst | hrest
  · exact encodeParam_free entry b hfirst
  · obtain ⟨p, hp, hmem⟩ := List.mem_flatMap.mp hrest
    obtain ⟨other, -, rfl⟩ := List.mem_map.mp hp
    rcases List.mem_cons.mp hmem with rfl | hmem
    · decide
    · exact encodeParam_free other b hmem

theorem flatMap_params (p : Param) (params : List Param) :
    (p :: params).flatMap (fun p => p.text ++ [AMPERSAND]) =
      renderParams p params ++ [AMPERSAND] := by
  induction params generalizing p with
  | nil => simp [renderParams]
  | cons q params ih =>
      rw [List.flatMap_cons, ih]
      simp [renderParams]

theorem entry_encodeParam (entries : Params) :
    (entries.map encodeParam).map Param.entry = entries := by
  rw [List.map_map]
  exact List.map_id entries

theorem decode_length_le (text res : Bytes) :
    (decode text res).2.length ≤ res.length + text.length := by
  fun_induction decode text res with
  | case1 res => simp
  | case2 res c1 c2 text hdigits ih =>
      simp only [List.length_append, List.length_cons, List.length_nil] at ih ⊢
      omega
  | case3 => simp
  | case4 => simp
  | case5 c text res hc ih =>
      simp only [List.length_append, List.length_cons, List.length_nil] at ih ⊢
      omega

theorem decode_length_lt {text res : Bytes} (hmem : PERCENT ∈ text)
    (hdone : (decode text res).1 = true) :
    (decode text res).2.length < res.length + text.length := by
  fun_induction decode text res with
  | case1 res => exact absurd hmem List.not_mem_nil
  | case2 res c1 c2 text hdigits ih =>
      have hle := decode_length_le text (res ++ [fromHexPair c1 c2])
      simp only [List.length_append, List.length_cons, List.length_nil] at hle ⊢
      omega
  | case3 => cases hdone
  | case4 => cases hdone
  | case5 c text res hc ih =>
      have hmem' : PERCENT ∈ text := (List.mem_cons.mp hmem).resolve_left (Ne.symm hc)
      have hlt := ih hmem' hdone
      simp only [List.length_append, List.length_cons, List.length_nil] at hlt ⊢
      omega

/-- What the path and the parameters have to be for the server to read them. -/
structure Readable (path : Bytes) (params : Params) : Prop where
  noBlank : SP ∉ path
  noEscape : PERCENT ∉ path
  noQuestion : QUESTION ∉ path
  oneLine : ¬ CRLF <:+: path
  noHash : params = [] ∨ HASH ∉ path

/-- The query that `str` writes behind the path. -/
def queryText : Params → Bytes
  | [] => []
  | entry :: entries => QUESTION :: renderParams (encodeParam entry) (entries.map encodeParam)

theorem target_eq (paramOrder : Params → Params) (req : HttpRequest)
    (horder : (paramOrder req.uri.params).Perm req.uri.params) :
    req.target paramOrder = req.uri.path ++ queryText (paramOrder req.uri.params) := by
  have htext : ∀ entries : Params, (entries.flatMap fun entry =>
      encode entry.1 ++ EQUALS :: (encode entry.2 ++ [AMPERSAND])) =
        (entries.map encodeParam).flatMap fun p => p.text ++ [AMPERSAND] := by
    intro entries
    simp [List.flatMap_map, encodeParam, Param.text]
  unfold HttpRequest.target
  split
  · next hnil =>
      rw [hnil] at horder ⊢
      rw [horder.eq_nil]
      rfl
  · next hne =>
      have hne' : paramOrder req.uri.params ≠ [] := fun hnil => hne (hnil ▸ horder).symm.eq_nil
      obtain ⟨entry, entries, hentries⟩ := List.exists_cons_of_ne_nil hne'
      rw [htext, hentries, List.map_cons, flatMap_params, List.dropLast_concat]
      rfl

theorem queryText_free (entries : Params) : ∀ b ∈ queryText entries,
    b ≠ SP ∧ b ≠ HASH ∧ b ≠ CR := by
  cases entries with
  | nil => exact fun b hb => absurd hb List.not_mem_nil
  | cons entry entries =>
      intro b hb
      rcases List.mem_cons.mp hb with rfl | hb
      · decide
      · exact renderParams_free entry entries b hb

theorem parseTarget_written (req : Request) (hpath : req.absPath = [])
    (hparams : req.queryParams = []) {path : Bytes} {entries : Params}
    (h : Readable path entries)
    (hdistinct : entries.Pairwise fun first second => first.1 ≠ second.1) :
    req.parseTarget (path ++ queryText entries) =
      some ({ req with absPath := path, queryParams := entries }, true) := by
  have hescapes := escapes_raw h.noEscape
  cases entries with
  | nil =>
      rw [queryText, List.append_nil, Request.parseTarget]
      dsimp only
      rw [List.idxOf_eq_length_iff.mpr h.noQuestion, List.take_length, decode_escapes hescapes,
        hpath]
      dsimp only
      rw [if_neg (by simp), if_pos rfl, List.nil_append, ← hparams]
  | cons entry entries =>
      let t : Target :=
        { pathText := path
          path := path
          pathEscapes := hescapes
          pathFree := fun b hb => ne_of_mem_of_not_mem hb h.noQuestion
          params := (entry :: entries).map encodeParam }
      have hhash : HASH ∉ t.text := by
        intro hmem
        rcases List.mem_append.mp hmem with hin | hin
        · exact (h.noHash.resolve_left (by simp)) hin
        · exact (queryText_free (entry :: entries) HASH hin).2.1 rfl
      have hread := parseTarget_text req t hhash
      have hkeys : (([] : Params) ++ ((entry :: entries).map encodeParam).map Param.entry).Pairwise
          fun first second => first.1 ≠ second.1 := by
        rw [entry_encodeParam]
        exact hdistinct
      rw [hpath, hparams, emplaceAll_distinct hkeys, entry_encodeParam, List.nil_append] at hread
      exact hread

/-- The first line of what `str` writes. -/
def firstLine (method : Method) (target : Bytes) : Bytes :=
  method.text ++ SP :: (target ++ SP :: ascii "HTTP/1.1")

theorem parseLine_firstLine {req req' : Request} {method : Method} {target : Bytes}
    (hblank : SP ∉ target) (hline : ¬ CRLF <:+: firstLine method target)
    (hshort : (firstLine method target).length ≤ uriMaxLength)
    (hparse : { req with reqMethod := method }.parseTarget target = some (req', true))
    (after : Bytes) :
    req.parseLine (firstLine method target ++ CRLF ++ after) =
      some ({ req' with httpVersion := .http11 }, after, .ok) := by
  have hsplit : split (firstLine method target) SP = [method.text, target, ascii "HTTP/1.1"] := by
    rw [firstLine, split_separator method.text_free.1, split_separator hblank,
      split_free (by decide)]
  have hversion : parseVersion (ascii "HTTP/1.1") = .ok .http11 := by decide
  unfold Request.parseLine
  rw [findCrlf_line hline]
  dsimp only
  rw [if_neg (Nat.not_lt.mpr hshort), take_line, hsplit]
  dsimp only
  rw [methods_lookup]
  dsimp only
  rw [hparse]
  dsimp only
  rw [hversion, drop_line]

theorem parseLine_reads {req req' : Request} {buf rest : Bytes}
    (h : req.parseLine buf = some (req', rest, .ok)) :
    ∃ line tail method target version req₁, buf = line ++ CRLF ++ tail ∧ ¬ CRLF <:+: line ∧
      split line SP = [method, target, version] ∧
      (∃ m, { req with reqMethod := m }.parseTarget target = some (req₁, true)) ∧
      req'.absPath = req₁.absPath := by
  unfold Request.parseLine at h
  split at h
  · cases h
  next crlf hcrlf =>
    obtain ⟨line, tail, hbuf, hlen, hfree⟩ := findCrlf_some hcrlf
    have htake : buf.take crlf = line := by
      rw [hbuf, ← hlen, take_line]
    rw [htake] at h
    split at h
    · cases h
    split at h
    next method target version hsplit =>
      split at h
      · cases h
      next m hmethod =>
        split at h
        · cases h
        · cases h
        next req₁ hparse =>
          split at h
          · next code hversion =>
              cases h
              unfold parseVersion at hversion
              split at hversion
              · cases hversion
              · split at hversion
                · cases hversion
                · split at hversion <;> cases hversion
          · cases h
            exact ⟨line, tail, method, target, version, req₁, hbuf, hfree, hsplit, ⟨m, hparse⟩, rfl⟩
    next hsplit => cases h

/-- A target that is accepted: its path is decoded, and no `#` is in front of
its query. -/
theorem parseTarget_reads {req req' : Request} {target : Bytes}
    (h : req.parseTarget target = some (req', true)) :
    decode (target.take (target.idxOf QUESTION)) req.absPath = (true, req'.absPath) ∧
      (QUESTION ∈ target → target.idxOf QUESTION ≤ target.idxOf HASH) := by
  unfold Request.parseTarget at h
  dsimp only at h
  generalize hdecode : decode (target.take (target.idxOf QUESTION)) req.absPath = decoded at h ⊢
  obtain ⟨ok, path⟩ := decoded
  dsimp only at h
  split at h
  · cases h
  next hok =>
    have htrue : ok = true := by simpa using hok
    subst htrue
    split at h
    · next hnone =>
        cases h
        exact ⟨rfl, fun hmem => absurd hnone (Nat.ne_of_lt (List.idxOf_lt_length_of_mem hmem))⟩
    · split at h
      · cases h
      · next hhash =>
          obtain ⟨rfl, -⟩ := Prod.mk.inj (Option.some.inj h)
          exact ⟨rfl, fun _ => Nat.not_lt.mp hhash⟩

theorem queryText_head (entries : Params) (after : Bytes) :
    ∃ b more, queryText entries ++ SP :: after = b :: more ∧ (b = SP ∨ b = QUESTION) := by
  cases entries with
  | nil => exact ⟨SP, after, rfl, Or.inl rfl⟩
  | cons entry entries => exact ⟨QUESTION, _, rfl, Or.inr rfl⟩

theorem front_eq {front more path suffix : Bytes} {b : UInt8}
    (heq : front ++ more = path ++ b :: suffix) (hfree : b ∉ front)
    (hlen : path.length ≤ front.length) : front = path := by
  rcases List.append_eq_append_iff.mp heq with ⟨a, hpath, -⟩ | ⟨a, hfront, hrest⟩
  · have ha := congrArg List.length hpath
    rw [List.length_append] at ha
    have hnil : a = [] := List.eq_nil_of_length_eq_zero (by omega)
    rw [hpath, hnil, List.append_nil]
  · cases a with
    | nil => rw [hfront, List.append_nil]
    | cons c a =>
        obtain ⟨rfl, -⟩ := List.cons.inj hrest
        exact absurd (hfront ▸ List.mem_append_right path List.mem_cons_self) hfree

theorem behind_of_line {front rest line tail : Bytes} (hfree : CR ∉ front)
    (h : front ++ rest = line ++ (CRLF ++ tail)) :
    ∃ behind, line = front ++ behind ∧ rest = behind ++ (CRLF ++ tail) := by
  rcases List.append_eq_append_iff.mp h with ⟨a, hline, hrest⟩ | ⟨a, hfront, hrest⟩
  · exact ⟨a, hline, hrest⟩
  · cases a with
    | nil => exact ⟨[], by rw [List.append_nil, hfront, List.append_nil], by simpa using hrest.symm⟩
    | cons c a =>
        obtain ⟨rfl, -⟩ := List.cons.inj hrest
        exact absurd (hfront ▸ List.mem_append_right line List.mem_cons_self) hfree

private theorem blank_of_pieces {behind target version : Bytes}
    (h : split behind SP = [target, version]) :
    ∃ version', SP ∉ target ∧ behind = target ++ SP :: version' := by
  by_cases hmem : SP ∈ behind
  · obtain ⟨a, version', rfl, ha⟩ := List.eq_append_cons_of_mem hmem
    rw [split_separator ha] at h
    obtain ⟨rfl, -⟩ := List.cons.inj h
    exact ⟨version', ha, rfl⟩
  · rw [split_free hmem] at h
    cases h

private theorem method_line_free (method : Method) : CR ∉ method.text ++ [SP] := by
  intro hmem
  rcases List.mem_append.mp hmem with hin | hin
  · exact method.text_free.2 hin
  · exact absurd hin (by decide)

theorem readable_of_parseLine {req req' : Request} (hpath : req.absPath = []) {method₀ : Method}
    {path : Bytes} {entries : Params} {after rest : Bytes}
    (h : req.parseLine (firstLine method₀ (path ++ queryText entries) ++ CRLF ++ after) =
      some (req', rest, .ok)) (hsame : req'.absPath = path) : Readable path entries := by
  obtain ⟨line, tail, method, target, version, req₁, hbuf, hfree, hsplit, ⟨m, hparse⟩, hread⟩ :=
    parseLine_reads h
  obtain ⟨hdecode, hhash⟩ := parseTarget_reads hparse
  obtain ⟨b, more, hsuffix, hb⟩ := queryText_head entries (ascii "HTTP/1.1" ++ CRLF ++ after)
  -- the line starts with the method
  have hwhole : (method₀.text ++ [SP]) ++ (path ++ b :: more) = line ++ (CRLF ++ tail) := by
    rw [← List.append_assoc line, ← hbuf, ← hsuffix]
    simp [firstLine]
  obtain ⟨behind, rfl, hbehind⟩ := behind_of_line (method_line_free method₀) hwhole
  rw [List.append_assoc, List.singleton_append, split_separator method₀.text_free.1] at hsplit
  obtain ⟨version', hblank, rfl⟩ := blank_of_pieces (List.cons.inj hsplit).2
  -- what is decoded is the path
  generalize hsep : target.idxOf QUESTION = sep at hdecode hhash
  have hquestion : QUESTION ∉ target.take sep := by
    intro hmem
    have hlt := (List.mem_take_iff_idxOf_lt (List.mem_of_mem_take hmem)).mp hmem
    omega
  have hblank' : SP ∉ target.take sep := fun hmem => hblank (List.mem_of_mem_take hmem)
  have hdecode' : decode (target.take sep) [] = (true, path) := by
    rw [← hsame, hread]
    exact hpath ▸ hdecode
  have hlen := decode_length_le (target.take sep) []
  rw [hdecode', List.length_nil, Nat.zero_add] at hlen
  have hfree' : b ∉ target.take sep := by
    rcases hb with rfl | rfl
    · exact hblank'
    · exact hquestion
  have hshape : target.take sep ++ (target.drop sep ++ SP :: version' ++ (CRLF ++ tail)) =
      path ++ b :: more := by
    rw [hbehind]
    simp only [← List.append_assoc, List.take_append_drop]
  have hfront : target.take sep = path := front_eq hshape hfree' hlen
  rw [hfront] at hquestion hblank'
  refine ⟨hblank', ?_, hquestion, ?_, ?_⟩
  · intro hmem
    have hlt := decode_length_lt (hfront.symm ▸ hmem) (congrArg Prod.fst hdecode')
    rw [hdecode', hfront] at hlt
    simp at hlt
  · intro hin
    apply hfree
    rw [← hfront] at hin
    have htarget : target <:+: method₀.text ++ [SP] ++ (target ++ SP :: version') :=
      ⟨method₀.text ++ [SP], SP :: version', by simp⟩
    exact hin.trans ((List.take_prefix sep target).isInfix.trans htarget)
  · cases entries with
    | nil => exact Or.inl rfl
    | cons entry entries =>
        right
        intro hmem
        have hb' : b = QUESTION := (List.cons.inj hsuffix).1.symm
        have htarget : QUESTION ∈ target := by
          by_contra hnot
          rw [List.idxOf_eq_length_iff.mpr hnot] at hsep
          rw [← hsep, List.take_length] at hfront
          rw [hfront, List.append_assoc] at hbehind
          have hcons := List.append_cancel_left hbehind
          rw [hb'] at hcons
          exact absurd (List.cons.inj hcons).1 (by decide)
        have hle := hhash htarget
        have hlt := (List.mem_take_iff_idxOf_lt (List.mem_of_mem_take (hfront.symm ▸ hmem))).mp
          (hfront.symm ▸ hmem)
        omega

theorem firstLine_no_crlf (method : Method) {path : Bytes} (hpath : ¬ CRLF <:+: path)
    (entries : Params) : ¬ CRLF <:+: firstLine method (path ++ queryText entries) := by
  have htarget : ¬ CRLF <:+: path ++ queryText entries := by
    cases entries with
    | nil => rwa [queryText, List.append_nil]
    | cons entry entries =>
        intro hin
        rcases crlf_infix_append_cons (by decide) (by decide) hin with hfront | hquery
        · exact hpath hfront
        · exact not_crlf_of_not_mem
            (fun hmem => (renderParams_free entry entries CR hmem).2.2 rfl) hquery
  intro hin
  rcases crlf_infix_append_cons (by decide) (by decide) hin with hmethod | hin
  · exact not_crlf_of_not_mem method.text_free.2 hmethod
  · rcases crlf_infix_append_cons (by decide) (by decide) hin with hfront | hversion
    · exact htarget hfront
    · exact not_crlf_of_not_mem (by decide) hversion

/-- What the client sends for a GET of a URL with parameters. -/
def getText (paramOrder : Params → Params) (order : Headers → Headers) (req : HttpRequest)
    (url : Bytes) (params : Params) : Option Bytes :=
  (req.setUrl url).map fun req => ((req.setParams params).get.str paramOrder order).2

/-- The server reads the path and the parameters of a GET exactly when the
decoded path has nothing in it that would have to be escaped again. -/
theorem request_line_round_trip_iff (paramOrder : Params → Params)
    (hparamOrder : ∀ params, (paramOrder params).Perm params) (order : Headers → Headers)
    (client : HttpRequest) (url : Bytes) (uri : Uri) (hurl : Uri.parse url = some (uri, true))
    (params : Params) (hkeys : params.Pairwise fun first second => first.1 ≠ second.1)
    (text : Bytes) (htext : getText paramOrder order client url params = some text)
    (hshort : ∀ crlf, findCrlf text = some crlf → crlf ≤ uriMaxLength)
    (req : Request) (hpath : req.absPath = []) (hparams : req.queryParams = []) :
    (∃ req' rest, req.parseLine text = some (req', rest, .ok) ∧ req'.absPath = uri.path ∧
        req'.queryParams.Perm params) ↔
      Readable uri.path params := by
  obtain ⟨after, rfl⟩ : ∃ after,
      text = firstLine .get (uri.path ++ queryText (paramOrder params)) ++ CRLF ++ after := by
    simp only [getText, HttpRequest.setUrl, hurl, Option.map_some, Option.some.injEq] at htext
    rw [← htext, HttpRequest.str]
    dsimp only
    rw [target_eq paramOrder _ (hparamOrder _)]
    exact ⟨_, by simp [firstLine, Method.text, HttpRequest.get, HttpRequest.setParams]; rfl⟩
  have hsame : Readable uri.path (paramOrder params) ↔ Readable uri.path params := by
    have hnil : paramOrder params = [] ↔ params = [] := by
      rw [← List.length_eq_zero_iff, (hparamOrder params).length_eq, List.length_eq_zero_iff]
    constructor
    · exact fun h => ⟨h.noBlank, h.noEscape, h.noQuestion, h.oneLine, h.noHash.imp_left hnil.mp⟩
    · exact fun h => ⟨h.noBlank, h.noEscape, h.noQuestion, h.oneLine, h.noHash.imp_left hnil.mpr⟩
  constructor
  · rintro ⟨req', rest, hparse, hread, -⟩
    exact hsame.mp (readable_of_parseLine hpath hparse hread)
  · intro h
    have hreadable := hsame.mpr h
    have hline := firstLine_no_crlf .get h.oneLine (paramOrder params)
    have hblank : SP ∉ uri.path ++ queryText (paramOrder params) := by
      intro hmem
      rcases List.mem_append.mp hmem with hin | hin
      · exact h.noBlank hin
      · exact (queryText_free _ SP hin).1 rfl
    have hdistinct := (hparamOrder params).symm.pairwise hkeys fun hne => hne.symm
    have hparse := parseTarget_written { req with reqMethod := .get } hpath hparams
      hreadable hdistinct
    exact ⟨_, after, parseLine_firstLine hblank hline (hshort _ (findCrlf_line hline after)) hparse
      after, rfl, hparamOrder params⟩

/-- A path and a parameter with escapes. -/
theorem request_line_round_trip_escapes :
    ∃ req' rest, Request.init.parseLine (ascii "GET /a/b?k%20=%26 HTTP/1.1\r\nHost: h\r\n\r\n") =
        some (req', rest, .ok) ∧
      req'.absPath = ascii "/a/b" ∧ req'.queryParams.Perm [(ascii "k ", ascii "&")] :=
  (request_line_round_trip_iff id (fun _ => List.Perm.refl _) id .init
    (ascii "http://h:8080/a%2fb?x=1#f")
    ⟨ascii "http", ascii "h", 8080, ascii "/a/b", [(ascii "x", ascii "1")], ascii "f"⟩
    (by decide +kernel) [(ascii "k ", ascii "&")] (List.pairwise_singleton _ _)
    (ascii "GET /a/b?k%20=%26 HTTP/1.1\r\nHost: h\r\n\r\n") (by decide +kernel)
    (fun crlf hcrlf => by
      have hsome : findCrlf (ascii "GET /a/b?k%20=%26 HTTP/1.1\r\nHost: h\r\n\r\n") = some 26 := by
        decide
      rw [hsome] at hcrlf
      cases hcrlf
      decide)
    .init rfl rfl).mpr
    ⟨by decide, by decide, by decide, by decide, Or.inr (by decide)⟩

/-- A blank in the path, written as it was decoded. -/
theorem request_line_blank :
    Uri.parse (ascii "http://h/a%20b") =
        some (⟨ascii "http", ascii "h", 80, ascii "/a b", [], []⟩, true) ∧
      getText id id .init (ascii "http://h/a%20b") [] =
        some (ascii "GET /a b HTTP/1.1\r\nHost: h\r\n\r\n") ∧
      ¬ ∃ req' rest, Request.init.parseLine (ascii "GET /a b HTTP/1.1\r\nHost: h\r\n\r\n") =
        some (req', rest, .ok) ∧ req'.absPath = ascii "/a b" := by
  refine ⟨by decide +kernel, by decide +kernel, ?_⟩
  rintro ⟨req', rest, hparse, -⟩
  have hcode : (Request.init.parseLine (ascii "GET /a b HTTP/1.1\r\nHost: h\r\n\r\n")).map
      (fun r => r.2.2) = some .badRequest := by
    decide
  rw [hparse] at hcode
  exact absurd hcode (by simp)

end Angel.Http
