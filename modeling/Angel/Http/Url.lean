import Angel.Http.ClientRequest

/-!
`uri::parse` on the text of a URL that is put together from its components. The
colon of the port is looked for in all of the text behind the scheme, the host
ends at a `/` only, and the fragment is taken off the query but not off the
path.
-/

namespace Angel.Http

open Util Buffer

/-- The path of a URL, percent-encoded where it is not raw. -/
structure UrlPath where
  text : Bytes
  path : Bytes
  escapes : Escapes text path
  slash : ∃ rest, text = SLASH :: rest
  noQuestion : QUESTION ∉ text
  noHash : HASH ∉ text

/-- The components of a URL. -/
structure Url where
  https : Bool
  host : Bytes
  port : Option Nat
  path : Option UrlPath
  params : List Param
  fragment : Option Bytes
  hostFree : COLON ∉ host ∧ SLASH ∉ host ∧ QUESTION ∉ host ∧ HASH ∉ host
  portRange : ∀ n ∈ port, 1 ≤ n ∧ n ≤ 65535
  paramsFree : ∀ p ∈ params, HASH ∉ p.text
  keysDistinct : (params.map Param.entry).Pairwise fun first second => first.1 ≠ second.1

namespace Url

variable (u : Url)

def scheme : Bytes := if u.https then ascii "https" else ascii "http"

def defaultPort : Int := if u.https then 443 else 80

def portText : Bytes := u.port.elim [] fun n => COLON :: decimal n

def pathText : Bytes := u.path.elim [] UrlPath.text

def query : Bytes :=
  match u.params with
  | [] => []
  | p :: params => QUESTION :: renderParams p params

def fragmentText : Bytes := u.fragment.elim [] fun fragment => HASH :: fragment

/-- What is behind the host and the port. -/
def target : Bytes := u.pathText ++ (u.query ++ u.fragmentText)

/-- `scheme://host[:port][path][?k=v&...][#fragment]`. -/
def text : Bytes := u.scheme ++ ascii "://" ++ (u.host ++ (u.portText ++ u.target))

/-- The members of `uri` that say the same. -/
def toUri : Uri where
  scheme := u.scheme
  host := u.host
  port := u.port.elim u.defaultPort fun n => n
  path := u.path.elim (ascii "/") UrlPath.path
  params := u.params.map Param.entry
  fragment := u.fragment.getD []

/-- No delimiter of one component is taken for that of another: without a port
there is no colon anywhere, without a path nothing is behind the authority, and
without a query there is no fragment. -/
structure Separable : Prop where
  colon : u.port = none → COLON ∉ u.target
  path : u.path = none → u.params = [] ∧ u.fragment = none
  query : u.fragment ≠ none → u.params ≠ []

end Url

/-- A text that a path starts with, or nothing. -/
def AtPath (text : Bytes) : Prop := text = [] ∨ ∃ rest, text = SLASH :: rest

/-- The host ends at the first colon, or else at the first slash. -/
def hostEnd (text : Bytes) : Nat :=
  if text.idxOf COLON = text.length then text.idxOf SLASH else text.idxOf COLON

private theorem parsePath_host {uri uri' : Uri} {text : Bytes} {ok : Bool}
    (h : uri.parsePath text = some (uri', ok)) : uri'.host = uri.host := by
  unfold Uri.parsePath at h
  dsimp only at h
  split at h
  · cases h
    rfl
  split at h
  · cases h
    rfl
  split at h
  · cases h
    rfl
  split at h
  · cases h
  split at h
  · cases h
    rfl
  · cases h
    rfl

theorem parseAuthority_host {uri uri' : Uri} {text : Bytes} {ok : Bool}
    (h : uri.parseAuthority text = some (uri', ok)) : uri'.host = text.take (hostEnd text) := by
  unfold Uri.parseAuthority at h
  unfold hostEnd
  dsimp only at h
  split at h
  · next hsep =>
      rw [if_pos hsep]
      exact parsePath_host h
  · next hsep =>
      rw [if_neg hsep]
      split at h
      · cases h
        rfl
      · exact parsePath_host h

theorem AtPath.of_take {text : Bytes} (h : text.take (text.idxOf SLASH) = []) : AtPath text := by
  cases text with
  | nil => exact Or.inl rfl
  | cons c rest =>
      by_cases hc : c = SLASH
      · exact Or.inr ⟨rest, by rw [hc]⟩
      · rw [List.idxOf_cons_ne _ hc, List.take_succ_cons] at h
        cases h

section Target

variable {u : Url}

theorem target_cases :
    (u.target = [] ∧ u.params = [] ∧ u.fragment = none) ∨
    (u.path ≠ none ∧ ∃ rest, u.target = SLASH :: rest) ∨
    (u.path = none ∧ ¬ (u.params = [] ∧ u.fragment = none) ∧
      ∃ c rest, u.target = c :: rest ∧ (c = QUESTION ∨ c = HASH)) := by
  unfold Url.target Url.pathText
  cases hpath : u.path with
  | some p =>
      obtain ⟨rest, hrest⟩ := p.slash
      refine Or.inr (Or.inl ⟨nofun, rest ++ (u.query ++ u.fragmentText), ?_⟩)
      rw [Option.elim_some, hrest]
      rfl
  | none =>
      unfold Url.query Url.fragmentText
      cases hparams : u.params with
      | cons p params =>
          exact Or.inr (Or.inr ⟨rfl, nofun, QUESTION, _, rfl, Or.inl rfl⟩)
      | nil =>
          cases hfragment : u.fragment with
          | none => exact Or.inl ⟨rfl, rfl, rfl⟩
          | some fragment =>
              exact Or.inr (Or.inr ⟨rfl, nofun, HASH, fragment, rfl, Or.inr rfl⟩)

theorem atPath_iff :
    AtPath u.target ↔ (u.path = none → u.params = [] ∧ u.fragment = none) := by
  rcases target_cases (u := u) with ⟨hnil, hrest⟩ | ⟨hpath, hslash⟩ | ⟨hpath, hrest, c, rest, hc⟩
  · exact iff_of_true (Or.inl hnil) fun _ => hrest
  · exact iff_of_true (Or.inr hslash) fun hnone => absurd hnone hpath
  · apply iff_of_false
    · rintro (hnil | ⟨other, hslash⟩)
      · rw [hc.1] at hnil
        cases hnil
      · have hhead := (List.cons.inj (hc.1.symm.trans hslash)).1
        rcases hc.2 with rfl | rfl
        · exact absurd hhead (by decide)
        · exact absurd hhead (by decide)
    · exact fun h => hrest (h hpath)

theorem target_colon (h : u.target.take (u.target.idxOf COLON) = []) : COLON ∉ u.target := by
  intro hmem
  have hfirst : ∀ c rest, u.target = c :: rest → c = COLON := by
    intro c rest hcons
    by_contra hc
    rw [hcons, List.idxOf_cons_ne _ hc, List.take_succ_cons] at h
    cases h
  rcases target_cases (u := u) with ⟨hnil, -⟩ | ⟨-, rest, hslash⟩ | ⟨-, -, c, rest, hcons, hc⟩
  · rw [hnil] at hmem
    exact List.not_mem_nil hmem
  · exact absurd (hfirst _ _ hslash) (by decide)
  · have hcolon := hfirst _ _ hcons
    rcases hc with rfl | rfl
    · exact absurd hcolon (by decide)
    · exact absurd hcolon (by decide)

theorem idxOf_slash (h : AtPath u.target) : u.target.idxOf SLASH = 0 := by
  rcases h with hnil | ⟨rest, hslash⟩
  · rw [hnil]
    rfl
  · rw [hslash, List.idxOf_cons_self]

theorem parseAuthority_port (uri : Uri) {n : Nat} (hport : u.port = some n) :
    uri.parseAuthority (u.host ++ (u.portText ++ u.target)) =
      let port := decimal n ++ u.target
      let slash := port.idxOf SLASH
      let uri := { uri with host := u.host, port := (svtoi (port.take slash)).getD (-1) }
      if uri.port ≤ 0 then some (uri, false) else uri.parsePath (port.drop slash) := by
  have htext : u.host ++ (u.portText ++ u.target) =
      u.host ++ COLON :: (decimal n ++ u.target) := by
    rw [Url.portText, hport]
    rfl
  have hsep : (u.host ++ COLON :: (decimal n ++ u.target)).idxOf COLON = u.host.length := by
    exact idxOf_separator u.hostFree.1 _
  have hinside : u.host.length ≠ (u.host ++ COLON :: (decimal n ++ u.target)).length := by
    simp
  have hdrop : (u.host ++ COLON :: (decimal n ++ u.target)).drop (u.host.length + 1) =
      decimal n ++ u.target := drop_separator COLON u.host _
  rw [htext]
  unfold Uri.parseAuthority
  dsimp only
  rw [hsep, if_neg hinside, hdrop, List.take_left]

theorem parseAuthority_atPath (uri : Uri) {n : Nat} (hport : u.port = some n)
    (hpath : AtPath u.target) :
    uri.parseAuthority (u.host ++ (u.portText ++ u.target)) =
      { uri with host := u.host, port := n }.parsePath u.target := by
  obtain ⟨hlow, hhigh⟩ := u.portRange n hport
  have hfree : SLASH ∉ decimal n := notMem_decimal rfl n
  have hslash : (decimal n ++ u.target).idxOf SLASH = (decimal n).length := by
    rw [List.idxOf_append_of_notMem hfree, idxOf_slash hpath]
    rfl
  rw [parseAuthority_port uri hport]
  dsimp only
  rw [hslash, List.take_left, List.drop_left, svtoi_decimal (hhigh.trans (by decide))]
  exact if_neg (by rw [Option.getD_some]; omega)

private theorem port_digits {text : Bytes} (h : 0 < (svtoi text).getD (-1)) :
    text.all isdigit = true := by
  cases hread : svtoi text with
  | none =>
      rw [hread, Option.getD_none] at h
      omega
  | some v =>
      rw [hread, Option.getD_some] at h
      exact (svtointegral_inv hread (Or.inl h)).2.1

theorem parseAuthority_spoiled (uri : Uri) {n : Nat} (hport : u.port = some n)
    (hpath : ¬ AtPath u.target) :
    ∃ uri', uri.parseAuthority (u.host ++ (u.portText ++ u.target)) = some (uri', false) := by
  have hfree : SLASH ∉ decimal n := notMem_decimal rfl n
  have htake : (decimal n ++ u.target).take ((decimal n ++ u.target).idxOf SLASH) =
      decimal n ++ u.target.take (u.target.idxOf SLASH) := by
    rw [List.idxOf_append_of_notMem hfree, List.take_append,
      List.take_of_length_le (Nat.le_add_right _ _), Nat.add_sub_cancel_left]
  rw [parseAuthority_port uri hport]
  dsimp only
  refine ⟨_, if_pos ?_⟩
  apply not_lt.mp
  intro hpos
  have hdigits := port_digits hpos
  rw [htake, List.all_append, Bool.and_eq_true] at hdigits
  rcases target_cases (u := u) with ⟨hnil, -⟩ | ⟨-, rest, hslash⟩ | ⟨-, -, c, rest, hcons, hc⟩
  · exact hpath (Or.inl hnil)
  · exact hpath (Or.inr ⟨rest, hslash⟩)
  · have hne : c ≠ SLASH := by
      rcases hc with rfl | rfl
      · decide
      · decide
    rw [hcons, List.idxOf_cons_ne _ hne, List.take_succ_cons, List.all_cons,
      Bool.and_eq_true] at hdigits
    have hdigit := hdigits.2.1
    rcases hc with rfl | rfl
    · exact absurd hdigit (by decide)
    · exact absurd hdigit (by decide)

private theorem parseAuthority_plain (uri : Uri) (hport : u.port = none) (hcolon : COLON ∉ u.target)
    (hpath : AtPath u.target) :
    uri.parseAuthority (u.host ++ (u.portText ++ u.target)) =
      { uri with host := u.host }.parsePath u.target := by
  have htext : u.host ++ (u.portText ++ u.target) = u.host ++ u.target := by
    rw [Url.portText, hport]
    rfl
  have hmem : COLON ∉ u.host ++ u.target := by
    intro hmem
    exact (List.mem_append.mp hmem).elim u.hostFree.1 hcolon
  have hslash : (u.host ++ u.target).idxOf SLASH = u.host.length := by
    rw [List.idxOf_append_of_notMem u.hostFree.2.1, idxOf_slash hpath]
    rfl
  rw [htext]
  unfold Uri.parseAuthority
  dsimp only
  rw [if_pos (List.idxOf_eq_length_iff.mpr hmem), hslash, List.take_left, List.drop_left]

/-- The host comes out only if no colon is taken for that of a port and the host
ends where the path starts. -/
theorem host_found (hport : u.port = none)
    (h : (u.host ++ (u.portText ++ u.target)).take
      (hostEnd (u.host ++ (u.portText ++ u.target))) = u.host) :
    COLON ∉ u.target ∧ AtPath u.target := by
  have htext : u.host ++ (u.portText ++ u.target) = u.host ++ u.target := by
    rw [Url.portText, hport]
    rfl
  have hcut : ∀ k, (u.host ++ u.target).take (u.host.length + k) = u.host →
      u.target.take k = [] := by
    intro k hk
    rw [List.take_append, List.take_of_length_le (by omega), Nat.add_sub_cancel_left] at hk
    simpa using hk
  rw [htext, hostEnd] at h
  split at h
  · next hnone =>
      have hfree := List.idxOf_eq_length_iff.mp hnone
      rw [List.idxOf_append_of_notMem u.hostFree.2.1] at h
      exact ⟨fun hmem => hfree (List.mem_append_right _ hmem), .of_take (hcut _ h)⟩
  · next hsome =>
      rw [List.idxOf_append_of_notMem u.hostFree.1] at h hsome
      have hcolon := target_colon (hcut _ h)
      rw [List.idxOf_eq_length_iff.mpr hcolon, List.length_append] at hsome
      exact absurd rfl hsome

theorem parseAuthority_found (uri : Uri) (hcolon : u.port = none → COLON ∉ u.target)
    (hpath : AtPath u.target) :
    uri.parseAuthority (u.host ++ (u.portText ++ u.target)) =
      { uri with host := u.host, port := u.port.elim uri.port fun n => n }.parsePath
        u.target := by
  cases hport : u.port with
  | none =>
      rw [parseAuthority_plain uri hport (hcolon hport) hpath]
      rfl
  | some n => exact parseAuthority_atPath uri hport hpath

theorem delimiters_placed {uri uri' : Uri}
    (h : uri.parseAuthority (u.host ++ (u.portText ++ u.target)) = some (uri', true))
    (hhost : uri'.host = u.host) : (u.port = none → COLON ∉ u.target) ∧ AtPath u.target := by
  cases hport : u.port with
  | none =>
      obtain ⟨hcolon, hpath⟩ := host_found hport ((parseAuthority_host h).symm.trans hhost)
      exact ⟨fun _ => hcolon, hpath⟩
  | some n =>
      refine ⟨nofun, ?_⟩
      by_contra hpath
      obtain ⟨other, hspoiled⟩ := parseAuthority_spoiled uri hport hpath
      rw [hspoiled] at h
      cases h

theorem hash_not_mem_query {p : Param} {params : List Param}
    (h : ∀ q ∈ p :: params, HASH ∉ q.text) : HASH ∉ renderParams p params := by
  intro hmem
  rcases List.mem_append.mp hmem with hfirst | hrest
  · exact h p List.mem_cons_self hfirst
  · obtain ⟨q, hq, hmem⟩ := List.mem_flatMap.mp hrest
    rcases List.mem_cons.mp hmem with heq | hmem
    · exact absurd heq (by decide)
    · exact h q (List.mem_cons_of_mem p hq) hmem

section Path

variable (scheme host : Bytes) (port : Int) {path : UrlPath}

theorem parsePath_path :
    Uri.parsePath ⟨scheme, host, port, [], [], []⟩ path.text =
      some (⟨scheme, host, port, path.path, [], []⟩, true) := by
  obtain ⟨rest, hslash⟩ := path.slash
  have hne : path.text ≠ [] := by
    rw [hslash]
    exact List.cons_ne_nil _ _
  unfold Uri.parsePath
  dsimp only
  rw [if_neg hne, List.idxOf_eq_length_iff.mpr path.noQuestion,
    List.idxOf_eq_length_iff.mpr path.noHash, List.take_length, decode_escapes path.escapes]
  simp

private theorem fragment_cut {front text : Bytes} (hfront : HASH ∉ front) (fragment : Option Bytes)
    (htext : text = front ++ fragment.elim [] fun fragment => HASH :: fragment) :
    text.take (text.idxOf HASH) = front ∧ front.length ≤ text.idxOf HASH ∧
      (if text.idxOf HASH = text.length then [] else text.drop (text.idxOf HASH + 1)) =
        fragment.getD [] := by
  subst htext
  cases fragment with
  | none =>
      rw [Option.elim_none, List.append_nil, List.idxOf_eq_length_iff.mpr hfront]
      exact ⟨List.take_length, Nat.le_refl _, if_pos rfl⟩
  | some fragment =>
      rw [Option.elim_some, idxOf_separator hfront, drop_separator, if_neg (by simp)]
      exact ⟨List.take_left, Nat.le_refl _, rfl⟩

theorem parsePath_query {p : Param} {params : List Param}
    (hfree : ∀ q ∈ p :: params, HASH ∉ q.text) (fragment : Option Bytes) :
    Uri.parsePath ⟨scheme, host, port, [], [], []⟩
        (path.text ++ (QUESTION :: renderParams p params ++
          fragment.elim [] fun fragment => HASH :: fragment)) =
      some (⟨scheme, host, port, path.path, Params.emplaceAll [] (p :: params),
        fragment.getD []⟩, true) := by
  generalize htext : path.text ++ (QUESTION :: renderParams p params ++
    fragment.elim [] fun fragment => HASH :: fragment) = text
  have hsep : text.idxOf QUESTION = path.text.length := by
    rw [← htext, List.cons_append, idxOf_separator path.noQuestion]
  have hpath : text.take path.text.length = path.text := by rw [← htext, List.take_left]
  have hfront : HASH ∉ path.text ++ QUESTION :: renderParams p params := by
    intro hmem
    rcases List.mem_append.mp hmem with hmem | hmem
    · exact path.noHash hmem
    · rcases List.mem_cons.mp hmem with heq | hmem
      · exact absurd heq (by decide)
      · exact hash_not_mem_query hfree hmem
  have hshape : text = (path.text ++ QUESTION :: renderParams p params) ++
      fragment.elim [] fun fragment => HASH :: fragment := by
    rw [← htext, List.append_assoc]
  obtain ⟨htake, hafter, hfragment⟩ := fragment_cut hfront fragment hshape
  have hquery : (text.take (text.idxOf HASH)).drop (path.text.length + 1) =
      renderParams p params := by
    rw [htake, drop_separator]
  have hinside : path.text.length < text.idxOf HASH := by
    rw [List.length_append, List.length_cons] at hafter
    omega
  have hend : text.idxOf HASH ≤ text.length := List.idxOf_le_length
  have hne : text ≠ [] := by
    rintro rfl
    rw [List.length_nil] at hend
    omega
  unfold Uri.parsePath
  dsimp only
  rw [if_neg hne, hsep, hpath, decode_escapes path.escapes, hfragment, hquery,
    parseParams_render]
  dsimp only
  rw [if_neg (by simp), if_neg (by omega), if_neg (by omega)]
  rfl

private theorem parsePath_decoded {uri uri' : Uri} {text : Bytes}
    (h : uri.parsePath text = some (uri', true)) (hne : text ≠ []) :
    uri'.path = (decode (text.take (text.idxOf QUESTION)) uri.path).2 := by
  unfold Uri.parsePath at h
  dsimp only at h
  rw [if_neg hne] at h
  split at h
  · cases h
  split at h
  · cases h
    rfl
  split at h
  · cases h
  split at h
  · cases h
  · cases h
    rfl

private theorem parsePath_fragment {fragment : Bytes} {uri' : Uri}
    (h : Uri.parsePath ⟨scheme, host, port, [], [], []⟩ (path.text ++ HASH :: fragment) =
      some (uri', true)) : path.path ++ [HASH] <+: uri'.path := by
  have htake : (path.text ++ HASH :: fragment).take
      ((path.text ++ HASH :: fragment).idxOf QUESTION) =
        path.text ++ HASH :: fragment.take (fragment.idxOf QUESTION) := by
    have hne : HASH ≠ QUESTION := by decide
    rw [List.idxOf_append_of_notMem path.noQuestion, List.idxOf_cons_ne _ hne, List.take_append,
      List.take_of_length_le (Nat.le_add_right _ _), Nat.add_sub_cancel_left, List.take_succ_cons]
  have hdecoded : path.path ++ [HASH] <+: (decode ((path.text ++ HASH :: fragment).take
      ((path.text ++ HASH :: fragment).idxOf QUESTION)) []).2 := by
    rw [htake, decode_append path.escapes, List.nil_append]
    unfold decode
    rw [if_neg (by decide)]
    exact decode_extends _ _
  have hne : path.text ++ HASH :: fragment ≠ [] := by simp
  rw [parsePath_decoded h hne]
  exact hdecoded

end Path

variable (u) in
theorem parsePath_target (h : u.Separable) (scheme : Bytes) (port : Int) :
    Uri.parsePath ⟨scheme, u.host, port, [], [], []⟩ u.target =
      some (⟨scheme, u.host, port, u.toUri.path, u.toUri.params, u.toUri.fragment⟩, true) := by
  unfold Url.target Url.pathText Url.query Url.fragmentText Url.toUri
  cases hpath : u.path with
  | none =>
      obtain ⟨hparams, hfragment⟩ := h.path hpath
      rw [hparams, hfragment]
      rfl
  | some p =>
      cases hparams : u.params with
      | nil =>
          have hfragment : u.fragment = none := by
            by_contra hsome
            exact h.query hsome hparams
          rw [hfragment]
          change Uri.parsePath _ (p.text ++ []) = _
          rw [List.append_nil, parsePath_path]
          rfl
      | cons q params =>
          have hfree : ∀ other ∈ q :: params, HASH ∉ other.text := hparams ▸ u.paramsFree
          have hkeys := u.keysDistinct
          rw [hparams] at hkeys
          change Uri.parsePath _ (p.text ++ (QUESTION :: renderParams q params ++
            u.fragment.elim [] fun fragment => HASH :: fragment)) = _
          rw [parsePath_query scheme u.host port hfree, emplaceAll_distinct hkeys]
          rfl

private theorem query_needed {p : UrlPath} (hpath : u.path = some p) {uri' : Uri}
    {scheme host : Bytes}
    {port : Int}
    (h : Uri.parsePath ⟨scheme, host, port, [], [], []⟩ u.target = some (uri', true))
    (hfound : uri'.path = p.path) : u.fragment ≠ none → u.params ≠ [] := by
  intro hsome hparams
  obtain ⟨fragment, hfragment⟩ := Option.ne_none_iff_exists'.mp hsome
  have htarget : u.target = p.text ++ HASH :: fragment := by
    rw [Url.target, Url.pathText, Url.query, Url.fragmentText, hpath, hparams, hfragment]
    rfl
  rw [htarget] at h
  have hlonger := (parsePath_fragment scheme host port h).length_le
  rw [hfound, List.length_append, List.length_singleton] at hlonger
  omega

variable (u)

private theorem parse_scheme :
    Uri.parse u.text = Uri.parseAuthority ⟨u.scheme, [], u.defaultPort, [], [], []⟩
      (u.host ++ (u.portText ++ u.target)) := by
  have hfree : COLON ∉ u.scheme := by
    unfold Url.scheme
    split
    · decide
    · decide
  have hfind : find (ascii "://") u.text = some u.scheme.length := by
    have hnot : ¬ COLON :: ascii "//" <:+: u.scheme := by
      intro hin
      exact hfree (hin.subset List.mem_cons_self)
    exact find_pattern (by decide) hnot _
  have htake : u.text.take u.scheme.length = u.scheme := by
    rw [Url.text, List.append_assoc, List.take_left]
  have hdrop : u.text.drop (u.scheme.length + 3) = u.host ++ (u.portText ++ u.target) :=
    List.drop_left' (by rw [List.length_append]; rfl)
  unfold Uri.parse
  rw [hfind]
  dsimp only
  rw [htake, hdrop]
  unfold Url.scheme Url.defaultPort
  cases u.https with
  | true => rfl
  | false => rfl

/-- `uri::parse` gives the components of a URL back if and only if no delimiter
of one is taken for that of another. -/
theorem url_parsed_iff : Uri.parse u.text = some (u.toUri, true) ↔ u.Separable := by
  rw [parse_scheme]
  constructor
  · intro h
    obtain ⟨hcolon, hplaced⟩ := delimiters_placed h rfl
    have hpath := atPath_iff.mp hplaced
    refine ⟨hcolon, hpath, ?_⟩
    rw [parseAuthority_found _ hcolon hplaced] at h
    cases hsome : u.path with
    | none =>
        intro hfragment
        exact absurd (hpath hsome).2 hfragment
    | some p =>
        apply query_needed hsome h
        rw [Url.toUri, hsome]
        rfl
  · intro h
    rw [parseAuthority_found _ h.colon (atPath_iff.mpr h.path)]
    exact parsePath_target u h u.scheme _

end Target

/-- `http://h/a:b`. -/
def Url.colonInPath : Url where
  https := false
  host := ascii "h"
  port := none
  path := some {
    text := ascii "/a:b"
    path := ascii "/a:b"
    escapes := escapes_raw (by decide)
    slash := ⟨ascii "a:b", rfl⟩
    noQuestion := by decide
    noHash := by decide }
  params := []
  fragment := none
  hostFree := by decide
  portRange := nofun
  paramsFree := nofun
  keysDistinct := List.Pairwise.nil

/-- `http://h#f`. -/
def Url.bareFragment : Url where
  https := false
  host := ascii "h"
  port := none
  path := none
  params := []
  fragment := some (ascii "f")
  hostFree := by decide
  portRange := nofun
  paramsFree := nofun
  keysDistinct := List.Pairwise.nil

/-- The path is cut at its colon and read as a port; the fragment is read as
part of the host. -/
theorem url_components_mixed :
    (Url.colonInPath.text = ascii "http://h/a:b" ∧
      Uri.parse (ascii "http://h/a:b") =
        some (⟨ascii "http", ascii "h/a", -1, [], [], []⟩, false) ∧
      Uri.parse Url.colonInPath.text ≠ some (Url.colonInPath.toUri, true)) ∧
    (Url.bareFragment.text = ascii "http://h#f" ∧
      Uri.parse (ascii "http://h#f") =
        some (⟨ascii "http", ascii "h#f", 80, ascii "/", [], []⟩, true) ∧
      Uri.parse Url.bareFragment.text ≠ some (Url.bareFragment.toUri, true)) := by
  decide

end Angel.Http
