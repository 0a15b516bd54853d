import Angel.Mime.Parser

/-!
Header values with parameters. The scanner takes one parameter at a time, with
its value in quotes or without, and ends at the end of the text; a text without
a semicolon is not read at all.
-/

namespace Angel.Mime

open Angel.Lib Util Buffer Http

/-- A parameter as it is written. -/
structure Parameter where
  attr : Bytes
  value : Bytes
  quoted : Bool
  deriving DecidableEq, Repr

namespace Parameter

def valueText (p : Parameter) : Bytes := if p.quoted then 34 :: (p.value ++ [34]) else p.value

/-- `; attr=value`. -/
def text (p : Parameter) : Bytes := 59 :: 32 :: (p.attr ++ 61 :: p.valueText)

def entry (p : Parameter) : Bytes × Bytes := (p.attr, p.value)

/-- What the parts of a parameter may hold. -/
structure Plain (p : Parameter) : Prop where
  attr : ∀ c ∈ p.attr, c ≠ 61 ∧ c ≠ 59 ∧ c ≠ 0 ∧ c ≠ 32 ∧ c ≠ 9
  raw : p.quoted = false → p.value ≠ [] ∧ trim p.value = p.value ∧ ∀ c ∈ p.value, c ≠ 59 ∧ c ≠ 34
  inQuotes : p.quoted = true → ∀ c ∈ p.value, c ≠ 34 ∧ c ≠ 92

end Parameter

/-- The parameters as they are kept. -/
def entries (ps : List Parameter) : Headers := ps.map Parameter.entry

def parametersText (ps : List Parameter) : Bytes := ps.flatMap Parameter.text

/-- No two names are equal when case is ignored. -/
def DistinctAttrs (ps : List Parameter) : Prop :=
  ps.Pairwise fun p q => toLower p.attr ≠ toLower q.attr

instance (ps : List Parameter) : Decidable (DistinctAttrs ps) :=
  inferInstanceAs (Decidable (List.Pairwise _ ps))

/-- The scanner does not skip a part of the name as white space. -/
def StartsPlain (attr : Bytes) : Prop := ∀ c, attr.head? = some c → isspace c = false

theorem parseQuotedString_closing {s : Bytes} (h : ∀ c ∈ s, c ≠ 34 ∧ c ≠ 92) (rest : Bytes) :
    parseQuotedString (s ++ 34 :: rest) = some s.length := by
  induction s with
  | nil =>
      rw [List.nil_append, parseQuotedString.eq_def]
      rfl
  | cons c s ih =>
      obtain ⟨hquote, hbackslash⟩ := h c List.mem_cons_self
      have hnext := ih fun d hd => h d (List.mem_cons_of_mem c hd)
      rw [List.cons_append, parseQuotedString.eq_def]
      simp only [if_neg hbackslash, if_neg hquote, hnext, Option.map_some, List.length_cons]

theorem parameter_split {attr : Bytes} (hstart : StartsPlain attr) (hattr : 61 ∉ attr)
    (rest : Bytes) :
    (32 :: (attr ++ 61 :: rest)).dropWhile isspace = attr ++ 61 :: rest ∧
      find (ascii "=") (attr ++ 61 :: rest) = some attr.length ∧
      (attr ++ 61 :: rest).take attr.length = attr ∧
      (attr ++ 61 :: rest).drop (attr.length + 1) = rest := by
  refine ⟨?_, find_singleton 61 hattr rest, List.take_left, drop_separator 61 attr rest⟩
  rw [List.dropWhile_cons, if_pos (by decide)]
  cases attr with
  | nil => rfl
  | cons b attr =>
      rw [List.cons_append, List.dropWhile_cons, hstart b rfl, if_neg (by decide)]

/-- Where the text goes on behind a parameter. -/
inductive Behind : Bytes → Prop where
  | nothing : Behind []
  | semicolon (rest : Bytes) : Behind (59 :: rest)

/-- How the loop goes on when a parameter has been entered. -/
def afterParameter (parameters : Headers) : Bytes → Pass (Headers × Bytes) (Bool × Headers)
  | [] => .done (true, parameters)
  | _ :: rest => .again (parameters, rest)

theorem parameterPass_quoted {attr value behind : Bytes} (hstart : StartsPlain attr)
    (hattr : 61 ∉ attr) (hvalue : ∀ c ∈ value, c ≠ 34 ∧ c ≠ 92) (hbehind : Behind behind)
    (parameters : Headers) :
    parameterPass (parameters, 32 :: (attr ++ 61 :: 34 :: (value ++ 34 :: behind))) =
      afterParameter (parameters.emplace attr value) behind := by
  obtain ⟨hdrop, hfind, htake, hrest⟩ :=
    parameter_split hstart hattr (34 :: (value ++ 34 :: behind))
  have hquoted := parseQuotedString_closing hvalue behind
  have hne : attr ++ 61 :: 34 :: (value ++ 34 :: behind) ≠ [] := by simp
  rw [parameterPass]
  simp only [hdrop, if_neg hne, hfind, htake, hrest, if_true, hquoted, List.take_left,
    List.drop_left]
  cases hbehind with
  | nothing =>
      have hnone : find (ascii ";") [34] = none := by decide
      rw [hnone]
      rfl
  | semicolon rest =>
      have hfree : (59 : UInt8) ∉ [(34 : UInt8)] := by decide
      have hsome : find (ascii ";") (34 :: 59 :: rest) = some 1 := find_singleton 59 hfree rest
      rw [hsome]
      rfl

theorem parameterPass_raw {attr value behind : Bytes} (hstart : StartsPlain attr)
    (hattr : 61 ∉ attr) (hne : value ≠ []) (htrim : trim value = value)
    (hvalue : ∀ c ∈ value, c ≠ 59 ∧ c ≠ 34) (hbehind : Behind behind) (parameters : Headers) :
    parameterPass (parameters, 32 :: (attr ++ 61 :: (value ++ behind))) =
      afterParameter (parameters.emplace attr value) behind := by
  obtain ⟨c, value, rfl⟩ := List.exists_cons_of_ne_nil hne
  obtain ⟨hdrop, hfind, htake, hrest⟩ := parameter_split hstart hattr (c :: (value ++ behind))
  have hquote : c ≠ 34 := (hvalue c List.mem_cons_self).2
  have hfree : 59 ∉ c :: value := fun hmem => (hvalue 59 hmem).1 rfl
  have hsome : attr ++ 61 :: c :: (value ++ behind) ≠ [] := by simp
  change parameterPass (parameters, 32 :: (attr ++ 61 :: c :: (value ++ behind))) = _
  rw [parameterPass]
  simp only [hdrop, if_neg hsome, hfind, htake, hrest, if_neg hquote]
  cases hbehind with
  | nothing =>
      have hnone : find (ascii ";") (c :: value) = none := find_eq_none hfree
      rw [List.append_nil, hnone, htrim]
      rfl
  | semicolon rest =>
      have hstop : find (ascii ";") (c :: (value ++ 59 :: rest)) = some (c :: value).length :=
        find_singleton 59 hfree rest
      have htext : c :: (value ++ 59 :: rest) = c :: value ++ 59 :: rest := rfl
      rw [hstop, htext]
      simp only [List.take_left, htrim, drop_separator]
      rfl

private theorem parametersText_behind (ps : List Parameter) : Behind (parametersText ps) := by
  cases ps with
  | nil => exact .nothing
  | cons p ps => exact .semicolon _

theorem parameterPass_parameter {p : Parameter} (h : p.Plain) (hstart : StartsPlain p.attr)
    (ps : List Parameter) (parameters : Headers) :
    parameterPass (parameters, 32 :: (p.attr ++ 61 :: p.valueText) ++ parametersText ps) =
      afterParameter (parameters.emplace p.attr p.value) (parametersText ps) := by
  have hattr : 61 ∉ p.attr := fun hmem => (h.attr 61 hmem).1 rfl
  have hbehind := parametersText_behind ps
  rw [Parameter.valueText]
  cases hquoted : p.quoted with
  | true =>
      have hpass := parameterPass_quoted hstart hattr (h.inQuotes hquoted) hbehind parameters
      simp only [if_true, List.cons_append, List.append_assoc, List.nil_append]
      exact hpass
  | false =>
      obtain ⟨hne, htrim, hvalue⟩ := h.raw hquoted
      have hpass := parameterPass_raw hstart hattr hne htrim hvalue hbehind parameters
      simp only [Bool.false_eq_true, if_false, List.cons_append, List.append_assoc]
      exact hpass

private theorem count_false {headers : Headers} {field : Bytes}
    (h : ∀ entry ∈ headers, toLower entry.1 ≠ toLower field) : headers.count field = false := by
  rw [Headers.count, Headers.find]
  have hnone : headers.find? (fun entry => toLower entry.1 = toLower field) = none := by
    rw [List.find?_eq_none]
    intro entry hmem
    simpa using h entry hmem
  rw [hnone]
  rfl

private theorem entries_emplace {done : List Parameter} {p : Parameter}
    (h : ∀ q ∈ done, toLower q.attr ≠ toLower p.attr) :
    (entries done).emplace p.attr p.value = entries (done ++ [p]) := by
  have hnew : (entries done).count p.attr = false := by
    apply count_false
    intro entry hmem
    obtain ⟨q, hq, rfl⟩ := List.mem_map.mp hmem
    exact h q hq
  rw [Headers.emplace, hnew, entries, entries, List.map_append]
  rfl

private theorem loop_parameters (ps : List Parameter) (p : Parameter) (done : List Parameter)
    (fuel : Nat)
    (hplain : ∀ q ∈ p :: ps, q.Plain ∧ StartsPlain q.attr)
    (hdistinct : DistinctAttrs (done ++ p :: ps)) (hfuel : ps.length < fuel) :
    loop parameterPass fuel
        (entries done, 32 :: (p.attr ++ 61 :: p.valueText) ++ parametersText ps) =
      some (true, entries (done ++ p :: ps)) := by
  have hnew : ∀ {done : List Parameter} (p : Parameter) (ps : List Parameter),
      DistinctAttrs (done ++ p :: ps) → ∀ q ∈ done, toLower q.attr ≠ toLower p.attr :=
    fun p ps h q hq => (List.pairwise_append.mp h).2.2 q hq p List.mem_cons_self
  induction ps generalizing p done fuel with
  | nil =>
      have hpass := parameterPass_parameter (hplain p (by simp)).1 (hplain p (by simp)).2 []
        (entries done)
      rw [entries_emplace (hnew p [] hdistinct)] at hpass
      obtain ⟨fuel, rfl⟩ : ∃ n, fuel = n + 1 := ⟨fuel - 1, by omega⟩
      exact loop_done hpass fuel
  | cons q ps ih =>
      have hpass := parameterPass_parameter (hplain p (by simp)).1 (hplain p (by simp)).2 (q :: ps)
        (entries done)
      rw [entries_emplace (hnew p (q :: ps) hdistinct)] at hpass
      obtain ⟨fuel, rfl⟩ : ∃ n, fuel = n + 1 := ⟨fuel - 1, by omega⟩
      have hshape : done ++ p :: q :: ps = (done ++ [p]) ++ q :: ps := by simp
      have hnext : ∀ r ∈ q :: ps, r.Plain ∧ StartsPlain r.attr :=
        fun r hr => hplain r (List.mem_cons_of_mem p hr)
      rw [loop_again hpass, hshape]
      exact ih q (done ++ [p]) fuel hnext (hshape ▸ hdistinct) (Nat.lt_of_succ_lt_succ hfuel)

private theorem parametersText_length (ps : List Parameter) :
    ps.length ≤ (parametersText ps).length := by
  induction ps with
  | nil => exact Nat.le_refl _
  | cons p ps ih =>
      have htext : parametersText (p :: ps) = p.text ++ parametersText ps := rfl
      rw [htext, List.length_append, Parameter.text, List.length_cons, List.length_cons,
        List.length_cons]
      omega

theorem contentValue_parameters {value : Bytes} {p : Parameter} {ps : List Parameter}
    (hvalue : 59 ∉ value) (hplain : ∀ q ∈ p :: ps, q.Plain ∧ StartsPlain q.attr)
    (hdistinct : DistinctAttrs (p :: ps)) :
    ContentValue.parse (value ++ parametersText (p :: ps)) =
      .ok (true, ⟨value, entries (p :: ps)⟩) := by
  have htext : value ++ parametersText (p :: ps) =
      value ++ 59 :: (32 :: (p.attr ++ 61 :: p.valueText) ++ parametersText ps) := rfl
  have hfind : find (ascii ";")
      (value ++ 59 :: (32 :: (p.attr ++ 61 :: p.valueText) ++ parametersText ps)) =
        some value.length := find_singleton 59 hvalue _
  have hfuel : ps.length < (value ++ parametersText (p :: ps)).length + 1 := by
    have hlen := parametersText_length (p :: ps)
    rw [List.length_append]
    rw [List.length_cons] at hlen
    omega
  have hloop := loop_parameters ps p [] _ hplain hdistinct hfuel
  rw [htext] at hloop ⊢
  rw [ContentValue.parse, hfind]
  simp only [drop_separator, List.take_left]
  rw [show ([] : Headers) = entries [] from rfl, hloop]
  rfl

theorem startsPlain_take (s : Bytes) (n : Nat) : StartsPlain ((s.dropWhile isspace).take n) := by
  intro c hc
  have hhead : (s.dropWhile isspace).head? = some c := by
    rw [List.head?_take] at hc
    split at hc
    · cases hc
    · exact hc
  have hnot := List.head?_dropWhile_not isspace s
  rw [hhead] at hnot
  simpa using hnot

/-- No name in the map starts with white space. -/
def NamesPlain (parameters : Headers) : Prop := ∀ entry ∈ parameters, StartsPlain entry.1

theorem NamesPlain.emplace {parameters : Headers} (h : NamesPlain parameters) {attr : Bytes}
    (hattr : StartsPlain attr) (value : Bytes) : NamesPlain (parameters.emplace attr value) := by
  rw [Headers.emplace]
  split
  · exact h
  · intro entry hmem
    rcases List.mem_append.mp hmem with hmem | hmem
    · exact h entry hmem
    · exact List.mem_singleton.mp hmem ▸ hattr

private theorem parameterPass_namesPlain (s : Headers × Bytes) (h : NamesPlain s.1) :
    (∃ s', parameterPass s = .again s' ∧ NamesPlain s'.1) ∨
      ∃ r, parameterPass s = .done r ∧ NamesPlain r.2 := by
  obtain ⟨parameters, str⟩ := s
  have hemplace : ∀ n value,
      NamesPlain (parameters.emplace ((str.dropWhile isspace).take n) value) :=
    fun n value => h.emplace (startsPlain_take str n) value
  rw [parameterPass]
  dsimp only
  split
  · exact .inr ⟨_, rfl, h⟩
  split
  · exact .inr ⟨_, rfl, h⟩
  split
  · exact .inr ⟨_, rfl, h⟩
  split
  · split
    · exact .inr ⟨_, rfl, h⟩
    split
    · exact .inr ⟨_, rfl, hemplace _ _⟩
    · exact .inl ⟨_, rfl, hemplace _ _⟩
  · split
    · exact .inr ⟨_, rfl, hemplace _ _⟩
    · exact .inl ⟨_, rfl, hemplace _ _⟩

private theorem parse_namesPlain {str value : Bytes} {parameters : Headers}
    (h : ContentValue.parse str = .ok (true, ⟨value, parameters⟩)) : NamesPlain parameters := by
  rw [ContentValue.parse] at h
  split at h
  · cases h
  next pos hpos =>
  cases hloop : loop parameterPass (str.length + 1) ([], str.drop (pos + 1)) with
  | none =>
      rw [hloop] at h
      cases h
  | some r =>
      have hstart : NamesPlain ([] : Headers) := by
        intro entry hmem
        cases hmem
      have hnames := loop_sound_of_pass parameterPass_namesPlain hstart hloop
      rw [hloop] at h
      simp only [Option.getD_some, Except.ok.injEq, Prod.mk.injEq, ContentValue.mk.injEq] at h
      exact h.2.2 ▸ hnames

/-- A header value is read as it was written exactly when it has a parameter and
no name starts with other white space. -/
theorem contentValue_parse_iff (value : Bytes) (ps : List Parameter) (hvalue : 59 ∉ value)
    (hplain : ∀ p ∈ ps, p.Plain) (hdistinct : DistinctAttrs ps) :
    ContentValue.parse (value ++ parametersText ps) = .ok (true, ⟨value, entries ps⟩) ↔
      ps ≠ [] ∧ ∀ p ∈ ps, StartsPlain p.attr := by
  constructor
  · intro h
    refine ⟨?_, ?_⟩
    · rintro rfl
      have hnone : find (ascii ";") (value ++ parametersText []) = none := by
        rw [parametersText, List.flatMap_nil, List.append_nil]
        exact find_eq_none hvalue
      rw [ContentValue.parse, hnone] at h
      cases h
    · intro p hp
      exact parse_namesPlain h p.entry (List.mem_map_of_mem hp)
  · rintro ⟨hne, hstart⟩
    obtain ⟨p, ps, rfl⟩ := List.exists_cons_of_ne_nil hne
    exact contentValue_parameters hvalue (fun q hq => ⟨hplain q hq, hstart q hq⟩) hdistinct

/-- `form-data; name=a; filename="b;c"` -/
theorem contentValue_parse_two :
    ContentValue.parse (ascii "form-data" ++ parametersText
        [⟨ascii "name", ascii "a", false⟩, ⟨ascii "filename", ascii "b;c", true⟩]) =
      .ok (true, ⟨ascii "form-data",
        entries [⟨ascii "name", ascii "a", false⟩, ⟨ascii "filename", ascii "b;c", true⟩]⟩) := by
  apply (contentValue_parse_iff (ascii "form-data")
    [⟨ascii "name", ascii "a", false⟩, ⟨ascii "filename", ascii "b;c", true⟩]
    (by decide) ?_ (by decide)).mpr
  · refine ⟨List.cons_ne_nil _ _, ?_⟩
    intro p hp c hc
    simp only [List.mem_cons, List.not_mem_nil, or_false] at hp
    rcases hp with rfl | rfl
    · cases hc
      decide
    · cases hc
      decide
  · intro p hp
    simp only [List.mem_cons, List.not_mem_nil, or_false] at hp
    rcases hp with rfl | rfl
    · exact ⟨by decide, fun _ => by decide, fun h => absurd h (by decide)⟩
    · exact ⟨by decide, fun h => absurd h (by decide), fun _ => by decide⟩

/-- A value without parameters is not read: `assign` throws. -/
theorem contentValue_parse_fails : ¬ ∀ (value : Bytes) (ps : List Parameter), 59 ∉ value →
    (∀ p ∈ ps, p.Plain) → DistinctAttrs ps →
      ContentValue.parse (value ++ parametersText ps) = .ok (true, ⟨value, entries ps⟩) := by
  intro h
  have hparse := h (ascii "text/plain") [] (by decide) (by simp) List.Pairwise.nil
  have hthrows : ContentValue.parse (ascii "text/plain" ++ parametersText []) =
      .error .lengthError := by decide
  rw [hthrows] at hparse
  cases hparse

end Angel.Mime
