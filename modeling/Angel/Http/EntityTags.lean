import Angel.Http.Server

/-!
Lists of entity tags in `If-Match` and `If-None-Match`, as the rule `1#entity-tag`
lets them be written, and which of the tags the server finds in them.
-/

namespace Angel.Http

open Util

/-- An entity tag without a comma. -/
structure EntityTag where
  text : Bytes
  valid : isEtag text = true
  commaFree : COMMA ∉ text

/-- A further tag of a list, behind the blanks that follow its comma. -/
structure ListedTag where
  blanks : Bytes
  tag : EntityTag
  isBlank : ∀ b ∈ blanks, b = SP ∨ b = 9

structure TagList where
  first : EntityTag
  rest : List ListedTag

namespace TagList

def text (list : TagList) : Bytes :=
  list.first.text ++ list.rest.flatMap fun t => COMMA :: (t.blanks ++ t.tag.text)

def tags (list : TagList) : List EntityTag := list.first :: list.rest.map (·.tag)

/-- The tags with no blank in front of them. -/
def bare (list : TagList) : List EntityTag :=
  list.first :: (list.rest.filter fun t => t.blanks = []).map (·.tag)

/-- If there is a tag with the property then one with no blank in front of it
has it. -/
def Uncovered (list : TagList) (equal : Bytes → Bool) : Prop :=
  (∃ t ∈ list.tags, equal t.text = true) → ∃ t ∈ list.bare, equal t.text = true

end TagList

section

variable {list : TagList} {etag : Bytes}

private theorem isStrongEtag_head {s : Bytes} (h : isStrongEtag s = true) :
    s.head? = some QUOTE := by
  simp only [isStrongEtag, Bool.and_eq_true, decide_eq_true_eq] at h
  exact h.1.2

theorem isEtag_head {s : Bytes} (h : isEtag s = true) :
    s.head? = some QUOTE ∨ s.head? = some 87 := by
  rw [isEtag, Bool.or_eq_true] at h
  rcases h with hstrong | hweak
  · exact .inl (isStrongEtag_head hstrong)
  · rw [isWeakEtag, Bool.and_eq_true, List.isPrefixOf_iff_prefix] at hweak
    obtain ⟨tail, rfl⟩ := hweak.1
    exact .inr rfl

theorem not_isEtag_blank {b : UInt8} (h : b = SP ∨ b = 9) (s : Bytes) : isEtag (b :: s) = false := by
  rw [← Bool.not_eq_true]
  intro hetag
  rcases isEtag_head hetag with hhead | hhead <;> rcases h with rfl | rfl <;>
    exact absurd (Option.some.inj hhead) (by decide)

/-- Each of the two comparisons wants entity tags. -/
structure ComparesTags (equal : Bytes → Bytes → Bool) : Prop where
  isEtag : ∀ s etag, equal s etag = true → isEtag s = true

theorem strongEtagEqual_compares : ComparesTags strongEtagEqual := by
  refine ⟨?_⟩
  intro s etag h
  rw [strongEtagEqual, Bool.and_eq_true, Bool.and_eq_true] at h
  rw [isEtag, h.1.1, Bool.true_or]

theorem weakEtagEqual_compares : ComparesTags weakEtagEqual := by
  refine ⟨?_⟩
  intro s etag h
  rw [weakEtagEqual, Bool.and_eq_true, Bool.and_eq_true] at h
  exact h.1.1

theorem TagList.split_text (list : TagList) :
    split list.text COMMA = list.first.text :: list.rest.map fun t => t.blanks ++ t.tag.text := by
  have hfree : ∀ t : ListedTag, COMMA ∉ t.blanks ++ t.tag.text := by
    intro t hmem
    rcases List.mem_append.mp hmem with hblank | htag
    · rcases t.isBlank COMMA hblank with heq | heq <;> exact absurd heq (by decide)
    · exact t.tag.commaFree htag
  have hsplit := split_pieces COMMA list.first.text
    (list.rest.map fun t => t.blanks ++ t.tag.text) list.first.commaFree (by
      intro p hp
      obtain ⟨t, _, rfl⟩ := List.mem_map.mp hp
      exact hfree t)
  rwa [List.flatMap_map] at hsplit

/-- The pieces between the commas keep their blanks, and a tag behind a blank is
none. -/
theorem any_pieces_iff {equal : Bytes → Bytes → Bool} (hequal : ComparesTags equal) :
    (split list.text COMMA).any (equal · etag) = true ↔
      ∃ t ∈ list.bare, equal t.text etag = true := by
  rw [list.split_text, List.any_cons, Bool.or_eq_true, List.any_map, List.any_eq_true]
  constructor
  · rintro (hfirst | ⟨t, ht, hpiece⟩)
    · exact ⟨list.first, List.mem_cons_self, hfirst⟩
    · cases hblanks : t.blanks with
      | nil =>
          refine ⟨t.tag, List.mem_cons_of_mem _ (List.mem_map_of_mem ?_), ?_⟩
          · exact List.mem_filter.mpr ⟨ht, decide_eq_true hblanks⟩
          · simpa [hblanks] using hpiece
      | cons b blanks =>
          have hetag := hequal.isEtag _ _ hpiece
          simp only [hblanks, List.cons_append] at hetag
          have hblank : b = SP ∨ b = 9 := t.isBlank b (by rw [hblanks]; exact List.mem_cons_self)
          rw [not_isEtag_blank hblank] at hetag
          exact absurd hetag Bool.false_ne_true
  · rintro ⟨t, ht, hequal⟩
    rcases List.mem_cons.mp ht with rfl | ht
    · exact .inl hequal
    · obtain ⟨u, hu, rfl⟩ := List.mem_map.mp ht
      obtain ⟨hmem, hblanks⟩ := List.mem_filter.mp hu
      refine .inr ⟨u, hmem, ?_⟩
      simpa [of_decide_eq_true hblanks] using hequal

theorem TagList.mem_tags_of_mem_bare {t : EntityTag} (h : t ∈ list.bare) : t ∈ list.tags := by
  rcases List.mem_cons.mp h with rfl | ht
  · exact List.mem_cons_self
  · obtain ⟨u, hu, rfl⟩ := List.mem_map.mp ht
    exact List.mem_cons_of_mem _ (List.mem_map_of_mem (List.mem_filter.mp hu).1)

/-- The server's search finds a tag when there is one, if and only if it finds
one that is not covered. -/
theorem found_iff_uncovered {equal : Bytes → Bytes → Bool} (hequal : ComparesTags equal) :
    ((split list.text COMMA).any (equal · etag) = true ↔
      ∃ t ∈ list.tags, equal t.text etag = true) ↔ list.Uncovered (equal · etag) := by
  rw [any_pieces_iff hequal]
  constructor
  · intro h
    exact h.mpr
  · intro h
    refine ⟨?_, h⟩
    rintro ⟨t, ht, hequal⟩
    exact ⟨t, TagList.mem_tags_of_mem_bare ht, hequal⟩

theorem TagList.text_ne_star (list : TagList) : list.text ≠ ascii "*" := by
  intro heq
  have hhead : list.text.head? = list.first.text.head? := by
    rcases isEtag_head list.first.valid with hhead | hhead <;>
      obtain ⟨tail, htail⟩ := List.head?_eq_some_iff.mp hhead <;>
      rw [TagList.text, htail] <;> rfl
  rw [heq] at hhead
  rcases isEtag_head list.first.valid with hfirst | hfirst <;> rw [hfirst] at hhead <;>
    exact absurd (Option.some.inj hhead) (by decide)

private theorem ifMatch_successful_iff {req : Request}
    (hvalue : req.headers.find (ascii "If-Match") = some list.text) :
    req.ifMatch.1 = .successful ↔
      (split list.text COMMA).any (strongEtagEqual · req.etag) = true := by
  simp only [Request.ifMatch, hvalue, if_neg list.text_ne_star]
  split
  next h => exact iff_of_true rfl h
  next h => exact iff_of_false (by simp) h

private theorem ifNoneMatch_notModified_iff {req : Request}
    (hvalue : req.headers.find (ascii "If-None-Match") = some list.text)
    (hmethod : req.reqMethod = .get ∨ req.reqMethod = .head) :
    req.ifNoneMatch = (.failed, [.setStatusCode .notModified, .send []]) ↔
      (split list.text COMMA).any (weakEtagEqual · req.etag) = true := by
  simp only [Request.ifNoneMatch, hvalue, if_pos hmethod, list.text_ne_star, false_or]
  split
  next h => exact iff_of_true rfl h
  next h => exact iff_of_false (by simp) h

end

/-- Where a tag stands in the list does not matter as long as no blank is in
front of it: a tag behind a blank is not recognized, and the answer is right only
when there is an equal one without. -/
theorem entity_tag_lists_iff (list : TagList) (req : Request) :
    (req.headers.find (ascii "If-Match") = some list.text →
      ((req.ifMatch.1 = .successful ↔
        ∃ t ∈ list.tags, strongEtagEqual t.text req.etag = true) ↔
          list.Uncovered (strongEtagEqual · req.etag))) ∧
    (req.headers.find (ascii "If-None-Match") = some list.text →
      req.reqMethod = .get ∨ req.reqMethod = .head →
      ((req.ifNoneMatch = (.failed, [.setStatusCode .notModified, .send []]) ↔
        ∃ t ∈ list.tags, weakEtagEqual t.text req.etag = true) ↔
          list.Uncovered (weakEtagEqual · req.etag))) := by
  constructor
  · intro hvalue
    rw [ifMatch_successful_iff hvalue]
    exact found_iff_uncovered strongEtagEqual_compares
  · intro hvalue hmethod
    rw [ifNoneMatch_notModified_iff hvalue hmethod]
    exact found_iff_uncovered weakEtagEqual_compares

/-- A request for an entity with a header field. -/
def Request.conditional (field value etag : Bytes) : Request where
  message := ⟨[(ascii "Host", ascii "a"), (field, value)], [], 0, false, -1⟩
  state := .parseHeader
  reqMethod := .get
  absPath := ascii "/"
  httpVersion := .http11
  queryParams := []
  hasFile := true
  filesize := 5
  lastModified := []
  etag := etag

def tagA : EntityTag := ⟨ascii "\"a\"", by decide, by decide⟩

def tagB : EntityTag := ⟨ascii "\"b\"", by decide, by decide⟩

theorem entity_tag_lists_comma :
    let req := Request.conditional (ascii "If-Match") (ascii "\"a\",\"b\"") (ascii "\"b\"")
    (req.ifMatch.1 = .successful ↔
      ∃ t ∈ TagList.tags ⟨tagA, [⟨[], tagB, by simp⟩]⟩, strongEtagEqual t.text req.etag = true) :=
  ((entity_tag_lists_iff ⟨tagA, [⟨[], tagB, by simp⟩]⟩
    (.conditional (ascii "If-Match") (ascii "\"a\",\"b\"") (ascii "\"b\""))).1 rfl).mpr
      fun _ => ⟨tagB, List.mem_cons_of_mem _ List.mem_cons_self, by decide⟩

/-- The second of two tags, behind a comma and a blank. -/
theorem entity_tag_behind_blank :
    let list : TagList := ⟨tagA, [⟨[SP], tagB, by simp⟩]⟩
    list.text = ascii "\"a\", \"b\"" ∧
      (∃ t ∈ list.tags, strongEtagEqual t.text (ascii "\"b\"") = true) ∧
      (Request.conditional (ascii "If-Match") list.text (ascii "\"b\"")).ifMatch.1 = .failed ∧
      (Request.conditional (ascii "If-None-Match") list.text (ascii "\"b\"")).ifNoneMatch =
        (.successful, []) :=
  ⟨by decide, ⟨tagB, List.mem_cons_of_mem _ List.mem_cons_self, by decide⟩, by decide, by decide⟩

end Angel.Http
