import Angel.Lib.Related
import Angel.Mime.Grammar

/-!
What `str` writes of a tree is of the grammar: every part that is attached
stands for an entity, and a node that shows the entity says what the tree says.
-/

namespace Angel.Mime

open Angel.Lib Util Buffer Http

/-- A node says what the tree says: the headers, in some order, the text, and
the same of the parts. -/
inductive Matches : Tree → Node → Prop where
  | text {part : TextPart} {extra : List HeaderLine} {data : NodeData}
      (hheaders : data.headers.Perm (Tree.headers (.text part extra)))
      (hbody : data.body = part.txtdata) : Matches (.text part extra) (.part data)
  | multipart {subtype : Bytes} {boundary : Boundary} {extra : List HeaderLine} {parts : List Tree}
      {data : NodeData} {nodes : List Node}
      (hheaders : data.headers.Perm (Tree.headers (.multipart subtype boundary extra parts)))
      (hparts : List.Forall₂ Matches parts nodes) :
      Matches (.multipart subtype boundary extra parts)
        (.multipart data boundary.bytes .delimiter nodes [] none)

/-- An entity that stands for a tree attached to a multipart. -/
structure Tree.IsEntity (order : Headers → Headers) (boundary : Boundary) (tree : Tree)
    (entity : Entity) : Prop where
  wellFormed : entity.WellFormed boundary
  accepted : entity.Accepted
  padding : entity.padding = .none
  wire : entity.wire = tree.wire order
  shows : ∀ own node, Shows own entity node → Matches tree node

namespace Tree

section

variable {order : Headers → Headers} {boundary : Boundary}

theorem not_delimiter_infix_nil (boundary : Boundary) : ¬ delimiter boundary.bytes <:+: [] := by
  intro hin
  cases List.infix_nil.mp hin

private theorem announces_multipart {headers' : Headers} {subtype : Bytes} {extra : List HeaderLine}
    {parts : List Tree} (h : Plain (.multipart subtype boundary extra parts))
    (hsubtype : subtype ≠ ascii "form-data")
    (hperm : headers'.Perm (headers (.multipart subtype boundary extra parts))) :
    Announces headers' (multipartValue subtype boundary.bytes) boundary.bytes := by
  have hclean := (headers_clean h).perm hperm
  cases h with
  | multipart hplain _ _ =>
      have hmem : (ascii "Content-Type", multipartType subtype boundary.bytes) ∈ headers' := by
        rw [hperm.mem_iff, multipart_headers]
        apply mem_addAll
        rw [multipartBase_headers hsubtype hplain]
        exact List.mem_cons_self
      exact ⟨⟨_, hclean.find_eq hmem, parseContentType_multipart hplain boundary⟩,
        multipartValue_maintype hplain boundary.bytes, multipartValue_boundary subtype boundary.bytes⟩

private theorem exists_entity_text (horder : ∀ headers, (order headers).Perm headers)
    {part : TextPart}
    {extra : List HeaderLine} (hplain : PlainSubtype part.subtype)
    (hfree : FreeOf boundary.bytes (.text part extra)) :
    ∃ entity, IsEntity order boundary (.text part extra) entity := by
  have hperm := horder (headers (.text part extra))
  have hclean := (headers_clean (.text hplain)).perm hperm
  obtain ⟨fields, hfields, henter⟩ := hclean.exists_fields
  have hnode : ∀ own, getPartNode own (Headers.enterAll [] fields) =
      .ok (some (.part ⟨Headers.enterAll [] fields, part.contentValue, []⟩)) := by
    intro own
    rw [henter]
    exact getPartNode_text own hplain hperm
  have hdecode : ∀ data : NodeData, data.headers = Headers.enterAll [] fields → data.body = [] →
      data.decode part.base.encodedData = (true, { data with body := part.txtdata }) := by
    intro data hheaders hbody
    have hsame : data.headers.Perm (headers (.text part extra)) := by
      rw [hheaders, henter]
      exact hperm
    exact decode_text hplain hsame hbody
  refine ⟨.leaf .none fields part.base.encodedData, ?_, ?_, rfl, ?_, ?_⟩
  · exact .leaf hfree (getPartNode_single part.contentValue (hnode part.contentValue))
  · apply Entity.Accepted.leaf (typeRead_of_getPartNode _ (hnode part.contentValue))
    have hkept := decode_iff ⟨Headers.enterAll [] fields, part.contentValue, []⟩ part.base.encodedData
    rw [hdecode _ rfl rfl] at hkept
    exact hkept.mp rfl
  · rw [Entity.wire, Entity.fields, hfields]
    rfl
  · intro own node hshows
    cases hshows with
    | @leaf _ _ _ _ data hdata _ =>
        obtain ⟨hheaders, hbody⟩ := getPartNode_data own hdata
        rw [hdecode data hheaders hbody]
        refine .text ?_ rfl
        rw [hheaders, henter]
        exact hperm

private theorem exists_entity_multipart (horder : ∀ headers, (order headers).Perm headers)
    {subtype : Bytes}
    {inner : Boundary} {extra : List HeaderLine} {parts : List Tree}
    (hplain : Plain (.multipart subtype inner extra parts))
    (hannounced : Announced (.multipart subtype inner extra parts)) (hne : parts ≠ [])
    (hparts : ∀ part ∈ parts, ∃ entity, IsEntity order inner part entity) :
    ∃ entity, IsEntity order boundary (.multipart subtype inner extra parts) entity := by
  have hperm := horder (headers (.multipart subtype inner extra parts))
  have hclean := (headers_clean hplain).perm hperm
  obtain ⟨fields, hfields, henter⟩ := hclean.exists_fields
  obtain ⟨entities, hentities⟩ := exists_forall₂ hparts
  have hannounces : Announces (Headers.enterAll [] fields) (multipartValue subtype inner.bytes)
      inner.bytes := by
    rw [henter]
    exact announces_multipart hplain hannounced hperm
  have hpadding : ∀ entity ∈ entities, entity.padding = .none :=
    forall_of_forall₂ hentities fun _ _ h => h.padding
  have hwires : entities.map Entity.wire = parts.map (wire order) :=
    map_eq_of_forall₂ hentities fun _ _ h => h.wire
  refine ⟨.multipart .none fields none inner entities [], ?_, ?_, rfl, ?_, ?_⟩
  · apply Entity.WellFormed.multipart hannounces (.inl rfl) _ (ne_nil_of_forall₂ hentities hne)
    · exact forall_of_forall₂ hentities fun _ _ h => h.wellFormed
    · exact not_delimiter_infix_nil boundary
    · exact nofun
  · apply Entity.Accepted.multipart
    exact forall_of_forall₂ hentities fun _ _ h => h.accepted
  · rw [Entity.wire, Entity.content, Entity.behind_joined _ hpadding, hwires, ← behind_joined,
      Entity.fields, hfields, wire, content]
    simp only [opening, List.nil_append, List.append_nil]
  · intro own node hshows
    cases hshows with
    | multipart hheaders _ _ hlength hnodes =>
        have hshown := List.forall₂_iff_zip.mpr ⟨hlength, fun hmem => hnodes _ _ hmem⟩
        refine .multipart ?_ (forall₂_trans hentities hshown fun _ _ _ hpart hnode =>
          hpart.shows _ _ hnode)
        rw [hheaders, henter]
        exact hperm

theorem exists_entity (horder : ∀ headers, (order headers).Perm headers) {tree : Tree}
    (hproper : tree.Proper) (hplain : tree.Plain) (hannounced : tree.Announced)
    (hfree : tree.FreeOf boundary.bytes) : ∃ entity, IsEntity order boundary tree entity := by
  induction hproper generalizing boundary with
  | text =>
      cases hplain with
      | text hsubtype => exact exists_entity_text horder hsubtype hfree
  | multipart hne hinner _ ih =>
      apply exists_entity_multipart horder hplain hannounced hne
      cases hplain with
      | multipart _ hall hparts =>
          intro part hpart
          exact ih part hpart (hparts part hpart) (hall part hpart) (hinner part hpart)

end

end Tree

end Angel.Mime
