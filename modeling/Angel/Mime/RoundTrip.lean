import Angel.Mime.Built
import Angel.Mime.Envelope

/-!
A multipart that is written by `str` and read in any segmentation: the parser
waits until the last byte and then has the tree.
-/

namespace Angel.Mime

open Angel.Lib Util Buffer Http

section

variable {order : Headers → Headers} {subtype : Bytes} {boundary : Boundary} {parts : List Tree}

/-- The body of the multipart. -/
def bodyOf (order : Headers → Headers) (boundary : Boundary) (parts : List Tree) : Bytes :=
  dashBoundary boundary.bytes ++ Tree.content.behind order boundary.bytes parts

theorem exists_body (horder : ∀ headers, (order headers).Perm headers) {extra : List HeaderLine}
    (hproper : Tree.Proper (.multipart subtype boundary extra parts))
    (hplain : Tree.Plain (.multipart subtype boundary extra parts)) :
    ∃ m : MultipartBody, m.WellFormed ∧ m.boundary = boundary ∧ m.text = bodyOf order boundary parts ∧
      m.tail = [] ∧ List.Forall₂ (Tree.IsEntity order boundary) parts m.parts := by
  cases hproper with
  | multipart hne hfree hproperParts =>
  cases hplain with
  | multipart _ hannounced hplainParts =>
  have hexists : ∀ part ∈ parts, ∃ entity, Tree.IsEntity order boundary part entity :=
    fun part hpart => Tree.exists_entity horder (hproperParts part hpart) (hplainParts part hpart)
      (hannounced part hpart) (hfree part hpart)
  obtain ⟨entities, hentities⟩ := exists_forall₂ hexists
  have hpadding : ∀ entity ∈ entities, entity.padding = .none :=
    forall_of_forall₂ hentities fun _ _ h => h.padding
  have hwires : entities.map Entity.wire = parts.map (Tree.wire order) :=
    map_eq_of_forall₂ hentities fun _ _ h => h.wire
  refine ⟨⟨none, boundary, entities, .none, none⟩, ⟨nofun, ne_nil_of_forall₂ hentities hne, ?_⟩, rfl,
    ?_, rfl, hentities⟩
  · exact forall_of_forall₂ hentities fun _ _ h => h.wellFormed
  · rw [MultipartBody.text, MultipartBody.front, Entity.behind_joined _ hpadding, hwires,
      ← Tree.behind_joined, bodyOf]
    simp [MultipartBody.tail, MultipartBody.ending, opening, Padding.none]

/-- What the parser makes of the segments of a body. -/
structure RoundTrips (subtype : Bytes) (boundary : Boundary) (parts : List Tree) (body : Bytes) :
    Prop where
  waits : ∀ segments more, segments.flatten ++ more = body → more ≠ [] →
    ∃ p buf, run feed (.ok (.notEnough, .create (multipartType subtype boundary.bytes), [])) segments =
      .ok (.notEnough, p, buf)
  parsed : ∀ segments, segments.flatten = body →
    ∃ p data nodes, run feed (.ok (.notEnough, .create (multipartType subtype boundary.bytes), []))
        segments = .ok (.ok, p, []) ∧
      p.root = some (.multipart data boundary.bytes .delimiter nodes [] none) ∧
      List.Forall₂ Matches parts nodes

theorem str_eq {extra : List HeaderLine} (date : Bytes) (order : Headers → Headers)
    (h : Tree.Proper (.multipart subtype boundary extra parts)) :
    (Tree.build (.multipart subtype boundary extra parts)).str date order =
      (Tree.build (.multipart subtype boundary extra parts)).base.str date order ++
        bodyOf order boundary parts := by
  cases h with
  | multipart hne _ hparts =>
      rw [Tree.build_multipart]
      exact Tree.str_multipart hne fun part hpart => Tree.str_attached (hparts part hpart)

private theorem body_eq {date body : Bytes} {extra : List HeaderLine}
    (h : Tree.Proper (.multipart subtype boundary extra parts))
    (hbody : (Tree.build (.multipart subtype boundary extra parts)).str date order =
      (Tree.build (.multipart subtype boundary extra parts)).base.str date order ++ body) :
    body = bodyOf order boundary parts :=
  List.append_cancel_left (hbody.symm.trans (str_eq date order h))

/-- The body of a tree whose subtypes are plain and whose inner multiparts are
announced is read back: the parser waits until the last byte and then has the
parts with their headers, in their order, and with the texts that were
encoded. -/
theorem multipart_round_trip (horder : ∀ headers, (order headers).Perm headers) (date : Bytes)
    {extra : List HeaderLine} (hproper : Tree.Proper (.multipart subtype boundary extra parts))
    (hplain : Tree.Plain (.multipart subtype boundary extra parts)) (body : Bytes)
    (hbody : (Tree.build (.multipart subtype boundary extra parts)).str date order =
      (Tree.build (.multipart subtype boundary extra parts)).base.str date order ++ body) :
    RoundTrips subtype boundary parts body := by
  have hsubtype : PlainSubtype subtype := by
    cases hplain with
    | multipart hsubtype _ _ => exact hsubtype
  obtain rfl := body_eq hproper hbody
  obtain ⟨m, hm, rfl, htext, htail, hentities⟩ := exists_body horder hproper hplain
  have htype := makeRoot_multipart hsubtype m.boundary
  have haccepted : ∀ part ∈ m.parts, part.Accepted :=
    forall_of_forall₂ hentities fun _ _ h => h.accepted
  refine ⟨?_, ?_⟩
  · intro segments more hstream hmore
    have hlong : m.tail.length < more.length := by
      rw [htail]
      exact List.length_pos_iff.mpr hmore
    exact (pending_waits hm htype haccepted (pending_start (hstream.trans htext.symm)) hlong).returns
  · intro segments hstream
    rcases body_run hm htype (hstream.trans htext.symm) with
      ⟨p, extra, back, hrun, hread, hextra, _⟩ | ⟨_, hnot⟩
    · rw [htail] at hextra
      obtain ⟨rfl, hback⟩ := List.append_eq_nil_iff.mp hextra
      obtain ⟨data, nodes, hroot, _, hnodes⟩ := hread.root
      have hclosing : closing p [] = (.ok, p, []) := rfl
      rw [hclosing, run_feed_ok, hback] at hrun
      exact ⟨p, data, nodes, hrun, hroot, forall₂_trans hentities hnodes fun _ _ _ hpart hnode =>
        hpart.shows _ _ hnode⟩
    · exact absurd haccepted hnot

def Tree.isMultipart : Tree → Bool
  | .text .. => false
  | .multipart .. => true

theorem Matches.isMultipart_eq {tree : Tree} {node : Node} (h : Matches tree node) :
    node.isMultipart = tree.isMultipart := by
  cases h with
  | text => rfl
  | multipart => rfl

private theorem map_isMultipart {trees : List Tree} {nodes : List Node}
    (h : List.Forall₂ Matches trees nodes) :
    nodes.map Node.isMultipart = trees.map Tree.isMultipart := by
  induction h with
  | nil => rfl
  | cons hpart _ ih => rw [List.map_cons, List.map_cons, hpart.isMultipart_eq, ih]

/-- The code and which parts of the root are multiparts. -/
def shape : Except Fault (ParseCode × MultipartParser × Bytes) → Option (ParseCode × List Bool)
  | .ok (code, p, _) => p.root.map fun root => (code, root.iterParts.map Node.isMultipart)
  | .error _ => none

theorem RoundTrips.shape_eq {body : Bytes} (h : RoundTrips subtype boundary parts body) :
    shape (run feed (.ok (.notEnough, .create (multipartType subtype boundary.bytes), [])) [body]) =
      some (.ok, parts.map Tree.isMultipart) := by
  obtain ⟨p, data, nodes, hresult, hroot, hmatches⟩ := h.parsed [body] (by simp)
  rw [hresult, shape, hroot, Option.map_some, Node.iterParts, map_isMultipart hmatches]

end

def outer : Boundary := generateBoundary 1 (ascii "0x1f4c2") 1700000000000000 (by decide)

def inner : Boundary := generateBoundary 2 (ascii "0x1f4c2") 1700000000000001 (by decide)

/-- A text in plain ASCII. -/
def note (subtype : Bytes) : TextPart where
  txtdata := ascii "hello"
  subtype := subtype
  charset := ascii "us-ascii"
  encoding := by decide

/-- A text that is quoted. -/
def letter : TextPart where
  txtdata := ascii "a=b" ++ CRLF
  subtype := ascii "html"
  charset := ascii "Latin-1"
  encoding := by decide

def subject : HeaderLine where
  name := ascii "Subject"
  value := ascii "re: notes"
  nameFree := by decide
  valueNonempty := by decide
  valueTrimmed := by decide
  valueFree := by decide

/-- Two versions of a text. -/
def versions : List Tree := [.text (note (ascii "plain")) [], .text letter []]

/-- The two versions, and a text behind them. -/
def letterParts : List Tree :=
  [.multipart (ascii "alternative") inner [subject] versions, .text (note (ascii "plain")) [subject]]

private theorem letterParts_proper :
    Tree.Proper (.multipart (ascii "mixed") outer [] letterParts) := by
  have hfreeOuter : ∀ part ∈ letterParts, part.FreeOf outer.bytes := by
    have hnote : ¬ delimiter outer.bytes <:+: (note (ascii "plain")).base.encodedData := by
      decide
    exact List.forall_mem_cons.mpr ⟨trivial, List.forall_mem_singleton.mpr hnote⟩
  have hfreeInner : ∀ part ∈ versions, part.FreeOf inner.bytes := by
    have hnote : ¬ delimiter inner.bytes <:+: (note (ascii "plain")).base.encodedData := by
      decide
    have hletter : ¬ delimiter inner.bytes <:+: letter.base.encodedData := by
      decide
    exact List.forall_mem_cons.mpr ⟨hnote, List.forall_mem_singleton.mpr hletter⟩
  have hversions : ∀ part ∈ versions, part.Proper :=
    List.forall_mem_cons.mpr ⟨.text, List.forall_mem_singleton.mpr .text⟩
  have hinner : Tree.Proper (.multipart (ascii "alternative") inner [subject] versions) :=
    .multipart (by simp [versions]) hfreeInner hversions
  apply Tree.Proper.multipart (by simp [letterParts]) hfreeOuter
  exact List.forall_mem_cons.mpr ⟨hinner, List.forall_mem_singleton.mpr .text⟩

private theorem letterParts_plain :
    Tree.Plain (.multipart (ascii "mixed") outer [] letterParts) := by
  have hplain : PlainSubtype (ascii "plain") := by
    unfold PlainSubtype
    decide
  have hhtml : PlainSubtype (ascii "html") := by
    unfold PlainSubtype
    decide
  have halternative : PlainSubtype (ascii "alternative") := by
    unfold PlainSubtype
    decide
  have hmixed : PlainSubtype (ascii "mixed") := by
    unfold PlainSubtype
    decide
  have hannounced : ascii "alternative" ≠ ascii "form-data" := by decide
  have hversions : Tree.Plain (.multipart (ascii "alternative") inner [subject] versions) :=
    .multipart halternative (List.forall_mem_cons.mpr ⟨trivial, List.forall_mem_singleton.mpr trivial⟩)
      (List.forall_mem_cons.mpr ⟨.text hplain, List.forall_mem_singleton.mpr (.text hhtml)⟩)
  exact .multipart hmixed
    (List.forall_mem_cons.mpr ⟨hannounced, List.forall_mem_singleton.mpr trivial⟩)
    (List.forall_mem_cons.mpr ⟨hversions, List.forall_mem_singleton.mpr (.text hplain)⟩)

theorem multipart_round_trip_letter :
    RoundTrips (ascii "mixed") outer letterParts (bodyOf id outer letterParts) :=
  multipart_round_trip (fun headers => List.Perm.refl headers) (ascii "Tue, 14 Nov 2023 22:13:20 GMT")
    letterParts_proper letterParts_plain (bodyOf id outer letterParts) (str_eq _ _ letterParts_proper)

/-- A form-data multipart that is attached to a multipart. -/
def formParts : List Tree :=
  [.multipart (ascii "form-data") inner [] [.text (note (ascii "plain")) []]]

/-- Subtypes with a slash, a semicolon and the end of a line. -/
def oddSubtypes : List Bytes := [ascii "a/b", ascii "plain; a=\"", ascii "plain" ++ CRLF]

def oddParts (subtype : Bytes) : List Tree := [.text (note subtype) []]

private theorem oddParts_shape : ∀ subtype ∈ oddSubtypes,
    shape (run feed (.ok (.notEnough, .create (multipartType (ascii "mixed") outer.bytes), []))
      [bodyOf id outer (oddParts subtype)]) ≠ some (.ok, [false]) := by
  decide +kernel

private theorem oddParts_proper (subtype : Bytes) :
    Tree.Proper (.multipart (ascii "mixed") outer [] (oddParts subtype)) := by
  have hnote : ¬ delimiter outer.bytes <:+: (note subtype).base.encodedData := by
    have hdata : (note subtype).base.encodedData = ascii "hello" := (note subtype).base_eq.2
    rw [hdata]
    decide
  exact .multipart (by simp [oddParts]) (List.forall_mem_singleton.mpr hnote)
    (List.forall_mem_singleton.mpr .text)

/-- The form-data multipart is read as a text without an encoding, and at an odd
subtype the parser stops. -/
theorem round_trip_fails :
    (¬ outer.bytes <+: inner.bytes ∧ ¬ inner.bytes <+: outer.bytes ∧
      ¬ delimiter outer.bytes <:+: (note (ascii "plain")).base.encodedData) ∧
    (Tree.Proper (.multipart (ascii "mixed") outer [] formParts) ∧
      (Tree.build (.multipart (ascii "mixed") outer [] formParts)).str [] id =
        (Tree.build (.multipart (ascii "mixed") outer [] formParts)).base.str [] id ++
          bodyOf id outer formParts ∧
      ¬ RoundTrips (ascii "mixed") outer formParts (bodyOf id outer formParts)) ∧
    ∀ subtype ∈ oddSubtypes,
      Tree.Proper (.multipart (ascii "mixed") outer [] (oddParts subtype)) ∧
      (Tree.build (.multipart (ascii "mixed") outer [] (oddParts subtype))).str [] id =
        (Tree.build (.multipart (ascii "mixed") outer [] (oddParts subtype))).base.str [] id ++
          bodyOf id outer (oddParts subtype) ∧
      ¬ RoundTrips (ascii "mixed") outer (oddParts subtype) (bodyOf id outer (oddParts subtype)) := by
  have hnote : ¬ delimiter inner.bytes <:+: (note (ascii "plain")).base.encodedData := by
    decide
  have hform : Tree.Proper (.multipart (ascii "form-data") inner [] [.text (note (ascii "plain")) []]) :=
    .multipart (by simp) (List.forall_mem_singleton.mpr hnote) (List.forall_mem_singleton.mpr .text)
  have hformParts : Tree.Proper (.multipart (ascii "mixed") outer [] formParts) :=
    .multipart (by simp [formParts]) (List.forall_mem_singleton.mpr trivial)
      (List.forall_mem_singleton.mpr hform)
  refine ⟨by decide, ⟨hformParts, str_eq _ _ hformParts, ?_⟩, ?_⟩
  · intro h
    exact absurd h.shape_eq (by decide +kernel)
  · intro subtype hsubtype
    have hproper := oddParts_proper subtype
    refine ⟨hproper, str_eq _ _ hproper, ?_⟩
    intro h
    exact oddParts_shape subtype hsubtype h.shape_eq

end Angel.Mime
