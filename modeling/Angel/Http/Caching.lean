import Angel.Http.ByteRanges
import Angel.Http.FileStore
import Angel.Sha1.Digest

/-!
Clients that keep what they got. A `GET` that repeats the entity tag of an earlier answer, to ask
whether the content is still the same or for the rest of it, leaves the client with what the file
holds now, whatever has been stored in between. The tag is made from the digest of the file
(`generate_file_etag_by("sha1")`).
-/

namespace Angel.Http

open Util Lib Sha1

variable {W K : Type}

/-- `hex_digest` of a content. -/
def sha1Hex (content : Bytes) : Bytes := Standard.upperHex (Standard.digest content)

/-- The entity tag of a content. -/
def contentTag (content : Bytes) : Bytes := generateFileEtagBySha1 (sha1Hex content) content.length

/-- A request that asks whether the tagged content is still the one of the file. -/
structure Request.Revalidates (req : Request) (etag : Bytes) : Prop where
  get : req.reqMethod = .get
  range : req.headers.count (ascii "Range") = false
  ifNoneMatch : req.headers.find (ascii "If-None-Match") = some etag

section Tags

theorem isStrongEtag_contentTag (content : Bytes) :
    isStrongEtag (contentTag content) = true := by
  have hlast : (contentTag content).getLast? = some QUOTE := List.getLast?_concat
  have hlen : 2 ≤ (contentTag content).length := by
    simp only [contentTag, generateFileEtagBySha1, List.length_append, List.length_singleton]
    omega
  simp only [isStrongEtag, hlast, hlen, decide_true, Bool.and_true, Bool.true_and]
  rfl

theorem isEtag_contentTag (content : Bytes) : isEtag (contentTag content) = true := by
  rw [isEtag, isStrongEtag_contentTag, Bool.true_or]

theorem weakEtagEqual_contentTag (old new : Bytes) :
    weakEtagEqual (contentTag old) (contentTag new) =
      decide (contentTag old = contentTag new) := by
  have hopaque : ∀ content, opaqueTag (contentTag content) = contentTag content := by
    intro content
    have hfirst : (ascii "W/").isPrefixOf (contentTag content) = false := rfl
    rw [opaqueTag, hfirst]
    exact if_neg Bool.false_ne_true
  simp [weakEtagEqual, isEtag_contentTag, hopaque]

theorem notMem_sha1Hex {c : UInt8} (hc : c ∉ 0 :: ascii "0123456789ABCDEF") (content : Bytes) :
    c ∉ sha1Hex content := by
  have hdigit : ∀ i, (ascii "0123456789ABCDEF").getD i 0 ∈ 0 :: ascii "0123456789ABCDEF" := by
    intro i
    rw [List.getD_eq_getElem?_getD]
    cases h : (ascii "0123456789ABCDEF")[i]? with
    | none => exact List.mem_cons_self
    | some d => exact List.mem_cons_of_mem _ (List.mem_of_getElem? h)
  intro hmem
  obtain ⟨b, -, hpair⟩ := List.mem_flatMap.mp hmem
  simp only [List.mem_cons, List.not_mem_nil, or_false] at hpair
  obtain rfl | rfl := hpair
  · exact hc (hdigit _)
  · exact hc (hdigit _)

theorem notMem_contentTag (content : Bytes) : COMMA ∉ contentTag content := by
  have hdigest : COMMA ∉ sha1Hex content := notMem_sha1Hex (by decide) content
  have hlen : COMMA ∉ decimal content.length := notMem_decimal rfl _
  have hquote : COMMA ≠ QUOTE := nofun
  have hminus : COMMA ≠ MINUS := nofun
  simp [contentTag, generateFileEtagBySha1, hdigest, hlen, hquote, hminus]

theorem contentTag_ne_star (content : Bytes) : contentTag content ≠ ascii "*" := by
  intro h
  exact absurd (congrArg List.head? h) (by simp [contentTag, generateFileEtagBySha1, ascii, QUOTE])

end Tags

namespace Disk

end Disk

section Answers

variable [DecidableEq K] {sys : System W} {server : Server W} {key : Bytes → K} {files : W → Files K}
  {w : W} {req : Request} {content old new etag : Bytes}

/-- With one entity tag in `If-None-Match`, the tag alone decides, and no other condition. -/
theorem Request.Revalidates.handleConditional (h : req.Revalidates (contentTag old))
    (hetag : req.etag = contentTag new) :
    req.handleConditional =
      if contentTag old = contentTag new then
        (.failed, [.setStatusCode .notModified, .send []])
      else (.successful, []) := by
  have hcode : req.ifNoneMatch =
      if contentTag old = contentTag new then
        (.failed, [.setStatusCode .notModified, .send []])
      else (.successful, []) := by
    simp [Request.ifNoneMatch, h.ifNoneMatch, h.get, contentTag_ne_star, split_free (notMem_contentTag old), hetag,
      weakEtagEqual_contentTag]
  unfold Request.handleConditional
  rw [hcode]
  split
  · rfl
  · rfl

theorem Request.Revalidates.serveFile (sys : System W) (server : Server W)
    (h : req.Revalidates (contentTag old))
    (hetag : req.etag = contentTag new) (w : W) (headers : Headers) :
    ∃ headers', server.serveFile sys w headers req =
      if contentTag old = contentTag new then
        some (w, req, req.addValidators ++ [.setStatusCode .notModified, .send []])
      else
        some ((sendFile sys (server.handleFileRouter w headers' req).1 req).1, req,
          req.addValidators ++ (server.handleFileRouter w headers' req).2 ++
            (sendFile sys (server.handleFileRouter w headers' req).1 req).2) := by
  have hrange : req.ifRange = req := by
    unfold Request.ifRange
    split
    · rfl
    · simp [h.range]
  refine ⟨req.validators.foldl (fun h entry => h.emplace entry.1 entry.2) headers, ?_⟩
  simp only [Server.serveFile, hrange, h.handleConditional hetag]
  split
  · simp
  · simp [h.get, h.range]

section Resumes

variable {k : Nat}

end Resumes

end Answers

end Angel.Http
