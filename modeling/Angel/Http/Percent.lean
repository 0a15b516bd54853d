import Angel.Http.RequestLine

/-!
Percent-encoding as a whole: what `uri::decode` and `uri::parse_params` make of
what `uri::encode` writes, and which characters it writes. The search for a
character of `"-_.~"` finds the null character as well, so that this one goes
out as it is.
-/

namespace Angel.Http

open Util Buffer

theorem decode_encode (s : Bytes) : decode (encode s) [] = (true, s) := by
  rw [decode_escapes (encode_escapes s), List.nil_append]

/-- `encode(k) '=' encode(v)` of each entry, joined with `'&'`. -/
def joinParams (entries : Params) : Bytes :=
  [AMPERSAND].intercalate (entries.map fun entry => encode entry.1 ++ EQUALS :: encode entry.2)

private theorem joinParams_eq (entry : Bytes × Bytes) (entries : Params) :
    joinParams (entry :: entries) =
      renderParams (encodeParam entry) (entries.map encodeParam) := by
  induction entries generalizing entry with
  | nil => simp [joinParams, renderParams, List.intercalate, encodeParam, Param.text]
  | cons next entries ih =>
      have hjoin : joinParams (entry :: next :: entries) =
          (encodeParam entry).text ++ AMPERSAND :: joinParams (next :: entries) := by
        simp [joinParams, List.intercalate, encodeParam, Param.text]
      rw [hjoin, ih]
      simp [renderParams]

private theorem parseParams_joinParams {entries : Params} (hne : entries ≠ [])
    (hdistinct : (entries.map Prod.fst).Nodup) :
    parseParams (joinParams entries) [] = (true, entries) := by
  obtain ⟨entry, rest, rfl⟩ := List.exists_cons_of_ne_nil hne
  have hkeys : (([] : Params) ++ ((entry :: rest).map encodeParam).map Param.entry).Pairwise
      fun first second => first.1 ≠ second.1 := by
    rw [entry_encodeParam]
    exact List.pairwise_map.mp hdistinct
  have hparse := parseParams_render (encodeParam entry) (rest.map encodeParam) []
  rw [← List.map_cons, emplaceAll_distinct hkeys, entry_encodeParam] at hparse
  rw [joinParams_eq, hparse]
  rfl

/-- Every string comes back from its encoding, and every map of parameters from
its entries joined in any order. -/
theorem percent_round_trip :
    (∀ s : Bytes, decode (encode s) [] = (true, s)) ∧
      ∀ params order : Params, (params.map Prod.fst).Nodup → params ≠ [] → order.Perm params →
        ∃ res, parseParams (joinParams order) [] = (true, res) ∧ res.Perm params := by
  refine ⟨decode_encode, ?_⟩
  intro params order hdistinct hne horder
  have hkeys : (order.map Prod.fst).Nodup := (horder.map Prod.fst).nodup_iff.mpr hdistinct
  have hentries : order ≠ [] := by
    rintro rfl
    exact hne horder.nil_eq.symm
  exact ⟨order, parseParams_joinParams hentries hkeys, horder⟩

/-- Two parameters whose characters are all escaped, the second one first. -/
theorem percent_round_trip_pair :
    let params : Params := [(ascii "&=", ascii "%"), ([0, 255], ascii "=&")]
    ∃ res, parseParams (joinParams params.reverse) [] = (true, res) ∧ res.Perm params :=
  percent_round_trip.2 _ _ (by decide) (by decide) (List.reverse_perm _)

/-- What the contract leaves as it is: `-_.~`, letters and numbers. -/
def unreserved (c : UInt8) : Bool := isalnum c || (ascii "-_.~").contains c

def isUpperHex (c : UInt8) : Bool := isdigit c || (65 ≤ c && c ≤ 70)

/-- Unreserved characters and escapes in upper case. -/
inductive Encoded : Bytes → Prop where
  | nil : Encoded []
  | raw {c : UInt8} {text : Bytes} (hc : unreserved c = true) (h : Encoded text) :
      Encoded (c :: text)
  | escaped {c1 c2 : UInt8} {text : Bytes} (h1 : isUpperHex c1 = true)
      (h2 : isUpperHex c2 = true) (h : Encoded text) : Encoded (PERCENT :: c1 :: c2 :: text)

/-- The encoding of a byte by the contract. -/
def contractByte (c : UInt8) : Bytes :=
  if unreserved c then [c] else Mime.QP.toHexPair PERCENT c

private theorem unescaped_eq (c : UInt8) : unescaped c = (unreserved c || decide (c = 0)) := rfl

theorem encodeByte_ne_zero {c : UInt8} (hc : c ≠ 0) : encodeByte c = contractByte c := by
  rw [encodeByte, unescaped_eq, decide_eq_false hc, Bool.or_false]
  rfl

private theorem toHexPair_upper (c : UInt8) :
    isUpperHex (Mime.QP.tohexchar.getD (c >>> 4).toNat 0) = true ∧
      isUpperHex (Mime.QP.tohexchar.getD (c &&& 0x0f).toNat 0) = true := by
  revert c
  apply forall_byte
  decide +kernel

theorem encoded_contractByte (c : UInt8) {text : Bytes} (h : Encoded text) :
    Encoded (contractByte c ++ text) := by
  unfold contractByte
  split
  · next hraw => exact .raw hraw h
  · obtain ⟨h1, h2⟩ := toHexPair_upper c
    exact .escaped h1 h2 h

theorem Encoded.zero_notMem {text : Bytes} (h : Encoded text) : 0 ∉ text := by
  have hdigit : ∀ c, isUpperHex c = true → 0 ≠ c := by
    rintro c hc rfl
    exact absurd hc (by decide)
  induction h with
  | nil => exact List.not_mem_nil
  | raw hc _ ih =>
      refine List.not_mem_cons_of_ne_of_not_mem ?_ ih
      rintro rfl
      exact absurd hc (by decide)
  | escaped h1 h2 _ ih =>
      simp only [List.mem_cons, not_or]
      exact ⟨by decide, hdigit _ h1, hdigit _ h2, ih⟩

private theorem encode_eq_contract {s : Bytes} (h : 0 ∉ s) : encode s = s.flatMap contractByte := by
  have hbyte : ∀ c ∈ s, encodeByte c = contractByte c := by
    intro c hc
    refine encodeByte_ne_zero ?_
    rintro rfl
    exact h hc
  exact List.flatMap_congr hbyte

private theorem encoded_contract (s : Bytes) : Encoded (s.flatMap contractByte) := by
  induction s with
  | nil => exact .nil
  | cons c s ih => exact encoded_contractByte c ih

/-- What is written keeps to the alphabet, and all else is escaped, as long as
there is no null character in the text. -/
theorem encode_alphabet_iff (s : Bytes) :
    (Encoded (encode s) ∧ encode s = s.flatMap contractByte) ↔ 0 ∉ s := by
  constructor
  · rintro ⟨hencoded, -⟩ hmem
    refine hencoded.zero_notMem ?_
    exact List.mem_flatMap.mpr ⟨0, hmem, by decide⟩
  · intro h
    rw [encode_eq_contract h]
    exact ⟨encoded_contract s, rfl⟩

/-- A null character goes into the request line. -/
theorem encode_null : ¬ ∀ s : Bytes, Encoded (encode s) := by
  intro h
  exact (h [0]).zero_notMem (by decide)

end Angel.Http
