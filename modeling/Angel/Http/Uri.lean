import Angel.Util
import Mathlib.Data.List.Infix

/-!
Percent-decoding and the parameters of a request target.
-/

namespace Angel.Http

open Util

def SLASH : UInt8 := 47

def PERCENT : UInt8 := 37

def AMPERSAND : UInt8 := 38

abbrev Params := List (Bytes × Bytes)

/-- `std::unordered_map::emplace` keeps an entry that is already there. -/
def Params.emplace (params : Params) (key value : Bytes) : Params :=
  if params.any (fun entry => entry.1 = key) then params else params ++ [(key, value)]

/-- `mime::codec::to_hex_value`. -/
def toHexValue (c : UInt8) : UInt8 := ((digit? c).getD 255).toUInt8

/-- `mime::codec::from_hex_pair`. -/
def fromHexPair (c1 c2 : UInt8) : UInt8 := (toHexValue c1 <<< 4) ||| toHexValue c2

/-- `uri::decode`: whether all escapes are valid, and `res` with what was
decoded appended. -/
def decode : (uri res : Bytes) → Bool × Bytes
  | [], res => (true, res)
  | c :: uri, res =>
      if c = PERCENT then
        match uri with
        | c1 :: c2 :: uri =>
            if (digit? c1).isSome ∧ (digit? c2).isSome then
              decode uri (res ++ [fromHexPair c1 c2])
            else (false, res)
        | _ => (false, res)
      else decode uri (res ++ [c])

/-- The loop of `uri::parse_params` over the arguments. -/
def parseArgs : List Bytes → Params → Bool × Params
  | [], params => (true, params)
  | arg :: args, params =>
      let sep := arg.idxOf EQUALS
      if sep = arg.length then (false, params)
      else
        match decode (arg.take sep) [], decode (arg.drop (sep + 1)) [] with
        | (true, key), (true, value) => parseArgs args (params.emplace key value)
        | _, _ => (false, params)

def parseParams (text : Bytes) (params : Params) : Bool × Params :=
  parseArgs (split text AMPERSAND) params

/-- `text` is a valid percent-encoding of `value`. -/
inductive Escapes : (text value : Bytes) → Prop where
  | nil : Escapes [] []
  | raw {b : UInt8} {text value : Bytes} (hb : b ≠ PERCENT) (h : Escapes text value) :
      Escapes (b :: text) (b :: value)
  | escaped {c1 c2 b : UInt8} {d1 d2 : Nat} {text value : Bytes} (h1 : digit? c1 = some d1)
      (h2 : digit? c2 = some d2) (hb : b.toNat = 16 * d1 + d2) (h : Escapes text value) :
      Escapes (PERCENT :: c1 :: c2 :: text) (b :: value)

theorem escapes_raw {text : Bytes} (h : PERCENT ∉ text) : Escapes text text := by
  induction text with
  | nil => exact .nil
  | cons c text ih =>
      have hc : c ≠ PERCENT := fun heq => h (heq ▸ List.mem_cons_self)
      exact .raw hc (ih fun hmem => h (List.mem_cons_of_mem c hmem))

private theorem digit?_lt {c : UInt8} {d : Nat} (h : digit? c = some d) : d < 16 := by
  unfold digit? at h
  simp only [UInt8.le_iff_toNat_le] at h
  have h57 : (57 : UInt8).toNat = 57 := rfl
  have h97 : (97 : UInt8).toNat = 97 := rfl
  have h102 : (102 : UInt8).toNat = 102 := rfl
  have h65 : (65 : UInt8).toNat = 65 := rfl
  have h70 : (70 : UInt8).toNat = 70 := rfl
  split at h
  · simp only [Option.some.injEq] at h
    omega
  · split at h
    · simp only [Option.some.injEq] at h
      omega
    · split at h
      · simp only [Option.some.injEq] at h
        omega
      · cases h

private theorem hexPair_toNat : ∀ d1 d2 : Fin 16,
    ((d1.val.toUInt8 <<< 4) ||| d2.val.toUInt8).toNat = 16 * d1.val + d2.val := by
  decide

private theorem fromHexPair_eq {c1 c2 b : UInt8} {d1 d2 : Nat} (h1 : digit? c1 = some d1)
    (h2 : digit? c2 = some d2) (hb : b.toNat = 16 * d1 + d2) : fromHexPair c1 c2 = b := by
  apply UInt8.toNat_inj.mp
  rw [hb, fromHexPair, toHexValue, toHexValue, h1, h2]
  exact hexPair_toNat ⟨d1, digit?_lt h1⟩ ⟨d2, digit?_lt h2⟩

theorem decode_append {text value : Bytes} (h : Escapes text value) (rest res : Bytes) :
    decode (text ++ rest) res = decode rest (res ++ value) := by
  induction h generalizing res with
  | nil => simp
  | raw hb _ ih =>
      rw [List.cons_append, decode.eq_def]
      dsimp only
      rw [if_neg hb, ih, List.append_assoc, List.singleton_append]
  | escaped h1 h2 hb _ ih =>
      rw [List.cons_append, decode.eq_def]
      dsimp only
      rw [if_pos rfl]
      dsimp only [List.cons_append]
      rw [if_pos ⟨by simp [h1], by simp [h2]⟩, fromHexPair_eq h1 h2 hb, ih, List.append_assoc,
        List.singleton_append]

theorem decode_escapes {text value : Bytes} (h : Escapes text value) (res : Bytes) :
    decode text res = (true, res ++ value) := by
  have hdecode := decode_append h [] res
  rw [List.append_nil] at hdecode
  rw [hdecode, decode]

theorem decode_extends (text res : Bytes) : res <+: (decode text res).2 := by
  induction text, res using decode.induct with
  | case1 res => exact List.prefix_refl _
  | case2 res c1 c2 text hdigits ih =>
      rw [decode, if_pos rfl, if_pos hdigits]
      exact (List.prefix_append _ _).trans ih
  | case3 res c1 c2 text hdigits =>
      rw [decode, if_pos rfl, if_neg hdigits]
  | case4 text res hshort => simp [decode]
  | case5 c text res hc ih =>
      unfold decode
      rw [if_neg hc]
      exact (List.prefix_append _ _).trans ih

/-- A parameter on the wire: `key=value`, both percent-encoded. -/
structure Param where
  keyText : Bytes
  valueText : Bytes
  key : Bytes
  value : Bytes
  keyEscapes : Escapes keyText key
  valueEscapes : Escapes valueText value
  keyFree : ∀ b ∈ keyText, b ≠ EQUALS ∧ b ≠ AMPERSAND
  valueFree : ∀ b ∈ valueText, b ≠ AMPERSAND

def Param.text (p : Param) : Bytes := p.keyText ++ EQUALS :: p.valueText

def Param.entry (p : Param) : Bytes × Bytes := (p.key, p.value)

/-- A query string: at least one parameter, joined by `&`. -/
def renderParams (p : Param) (params : List Param) : Bytes :=
  p.text ++ params.flatMap fun p => AMPERSAND :: p.text

def Params.emplaceAll (params : Params) (list : List Param) : Params :=
  list.foldl (fun params p => params.emplace p.key p.value) params

theorem emplaceAll_distinct {params : Params} {list : List Param}
    (hdistinct : (params ++ list.map Param.entry).Pairwise
      fun first second => first.1 ≠ second.1) :
    params.emplaceAll list = params ++ list.map Param.entry := by
  induction list generalizing params with
  | nil => simp [Params.emplaceAll]
  | cons p list ih =>
      have hnew : params.any (fun other => other.1 = p.key) = false := by
        rw [List.any_eq_false]
        intro other hother
        have hne := (List.pairwise_append.mp hdistinct).2.2 other hother p.entry
          List.mem_cons_self
        simpa [Param.entry] using hne
      have hshape : params ++ (p :: list).map Param.entry =
          (params ++ [p.entry]) ++ list.map Param.entry := by simp
      have hfirst : params.emplaceAll (p :: list) =
          Params.emplaceAll (params ++ [p.entry]) list := by
        change Params.emplaceAll (params.emplace p.key p.value) _ = _
        rw [Params.emplace, hnew]
        rfl
      rw [hfirst, hshape, ih (hshape ▸ hdistinct)]

theorem Param.text_free (p : Param) : AMPERSAND ∉ p.text := by
  intro hmem
  rcases List.mem_append.mp hmem with hkey | hvalue
  · exact (p.keyFree AMPERSAND hkey).2 rfl
  · rcases List.mem_cons.mp hvalue with hmark | hvalue
    · exact absurd hmark (by decide)
    · exact p.valueFree AMPERSAND hvalue rfl

private theorem split_renderParams (p : Param) (params : List Param) :
    split (renderParams p params) AMPERSAND = (p :: params).map Param.text := by
  have hfree : ∀ text ∈ params.map Param.text, AMPERSAND ∉ text := by
    intro text htext
    obtain ⟨q, -, rfl⟩ := List.mem_map.mp htext
    exact q.text_free
  have hsplit := split_pieces AMPERSAND p.text (params.map Param.text) p.text_free hfree
  rwa [List.flatMap_map] at hsplit

private theorem parseArgs_texts (list : List Param) (params : Params) :
    parseArgs (list.map Param.text) params = (true, params.emplaceAll list) := by
  induction list generalizing params with
  | nil => rfl
  | cons p list ih =>
      have hfree : EQUALS ∉ p.keyText := fun hmem => (p.keyFree EQUALS hmem).1 rfl
      have hsep : p.text.idxOf EQUALS = p.keyText.length := by
        rw [Param.text, idxOf_separator hfree]
      have hkey : p.text.take p.keyText.length = p.keyText := by simp [Param.text]
      have hvalue : p.text.drop (p.keyText.length + 1) = p.valueText := by
        rw [Param.text, drop_separator]
      have hinside : p.keyText.length ≠ p.text.length := by simp [Param.text]
      rw [List.map_cons, parseArgs]
      rw [hsep, if_neg hinside, hkey, hvalue, decode_escapes p.keyEscapes,
        decode_escapes p.valueEscapes]
      exact ih _

theorem parseParams_render (p : Param) (list : List Param) (params : Params) :
    parseParams (renderParams p list) params = (true, params.emplaceAll (p :: list)) := by
  rw [parseParams, split_renderParams, parseArgs_texts]

end Angel.Http
