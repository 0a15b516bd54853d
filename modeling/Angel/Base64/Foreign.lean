import Angel.Base64

/-!
Bytes that are not in the alphabet. Such a byte is written into the next slot
before it is classified, so the decoder's states are compared on the slots in
use only.
-/

namespace Angel.Base64

/-- States that differ only in slots that are written before they are read. -/
inductive Same : DecodeState → DecodeState → Prop where
  | empty (res : Bytes) (c d : Slots) : Same ⟨res, c, 0⟩ ⟨res, d, 0⟩
  | one (res : Bytes) (c0 c1 c2 c3 d1 d2 d3 : UInt8) :
      Same ⟨res, ⟨c0, c1, c2, c3⟩, 1⟩ ⟨res, ⟨c0, d1, d2, d3⟩, 1⟩
  | two (res : Bytes) (c0 c1 c2 c3 d2 d3 : UInt8) :
      Same ⟨res, ⟨c0, c1, c2, c3⟩, 2⟩ ⟨res, ⟨c0, c1, d2, d3⟩, 2⟩
  | three (res : Bytes) (c0 c1 c2 c3 d3 : UInt8) :
      Same ⟨res, ⟨c0, c1, c2, c3⟩, 3⟩ ⟨res, ⟨c0, c1, c2, d3⟩, 3⟩

inductive SameStep : DecodeStep → DecodeStep → Prop where
  | next {s t : DecodeState} (h : Same s t) : SameStep (.next s) (.next t)
  | done (res : Bytes) : SameStep (.done res) (.done res)

theorem Same.res_eq {s t : DecodeState} (h : Same s t) : s.res = t.res := by
  cases h <;> rfl

theorem Same.j_eq {s t : DecodeState} (h : Same s t) : s.j = t.j := by
  cases h <;> rfl

theorem Same.room {s t : DecodeState} (h : Same s t) : t.j < 4 := by
  cases h <;> simp

theorem Same.refl {s : DecodeState} (h : s.j < 4) : Same s s := by
  obtain ⟨res, ⟨c0, c1, c2, c3⟩, j⟩ := s
  have hcases : j = 0 ∨ j = 1 ∨ j = 2 ∨ j = 3 := by
    change j < 4 at h
    omega
  rcases hcases with rfl | rfl | rfl | rfl
  · exact .empty ..
  · exact .one ..
  · exact .two ..
  · exact .three ..

theorem Same.overwrite {s t : DecodeState} (h : Same s t) (v : UInt8) :
    Same { s with c := s.c.set s.j v } t := by
  cases h with
  | empty => exact .empty ..
  | one => exact .one ..
  | two => exact .two ..
  | three => exact .three ..

theorem Same.set {s t : DecodeState} (h : Same s t) (v w : UInt8) :
    Same { s with c := s.c.set s.j v } { t with c := t.c.set t.j w } := by
  cases h with
  | empty => exact .empty ..
  | one => exact .one ..
  | two => exact .two ..
  | three => exact .three ..

theorem Same.filled {s t : DecodeState} (h : Same s t) (v : UInt8) :
    SameStep (DecodeState.filled { s with c := s.c.set s.j v })
      (DecodeState.filled { t with c := t.c.set t.j v }) := by
  cases h with
  | empty => exact .next (.one ..)
  | one => exact .next (.two ..)
  | two => exact .next (.three ..)
  | three res c0 c1 c2 =>
      -- the accumulator is full and the slots agree
      change SameStep (DecodeState.filled ⟨res, ⟨c0, c1, c2, v⟩, 3⟩)
        (DecodeState.filled ⟨res, ⟨c0, c1, c2, v⟩, 3⟩)
      cases hfull : DecodeState.filled ⟨res, ⟨c0, c1, c2, v⟩, 3⟩ with
      | done out => exact .done out
      | next s =>
          apply SameStep.next
          apply Same.refl
          simp only [DecodeState.filled] at hfull
          grind

theorem decodeStep_same (code : Encode) {s t : DecodeState} (h : Same s t) (ch : UInt8) :
    SameStep (decodeStep code s ch) (decodeStep code t ch) := by
  have hset := h.set (code.mapChar ch) (code.mapChar ch)
  simp only [decodeStep]
  split
  · exact h.filled _
  split
  · have hfilled := hset.filled EQ
    dsimp only at hfilled ⊢
    rw [h.j_eq] at hfilled hset ⊢
    split
    · exact .next hset
    · exact hfilled
  · exact .next hset

theorem decodeLoop_same (code : Encode) {s t : DecodeState} (h : Same s t) (data : Bytes) :
    decodeLoop code s data = decodeLoop code t data := by
  induction data generalizing s t with
  | nil => rw [decodeLoop, decodeLoop, h.j_eq, h.res_eq]
  | cons ch data ih =>
      have hstep := decodeStep_same code h ch
      rw [decodeLoop, decodeLoop]
      generalize decodeStep code s ch = a, decodeStep code t ch = b at hstep
      cases hstep with
      | next h' => exact ih h'
      | done res => rfl

/-- A byte that is neither in the alphabet nor a padding character. -/
def Foreign (code : Encode) (c : UInt8) : Prop := c ∉ code.alphabet ∧ c ≠ 61

private theorem mapchars_charAt (code : Encode) :
    ∀ p ∈ code.mapchars.zipIdx, p.1 = 0 ∨ (p.1 < 64 ∧ code.charAt p.1 = UInt8.ofNat p.2) := by
  have hstandard : ∀ p ∈ Encode.standard.mapchars.zipIdx,
      p.1 = 0 ∨ (p.1 < 64 ∧ Encode.standard.charAt p.1 = UInt8.ofNat p.2) := by decide +kernel
  cases code with
  | standard => exact hstandard
  | mime => exact hstandard
  | urlSafe => decide +kernel

private theorem mapChar_foreign {code : Encode} {c : UInt8} (h : Foreign code c) :
    code.mapChar c = 0 := by
  rw [Encode.mapChar, List.getD_eq_getElem?_getD]
  cases hcode : code.mapchars[c.toNat]? with
  | none => rfl
  | some i =>
      have hplace := mapchars_charAt code (i, c.toNat) (List.mem_zipIdx_iff_getElem?.mpr hcode)
      apply hplace.resolve_right
      rintro ⟨hi, hchar⟩
      rw [UInt8.ofNat_toNat] at hchar
      exact h.1 (hchar ▸ charAt_mem code hi)

private theorem decodeLoop_foreign {code : Encode} {c : UInt8} (hc : Foreign code c)
    {s : DecodeState}
    (hs : s.j < 4) (rest : Bytes) :
    decodeLoop code s (c :: rest) = decodeLoop code s rest := by
  have hskip : decodeStep code s c = .next { s with c := s.c.set s.j 0 } := by
    simp [decodeStep, mapChar_foreign hc, hc.2]
  rw [decodeLoop, hskip]
  exact decodeLoop_same code ((Same.refl hs).overwrite 0) rest

/-- The foreign byte may stand anywhere: every state that the decoder goes on
from has room for the next character. -/
theorem decodeLoop_insert {code : Encode} {c : UInt8} (hc : Foreign code c) {s : DecodeState}
    (hs : s.j < 4) (front rest : Bytes) :
    decodeLoop code s (front ++ c :: rest) = decodeLoop code s (front ++ rest) := by
  induction front generalizing s with
  | nil => exact decodeLoop_foreign hc hs rest
  | cons ch front ih =>
      have hstep := decodeStep_same code (Same.refl hs) ch
      rw [List.cons_append, List.cons_append, decodeLoop, decodeLoop]
      generalize decodeStep code s ch = a at hstep
      cases hstep with
      | next h' => exact ih h'.room
      | done res => rfl

private theorem decodeLoop_short (code : Encode) {s : DecodeState} {data : Bytes}
    (hres : s.res = [])
    (h : s.j + data.length < 4) : decodeLoop code s data = [] := by
  induction data generalizing s with
  | nil => rw [decodeLoop, hres, ite_self]
  | cons ch data ih =>
      rw [List.length_cons] at h
      have hfilled : ∀ slots, DecodeState.filled { s with c := slots } =
          .next { s with c := slots, j := s.j + 1 } := by
        intro slots
        exact if_pos (show s.j + 1 < 4 by omega)
      rw [decodeLoop, decodeStep]
      simp only [hfilled]
      split
      · next t hstep =>
          have ht : t.res = [] ∧ t.j ≤ s.j + 1 := by
            split at hstep
            · cases hstep
              exact ⟨hres, Nat.le_refl _⟩
            split at hstep
            · split at hstep <;> cases hstep <;> exact ⟨hres, by simp⟩
            · cases hstep
              exact ⟨hres, Nat.le_succ _⟩
          exact ih ht.1 (by omega)
      · next res hstep =>
          exfalso
          split at hstep
          · cases hstep
          split at hstep
          · split at hstep <;> cases hstep
          · cases hstep

/-- A foreign byte anywhere in the text changes nothing. -/
theorem base64Decode_insert {code : Encode} {c : UInt8} (hc : Foreign code c)
    (front rest : Bytes) :
    base64Decode (front ++ c :: rest) code = base64Decode (front ++ rest) code := by
  have hstart : (⟨[], ⟨0, 0, 0, 0⟩, 0⟩ : DecodeState).j < 4 := by decide
  have hinsert := decodeLoop_insert hc hstart front rest
  have hlen : (front ++ c :: rest).length = (front ++ rest).length + 1 := by
    simp only [List.length_append, List.length_cons]
    omega
  rw [base64Decode, base64Decode, hinsert, hlen]
  split
  · rw [if_pos (by omega)]
  split
  · next hshort => exact decodeLoop_short code rfl (by dsimp only; omega)
  · rfl

theorem base64Decode_insert_blank :
    base64Decode (ascii "QU" ++ 32 :: ascii "JD") .standard =
      base64Decode (ascii "QU" ++ ascii "JD") .standard :=
  base64Decode_insert ⟨by decide, by decide⟩ _ _

end Angel.Base64
