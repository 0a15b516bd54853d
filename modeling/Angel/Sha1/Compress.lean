import Angel.Sha1.Standard

/-!
The chunk function of the code is the compression function of the standard: the
round macros follow the schedule, and a run of chunks absorbs the blocks of its
data.
-/

namespace Angel.Sha1

open Angel.Lib Standard

theorem getD_drop (chunk : Bytes) (i j : Nat) :
    (chunk.drop i).getD j 0 = chunk.getD (i + j) 0 := by
  rw [List.getD_eq_getElem?_getD, List.getD_eq_getElem?_getD, List.getElem?_drop]

private theorem take_four_eq (s : Bytes) (h : 4 ≤ s.length) :
    s.take 4 = [s.getD 0 0, s.getD 1 0, s.getD 2 0, s.getD 3 0] := by
  match s, h with
  | x :: y :: z :: t :: _, _ => rfl

/-- Shifting four bytes into place builds the word that a big-endian load
gives. -/
theorem shiftWord_eq_load (x y z t : UInt8) :
    x.toUInt32 <<< 24 ||| y.toUInt32 <<< 16 ||| z.toUInt32 <<< 8 ||| t.toUInt32 =
      UInt32.ofNat (load [t, z, y, x]) := by
  have hx := x.toNat_lt
  have hy := y.toNat_lt
  have hz := z.toNat_lt
  have ht := t.toNat_lt
  apply UInt32.toNat_inj.mp
  have hlow : z.toNat <<< 8 ||| t.toNat = z.toNat * 2 ^ 8 + t.toNat := by
    rw [← Nat.shiftLeft_add_eq_or_of_lt (by omega), Nat.shiftLeft_eq]
  have hmid : y.toNat <<< 16 ||| (z.toNat * 2 ^ 8 + t.toNat) =
      y.toNat * 2 ^ 16 + (z.toNat * 2 ^ 8 + t.toNat) := by
    rw [← Nat.shiftLeft_add_eq_or_of_lt (by omega), Nat.shiftLeft_eq]
  have hsum : x.toNat <<< 24 ||| y.toNat <<< 16 ||| z.toNat <<< 8 ||| t.toNat =
      x.toNat * 2 ^ 24 + (y.toNat * 2 ^ 16 + (z.toNat * 2 ^ 8 + t.toNat)) := by
    rw [Nat.or_assoc, Nat.or_assoc, hlow, hmid, ← Nat.shiftLeft_add_eq_or_of_lt (by omega),
      Nat.shiftLeft_eq]
  have h24 : (x.toUInt32 <<< 24).toNat = x.toNat <<< 24 := by
    simp [Nat.shiftLeft_eq]
    omega
  have h16 : (y.toUInt32 <<< 16).toNat = y.toNat <<< 16 := by
    simp [Nat.shiftLeft_eq]
    omega
  have h8 : (z.toUInt32 <<< 8).toNat = z.toNat <<< 8 := by
    simp [Nat.shiftLeft_eq]
    omega
  rw [UInt32.toNat_or, UInt32.toNat_or, UInt32.toNat_or, h24, h16, h8, UInt8.toNat_toUInt32, hsum]
  simp only [load, UInt32.toNat_ofNat']
  omega

theorem chunkWord_eq_blockWord (chunk : Bytes) (i : Nat) (h : 4 * i + 4 ≤ chunk.length) :
    chunkWord chunk i = blockWord chunk i := by
  have hlen : 4 ≤ (chunk.drop (4 * i)).length := by
    rw [List.length_drop]
    omega
  rw [blockWord, take_four_eq _ hlen, getD_drop, getD_drop, getD_drop, getD_drop, chunkWord,
    shiftWord_eq_load]
  rfl

theorem blockWord_take (chunk : Bytes) (i : Nat) (h : i < 16) :
    blockWord (chunk.take 64) i = blockWord chunk i := by
  rw [blockWord, blockWord, List.drop_take, List.take_take, Nat.min_eq_left (by omega)]

/-- The variables of the code after `t` rounds, against the standard's. -/
structure Follows (block : Bytes) (h : Words) (t : Nat) (v : Vars) : Prop where
  words : v.words = (List.range t).foldl (step block) h
  w : ∀ i < t, v.w i = schedule block i

private theorem round_follows {block : Bytes} {h : Words} {t : Nat} {v : Vars}
    {f : UInt32 → UInt32 → UInt32 → UInt32} {word : (Nat → UInt32) → Nat → UInt32} {k : UInt32}
    (hv : Follows block h t v) (hf : f = Standard.f t) (hk : k = Standard.k t)
    (hword : word v.w t = schedule block t) : Follows block h (t + 1) (round f word k v t) := by
  constructor
  · rw [List.range_succ, List.foldl_append, ← hv.words, List.foldl_cons, List.foldl_nil, step,
      ← hf, ← hk, ← hword]
    simp only [round, Function.update_self]
    rfl
  · intro i hi
    rcases Nat.lt_succ_iff_lt_or_eq.mp hi with hlt | heq
    · exact (Function.update_of_ne hlt.ne _ _).trans (hv.w i hlt)
    · subst heq
      exact (Function.update_self _ _ _).trans hword

private theorem rounds_follow {block : Bytes} {h : Words} {start : Nat}
    {f : UInt32 → UInt32 → UInt32 → UInt32} (word : (Nat → UInt32) → Nat → UInt32) {k : UInt32}
    (n : Nat) {v : Vars} (hv : Follows block h start v)
    (hf : ∀ t, start ≤ t → t < start + n → f = Standard.f t)
    (hk : ∀ t, start ≤ t → t < start + n → k = Standard.k t)
    (hword : ∀ t w, start ≤ t → t < start + n → (∀ i < t, w i = schedule block i) →
      word w t = schedule block t) :
    Follows block h (start + n) ((List.range' start n).foldl (round f word k) v) := by
  induction n generalizing start v with
  | zero => exact hv
  | succ n ih =>
      have hstep := round_follows hv (hf start le_rfl (by omega)) (hk start le_rfl (by omega))
        (hword start v.w le_rfl (by omega) hv.w)
      have hrest := ih hstep (fun t h1 h2 => hf t (by omega) (by omega))
        (fun t h1 h2 => hk t (by omega) (by omega))
        (fun t w h1 h2 => hword t w (by omega) (by omega))
      rw [List.range'_succ, List.foldl_cons]
      rwa [Nat.add_right_comm, Nat.add_assoc] at hrest

private theorem extendWord_eq_schedule {block : Bytes} {w : Nat → UInt32} {t : Nat} (ht : 16 ≤ t)
    (hw : ∀ i < t, w i = schedule block i) : extendWord w t = schedule block t := by
  rw [schedule, if_neg (by omega), extendWord, hw _ (by omega), hw _ (by omega), hw _ (by omega),
    hw _ (by omega)]
  rfl

private theorem chunkCalOne_eq_compress (chunk : Bytes) (h : Words) (hlen : 64 ≤ chunk.length) :
    chunkCalOne chunk h = compress h (chunk.take 64) := by
  have hext : ∀ t (w : Nat → UInt32), 16 ≤ t →
      (∀ i < t, w i = schedule (chunk.take 64) i) → extendWord w t = schedule (chunk.take 64) t :=
    fun t w ht hw => extendWord_eq_schedule ht hw
  have hstart : Follows (chunk.take 64) h 0 { words := h, w := fun _ => 0 } :=
    ⟨rfl, fun i hi => absurd hi (Nat.not_lt_zero i)⟩
  have h1 : Follows (chunk.take 64) h 16
      ((List.range' 0 16).foldl (round1 chunk 0x5A827999) { words := h, w := fun _ => 0 }) := by
    refine rounds_follow _ 16 hstart ?_ ?_ ?_
    · intro t _ ht
      rw [Standard.f, if_pos (by omega)]
      rfl
    · intro t _ ht
      rw [Standard.k, if_pos (by omega)]
    · intro t w _ ht _
      rw [schedule, if_pos (by omega), blockWord_take chunk t (by omega),
        chunkWord_eq_blockWord chunk t (by omega)]
  have h2 := rounds_follow (f := ch) (k := 0x5A827999) extendWord 4 h1
    (fun t _ ht => by rw [Standard.f, if_pos (by omega)])
    (fun t _ ht => by rw [Standard.k, if_pos (by omega)])
    (fun t w ht _ hw => hext t w (by omega) hw)
  have h3 := rounds_follow (f := parity) (k := 0x6ED9EBA1) extendWord 20 h2
    (fun t _ ht => by rw [Standard.f, if_neg (by omega), if_pos (by omega)])
    (fun t _ ht => by rw [Standard.k, if_neg (by omega), if_pos (by omega)])
    (fun t w ht _ hw => hext t w (by omega) hw)
  have h4 := rounds_follow (f := maj) (k := 0x8F1BBCDC) extendWord 20 h3
    (fun t _ ht => by rw [Standard.f, if_neg (by omega), if_neg (by omega), if_pos (by omega)])
    (fun t _ ht => by rw [Standard.k, if_neg (by omega), if_neg (by omega), if_pos (by omega)])
    (fun t w ht _ hw => hext t w (by omega) hw)
  have h5 := rounds_follow (f := parity) (k := 0xCA62C1D6) extendWord 20 h4
    (fun t _ ht => by rw [Standard.f, if_neg (by omega), if_neg (by omega), if_neg (by omega)])
    (fun t _ ht => by rw [Standard.k, if_neg (by omega), if_neg (by omega), if_neg (by omega)])
    (fun t w ht _ hw => hext t w (by omega) hw)
  rw [compress, ← h5.words]
  rfl

private theorem chunkCal_eq_foldl (h : Words) (data : Bytes) (chunks : Nat)
    (hlen : 64 * chunks ≤ data.length) :
    chunkCal h data chunks =
      ((List.range chunks).map fun i => (data.drop (64 * i)).take 64).foldl compress h := by
  rw [List.foldl_map, chunkCal]
  apply List.foldl_ext
  intro h i hi
  have hi := List.mem_range.mp hi
  apply chunkCalOne_eq_compress
  rw [List.length_drop, chunkBytes]
  omega

theorem chunkCal_eq_absorb (h : Words) (data : Bytes) :
    chunkCal h data (data.length / 64) = absorb h data :=
  chunkCal_eq_foldl h data _ (Nat.mul_div_le _ _)

private theorem blocks_append (a b : Bytes) (h : a.length % 64 = 0) :
    blocks (a ++ b) = blocks a ++ blocks b := by
  obtain ⟨n, hn⟩ := Nat.dvd_of_mod_eq_zero h
  have hcount : (a ++ b).length / 64 = n + b.length / 64 := by
    rw [List.length_append, hn]
    omega
  have ha : a.length / 64 = n := by omega
  rw [blocks, hcount, List.range_add, List.map_append, blocks, ha, blocks]
  congr 1
  · apply List.map_congr_left
    intro i hi
    have hi := List.mem_range.mp hi
    rw [List.drop_append_of_le_length (by omega),
      List.take_append_of_le_length (by rw [List.length_drop]; omega)]
  · rw [List.map_map]
    apply List.map_congr_left
    intro i hi
    rw [Function.comp_apply, Nat.mul_add, ← hn, List.drop_length_add_append]

private theorem blocks_short (m : Bytes) (h : m.length < 64) : blocks m = [] := by
  rw [blocks, Nat.div_eq_of_lt h]
  rfl

theorem absorb_append (h : Words) (a b : Bytes) (hlen : a.length % 64 = 0) :
    absorb h (a ++ b) = absorb (absorb h a) b := by
  rw [absorb, blocks_append a b hlen, List.foldl_append]
  rfl

theorem absorb_short (h : Words) (m : Bytes) (hlen : m.length < 64) : absorb h m = h := by
  rw [absorb, blocks_short m hlen]
  rfl

end Angel.Sha1
