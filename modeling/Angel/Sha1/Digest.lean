import Angel.Sha1.Compress

/-!
The stream interface against the standard. After any calls of `update` the
object holds the hash of the whole chunks it has seen and the bytes behind
them; `payload` misses the bytes that went into a chunk begun by an earlier
call. The padding is right for every length but those one short of a chunk.
-/

namespace Angel.Sha1

open Angel.Lib Standard

/-- The bytes of `m` behind its last whole chunk. -/
def tail (m : Bytes) : Bytes := m.drop (64 * (m.length / 64))

/-- The object after the bytes `seen`, with some count of them. -/
def absorbed (seen : Bytes) (payload : Nat) : State :=
  { h := absorb initialWords seen, payload := payload, buf := tail seen }

theorem tail_length (m : Bytes) : (tail m).length = m.length % 64 := by
  rw [tail, List.length_drop]
  omega

theorem tail_short (m : Bytes) (h : m.length < 64) : tail m = m := by
  rw [tail, Nat.div_eq_of_lt h]
  rfl

theorem tail_append (a b : Bytes) (h : a.length % 64 = 0) : tail (a ++ b) = tail b := by
  have hcut : 64 * ((a ++ b).length / 64) = a.length + 64 * (b.length / 64) := by
    rw [List.length_append]
    omega
  rw [tail, hcut, List.drop_length_add_append, tail]

theorem exists_whole (m : Bytes) : ∃ whole, m = whole ++ tail m ∧ whole.length % 64 = 0 := by
  refine ⟨m.take (64 * (m.length / 64)), (List.take_append_drop _ _).symm, ?_⟩
  rw [List.length_take]
  omega

theorem fresh_eq_absorbed : fresh = absorbed [] 0 := rfl

theorem absorbData_aligned (seen data : Bytes) (payload : Nat) (h : seen.length % 64 = 0) :
    absorbData { h := absorb initialWords seen, payload := payload, buf := [] } data =
      absorbed (seen ++ data) ((payload + data.length) % 2 ^ 64) := by
  have hbuf : (if 0 < data.length % chunkBytes
      then [] ++ data.drop (data.length - data.length % chunkBytes) else []) = tail data := by
    rw [chunkBytes, tail, show data.length - data.length % 64 = 64 * (data.length / 64) by omega]
    split
    · rw [List.nil_append]
    · rw [List.drop_of_length_le (by omega)]
  rw [absorbed, absorb_append _ _ _ h, tail_append _ _ h, absorbData, chunkBytes,
    chunkCal_eq_absorb]
  exact congrArg (State.mk _ _) hbuf

/-- The bytes of a piece of length `n` that complete a chunk begun at `pos`. -/
def carriedInto (pos n : Nat) : Nat := if pos % 64 = 0 then 0 else min (64 - pos % 64) n

theorem fillChunk_short (s : State) (data : Bytes) (hne : s.buf ≠ [])
    (hlen : s.buf.length + data.length < 64) :
    fillChunk s data = .ok ({ s with buf := s.buf ++ data }, []) := by
  have hall : min (chunkBytes - s.buf.length) data.length = data.length := by
    rw [chunkBytes]
    omega
  have hshort : (s.buf ++ data).length ≠ chunkBytes := by
    rw [List.length_append, chunkBytes]
    omega
  rw [fillChunk, if_neg hne, if_pos (by rw [chunkBytes]; omega)]
  simp only [hall, List.take_length, List.drop_length, if_neg hshort]

theorem fillChunk_full (s : State) (data : Bytes) (hne : s.buf ≠ []) (hlt : s.buf.length < 64)
    (hlen : 64 ≤ s.buf.length + data.length) :
    fillChunk s data =
      .ok ({ s with
        h := absorb s.h (s.buf ++ data.take (64 - s.buf.length)), buf := [] },
        data.drop (64 - s.buf.length)) := by
  have hpart : min (64 - s.buf.length) data.length = 64 - s.buf.length := by omega
  have hchunk : (s.buf ++ data.take (64 - s.buf.length)).length = 64 := by
    rw [List.length_append, List.length_take]
    omega
  have hone : chunkCal s.h (s.buf ++ data.take (64 - s.buf.length)) 1 =
      absorb s.h (s.buf ++ data.take (64 - s.buf.length)) := by
    rw [← chunkCal_eq_absorb, hchunk]
  rw [fillChunk, if_neg hne, if_pos (by rwa [chunkBytes])]
  simp only [chunkBytes, hpart, if_pos hchunk, hone]

section

variable {seen m : Bytes} {payload : Nat}

theorem absorb_whole {whole : Bytes} (hseen : seen = whole ++ tail seen)
    (hwhole : whole.length % 64 = 0) : absorb initialWords seen = absorb initialWords whole := by
  have htail := tail_length seen
  conv_lhs => rw [hseen]
  rw [absorb_append _ _ _ hwhole, absorb_short _ _ (by omega)]

theorem update_aligned (haligned : seen.length % 64 = 0) :
    update (absorbed seen payload) m =
      .ok (absorbed (seen ++ m) ((payload + m.length) % 2 ^ 64)) := by
  have hnil : tail seen = [] := by
    apply List.length_eq_zero_iff.mp
    rw [tail_length, haligned]
  have hfill : fillChunk (absorbed seen payload) m = .ok (absorbed seen payload, m) := if_pos hnil
  have hstate : absorbed seen payload =
      { h := absorb initialWords seen, payload := payload, buf := [] } := by
    rw [absorbed, hnil]
  rw [update, hfill, hstate]
  exact congrArg Except.ok (absorbData_aligned seen m payload haligned)

private theorem update_short (hp : payload < 2 ^ 64) (hne : (absorbed seen payload).buf ≠ [])
    (hshort : (tail seen).length + m.length < 64) :
    update (absorbed seen payload) m = .ok (absorbed (seen ++ m) payload) := by
  obtain ⟨whole, hseen, hwhole⟩ := exists_whole seen
  have htogether : seen ++ m = whole ++ (tail seen ++ m) := by
    conv_lhs => rw [hseen]
    rw [List.append_assoc]
  have hlen : (tail seen ++ m).length < 64 := by rwa [List.length_append]
  have hafter : absorbed (seen ++ m) payload =
      { h := absorb initialWords seen, payload := payload, buf := tail seen ++ m } := by
    rw [absorbed, htogether, absorb_append _ _ _ hwhole, absorb_short _ _ hlen,
      tail_append _ _ hwhole, tail_short _ hlen, absorb_whole hseen hwhole]
  rw [update, fillChunk_short _ m hne hshort, hafter]
  refine congrArg Except.ok ?_
  simp only [absorbData, absorbed, List.length_nil, Nat.add_zero, Nat.mod_eq_of_lt hp]
  rfl

private theorem update_full (hne : (absorbed seen payload).buf ≠ [])
    (hfull : 64 ≤ (tail seen).length + m.length) :
    update (absorbed seen payload) m =
      .ok (absorbed (seen ++ m)
        ((payload + (m.length - (64 - (tail seen).length))) % 2 ^ 64)) := by
  obtain ⟨whole, hseen, hwhole⟩ := exists_whole seen
  have htail := tail_length seen
  have hchunk : (whole ++ (tail seen ++ m.take (64 - (tail seen).length))).length % 64 = 0 := by
    rw [List.length_append, List.length_append, List.length_take]
    omega
  have htogether : seen ++ m = whole ++ (tail seen ++ m.take (64 - (tail seen).length)) ++
      m.drop (64 - (tail seen).length) := by
    rw [List.append_assoc, List.append_assoc, List.take_append_drop, ← List.append_assoc, ← hseen]
  have habsorb : absorb initialWords (whole ++ (tail seen ++ m.take (64 - (tail seen).length))) =
      absorb (absorb initialWords seen) (tail seen ++ m.take (64 - (tail seen).length)) := by
    rw [absorb_append _ _ _ hwhole, absorb_whole hseen hwhole]
  have hdata := absorbData_aligned _ (m.drop (64 - (tail seen).length)) payload hchunk
  rw [habsorb, ← htogether, List.length_drop] at hdata
  rw [update, fillChunk_full _ m hne (by rw [absorbed, htail]; omega) hfull]
  exact congrArg Except.ok hdata

end

/-- One call of `update`: it sees every byte and counts those behind the chunk
it completes. -/
theorem update_absorbed (seen m : Bytes) (payload : Nat) (hp : payload < 2 ^ 64) :
    update (absorbed seen payload) m =
      .ok (absorbed (seen ++ m)
        ((payload + (m.length - carriedInto seen.length m.length)) % 2 ^ 64)) := by
  have htail := tail_length seen
  rcases Nat.eq_zero_or_pos (seen.length % 64) with haligned | hpartial
  · rw [update_aligned haligned, carriedInto, if_pos haligned, Nat.sub_zero]
  have hne : (absorbed seen payload).buf ≠ [] := List.ne_nil_of_length_pos (htail ▸ hpartial)
  rw [carriedInto, if_neg (by omega), ← htail]
  rcases Nat.lt_or_ge ((tail seen).length + m.length) 64 with hshort | hfull
  · have hall : m.length - min (64 - (tail seen).length) m.length = 0 := by omega
    rw [update_short hp hne hshort, hall, Nat.add_zero, Nat.mod_eq_of_lt hp]
  · have hpart : min (64 - (tail seen).length) m.length = 64 - (tail seen).length := by omega
    rw [update_full hne hfull, hpart]

/-- The bytes that the calls of `update` do not count, from position `pos` on. -/
def carried : Nat → List Bytes → Nat
  | _, [] => 0
  | pos, m :: pieces => carriedInto pos m.length + carried (pos + m.length) pieces

theorem carriedInto_le (pos n : Nat) : carriedInto pos n ≤ n := by
  rw [carriedInto]
  split
  · exact Nat.zero_le n
  · exact Nat.min_le_right _ _

theorem carriedInto_eq_zero (pos n : Nat) : carriedInto pos n = 0 ↔ n = 0 ∨ pos % 64 = 0 := by
  rw [carriedInto]
  split <;> omega

theorem carried_le (pos : Nat) (pieces : List Bytes) :
    carried pos pieces ≤ pieces.flatten.length := by
  induction pieces generalizing pos with
  | nil => exact Nat.le_refl 0
  | cons m pieces ih =>
      rw [carried, List.flatten_cons, List.length_append]
      exact Nat.add_le_add (carriedInto_le _ _) (ih _)

theorem updates_absorbed (seen : Bytes) (payload : Nat) (pieces : List Bytes)
    (hp : payload < 2 ^ 64) :
    updates (absorbed seen payload) pieces =
      .ok (absorbed (seen ++ pieces.flatten)
        ((payload + (pieces.flatten.length - carried seen.length pieces)) % 2 ^ 64)) := by
  induction pieces generalizing seen payload with
  | nil =>
      rw [List.flatten_nil, List.append_nil, List.length_nil, carried, Nat.sub_zero, Nat.add_zero,
        Nat.mod_eq_of_lt hp]
      rfl
  | cons m pieces ih =>
      have hm := carriedInto_le seen.length m.length
      have hrest := carried_le (seen.length + m.length) pieces
      have hstep := ih (seen ++ m)
        ((payload + (m.length - carriedInto seen.length m.length)) % 2 ^ 64)
        (Nat.mod_lt _ (by decide))
      have hcall : updates (absorbed seen payload) (m :: pieces) =
          (update (absorbed seen payload) m).bind fun s => updates s pieces := rfl
      rw [hcall, update_absorbed seen m payload hp]
      refine hstep.trans ?_
      rw [List.flatten_cons, List.length_append, List.append_assoc, Nat.mod_add_mod,
        List.length_append, carried]
      congr 3
      omega

/-- Every piece with bytes in it starts on a chunk boundary. -/
def Aligned (pieces : List Bytes) : Prop :=
  ∀ pre m post, pieces = pre ++ m :: post → m = [] ∨ pre.flatten.length % 64 = 0

private theorem carried_eq_zero_iff (pos : Nat) (pieces : List Bytes) :
    carried pos pieces = 0 ↔
      ∀ pre m post, pieces = pre ++ m :: post →
        m = [] ∨ (pos + pre.flatten.length) % 64 = 0 := by
  induction pieces generalizing pos with
  | nil => simp [carried]
  | cons m pieces ih =>
      rw [carried, Nat.add_eq_zero_iff, carriedInto_eq_zero, ih, List.length_eq_zero_iff]
      constructor
      · rintro ⟨hhead, hrest⟩ pre x post heq
        cases pre with
        | nil =>
            obtain ⟨rfl, rfl⟩ := List.cons_eq_cons.mp heq
            exact hhead
        | cons y pre =>
            obtain ⟨rfl, rfl⟩ := List.cons_eq_cons.mp heq
            have h := hrest pre x post rfl
            rwa [Nat.add_assoc, ← List.length_append, ← List.flatten_cons] at h
      · intro h
        refine ⟨h [] m pieces rfl, fun pre x post heq => ?_⟩
        have hx := h (m :: pre) x post (by rw [heq, List.cons_append])
        rwa [List.flatten_cons, List.length_append, ← Nat.add_assoc] at hx

theorem aligned_iff_carried (pieces : List Bytes) : Aligned pieces ↔ carried 0 pieces = 0 := by
  rw [carried_eq_zero_iff, Aligned]
  simp only [Nat.zero_add]

/-- A call for each piece leaves the object as one call for all the bytes does
exactly when no piece continues a chunk. -/
theorem updates_eq_update_flatten_iff (pieces : List Bytes)
    (hsize : pieces.flatten.length < 2 ^ 64) :
    updates fresh pieces = update fresh pieces.flatten ↔ Aligned pieces := by
  have hle := carried_le 0 pieces
  have hpieces := updates_absorbed [] 0 pieces (by decide)
  have hone := update_absorbed [] pieces.flatten 0 (by decide)
  simp only [Nat.zero_add] at hpieces hone
  rw [fresh_eq_absorbed, hpieces, hone, aligned_iff_carried, List.length_nil, carriedInto,
    if_pos (Nat.zero_mod 64), Nat.sub_zero, Nat.mod_eq_of_lt (by omega), Nat.mod_eq_of_lt hsize]
  constructor
  · intro h
    have hpayload := congrArg State.payload (Except.ok.inj h)
    have hcount : pieces.flatten.length - carried 0 pieces = pieces.flatten.length := hpayload
    omega
  · intro h
    rw [h, Nat.sub_zero]

theorem updates_eq_update_flatten_of_chunk :
    updates fresh [List.replicate 64 0x61, ascii "abc"] =
      update fresh (List.replicate 64 0x61 ++ ascii "abc") := by
  have haligned : Aligned [List.replicate 64 0x61, ascii "abc"] :=
    (aligned_iff_carried _).mpr (by decide)
  exact (updates_eq_update_flatten_iff [List.replicate 64 0x61, ascii "abc"] (by decide)).mpr
    haligned

/-- Two pieces of one byte each: the second is not counted. -/
theorem updates_two_bytes_differ :
    updates fresh [ascii "a", ascii "b"] ≠ update fresh (ascii "ab") := by
  decide

section

variable (hton64 : Nat → Nat)

/-- `remain_bytes` is the length behind the last whole chunk, but `-1` for the
lengths that one more byte would complete. -/
theorem remainBytes_eq (size : Nat) (r k : Int) (hr : r = ((size + 1) * 8 % 2 ^ 64 % 512 : Nat))
    (hk : k = if r ≤ 448 then 0 else 1) :
    (chunkBytes : Int) * (k + 1) - (1 + (k * 512 + 448 - r) / 8 + 8) =
      if size % 64 = 63 then (-1 : Int) else ((size % 64 : Nat) : Int) := by
  have hmod : (size + 1) * 8 % 2 ^ 64 % 512 = 8 * ((size + 1) % 64) := by omega
  rw [hmod] at hr
  subst hk
  rw [chunkBytes]
  split <;> split <;> omega

private theorem paddingZeros_eq (size : Nat) (r k : Int)
    (hr : r = ((size + 1) * 8 % 2 ^ 64 % 512 : Nat))
    (hk : k = if r ≤ 448 then 0 else 1) :
    ((k * 512 + 448 - r) / 8).toNat = (zeroBits (8 * size) - 7) / 8 := by
  have hmod : (size + 1) * 8 % 2 ^ 64 % 512 = 8 * ((size + 1) % 64) := by omega
  rw [hmod] at hr
  subst hk
  rw [zeroBits]
  split <;> omega

theorem padding_lengthError (src : Bytes) (size : Nat) (h : size % 64 = 63) :
    padding hton64 [] src size = .error .lengthError := by
  have hremain := remainBytes_eq size _ _ rfl rfl
  rw [if_pos h] at hremain
  rw [padding]
  simp only [hremain]
  rfl

private theorem padding_eq (src : Bytes) (size : Nat) (hsize : size < 2 ^ 61) (h : size % 64 ≠ 63)
    (hsrc : src.length = size % 64)
    (hbig : object 8 (hton64 (8 * size)) = bigEndian 8 (8 * size)) :
    padding hton64 [] src size =
      .ok (src ++ 0x80 :: List.replicate ((zeroBits (8 * size) - 7) / 8) 0 ++
        bigEndian 8 (8 * size)) := by
  have hremain := remainBytes_eq size _ _ rfl rfl
  have hzeros := paddingZeros_eq size _ _ rfl rfl
  rw [if_neg h] at hremain
  have hbits : size * 8 % 2 ^ 64 = 8 * size := by omega
  have hlast : appendLast [] src (size % 64 : Nat) = .ok src := by
    have hcount : (((size % 64 : Nat) : Int) % 2 ^ 64).toNat = src.length := by omega
    rw [appendLast]
    simp only [hcount, maxSize, List.length_nil]
    rw [if_neg (by omega), if_neg (by omega), Nat.sub_self]
    rfl
  have hwhole : (src ++ [0x80] ++ List.replicate ((zeroBits (8 * size) - 7) / 8) 0 ++
      bigEndian 8 (8 * size)).length % chunkBytes = 0 := by
    simp only [List.length_append, List.length_replicate, List.length_singleton, bigEndian_length,
      chunkBytes, zeroBits, hsrc]
    omega
  rw [padding]
  simp only [hremain, hlast, hzeros, hbits, hbig]
  refine (if_pos hwhole).trans ?_
  rw [List.append_assoc src, List.singleton_append]

theorem finalCal_absorbed (m : Bytes) (hm : m.length < 2 ^ 61) (h : m.length % 64 ≠ 63)
    (hbig : object 8 (hton64 (8 * m.length)) = bigEndian 8 (8 * m.length)) :
    finalCal hton64 (absorbed m m.length) =
      .ok { h := absorb initialWords (pad m), payload := m.length, buf := [] } := by
  obtain ⟨whole, hwhole, haligned⟩ := exists_whole m
  have hpad := padding_eq hton64 (tail m) m.length hm h (tail_length m) hbig
  have hm' : pad m = whole ++ (tail m ++ 0x80 :: List.replicate
      ((zeroBits (8 * m.length) - 7) / 8) 0 ++ bigEndian 8 (8 * m.length)) := by
    rw [pad, ← List.append_assoc, ← List.append_assoc, ← hwhole]
  have hstart : absorb initialWords m = absorb initialWords whole := by
    conv_lhs => rw [hwhole]
    rw [absorb_append _ _ _ haligned, absorb_short _ _ (by rw [tail_length]; omega)]
  rw [finalCal, absorbed]
  simp only [hpad]
  refine congrArg Except.ok ?_
  rw [hm', absorb_append _ _ _ haligned, ← hstart, chunkBytes, chunkCal_eq_absorb]

theorem digest_absorbed (m : Bytes) (hm : m.length < 2 ^ 61) (h : m.length % 64 ≠ 63)
    (hbig : object 8 (hton64 (8 * m.length)) = bigEndian 8 (8 * m.length)) :
    digest hton64 (absorbed m m.length) = .ok (Standard.digest m, fresh) := by
  have hbytes : (fun x : UInt32 => object 4 (Sockops.htonl x.toNat)) =
      fun x => bigEndian 4 x.toNat := funext fun x => Sockops.object_hton 4 x.toNat
  rw [digest, finalCal_absorbed hton64 m hm h hbig, hbytes]
  rfl

private theorem tohex_shift (x n : UInt32) (k : Nat) (hn : n.toNat = k) (hk : k < 32) :
    tohex (x >>> n) = (ascii "0123456789ABCDEF").getD (x.toNat / 2 ^ k % 16) 0 := by
  have hdigit : (x >>> n &&& 0x0f).toNat = x.toNat / 2 ^ k % 16 := by
    rw [UInt32.toNat_and, UInt32.toNat_shiftRight, hn, Nat.mod_eq_of_lt hk,
      Nat.shiftRight_eq_div_pow]
    exact Nat.and_two_pow_sub_one_eq_mod _ 4
  rw [tohex, hdigit]

private theorem upperHex_word (x : UInt32) :
    [tohex (x >>> (4 * 7)), tohex (x >>> (4 * 6)), tohex (x >>> (4 * 5)), tohex (x >>> (4 * 4)),
      tohex (x >>> (4 * 3)), tohex (x >>> (4 * 2)), tohex (x >>> (4 * 1)), tohex (x >>> (4 * 0))] =
      upperHex (bigEndian 4 x.toNat) := by
  have hhigh : ∀ k, (UInt8.ofNat (x.toNat / 2 ^ k)).toNat / 16 = x.toNat / 2 ^ (k + 4) % 16 := by
    intro k
    rw [UInt8.toNat_ofNat', Nat.pow_add, ← Nat.div_div_eq_div_mul]
    omega
  have hlow : ∀ k, (UInt8.ofNat (x.toNat / 2 ^ k)).toNat % 16 = x.toNat / 2 ^ k % 16 := by
    intro k
    rw [UInt8.toNat_ofNat']
    omega
  have hbytes : bigEndian 4 x.toNat =
      [UInt8.ofNat (x.toNat / 2 ^ 24), UInt8.ofNat (x.toNat / 2 ^ 16), UInt8.ofNat (x.toNat / 2 ^ 8),
        UInt8.ofNat (x.toNat / 2 ^ 0)] := by
    simp only [bigEndian, object, List.reverse_cons, List.reverse_nil, List.nil_append,
      List.cons_append, Nat.div_div_eq_div_mul, Nat.pow_zero, Nat.div_one]
    rfl
  rw [tohex_shift x (4 * 7) 28 rfl (by decide), tohex_shift x (4 * 6) 24 rfl (by decide),
    tohex_shift x (4 * 5) 20 rfl (by decide), tohex_shift x (4 * 4) 16 rfl (by decide),
    tohex_shift x (4 * 3) 12 rfl (by decide), tohex_shift x (4 * 2) 8 rfl (by decide),
    tohex_shift x (4 * 1) 4 rfl (by decide), tohex_shift x (4 * 0) 0 rfl (by decide), hbytes]
  simp only [upperHex, List.flatMap_cons, List.flatMap_nil, List.cons_append, List.nil_append,
    hhigh, hlow]

theorem hexDigest_absorbed (m : Bytes) (hm : m.length < 2 ^ 61) (h : m.length % 64 ≠ 63)
    (hbig : object 8 (hton64 (8 * m.length)) = bigEndian 8 (8 * m.length)) :
    hexDigest hton64 (absorbed m m.length) = .ok (upperHex (Standard.digest m), fresh) := by
  rw [hexDigest, finalCal_absorbed hton64 m hm h hbig]
  simp only [upperHex_word]
  rw [Standard.digest, upperHex, List.flatMap_assoc]
  rfl

/-- One `update` and the digest give what the standard prescribes and a fresh
object, for every length but those one byte short of a whole chunk. -/
theorem digest_eq_standard_iff
    (hbig : ∀ x < 2 ^ 64, object 8 (hton64 x) = bigEndian 8 x)
    (m : Bytes) (hm : m.length < 2 ^ 61) :
    ((update fresh m).bind (digest hton64) = .ok (Standard.digest m, fresh) ∧
      (update fresh m).bind (hexDigest hton64) = .ok (upperHex (Standard.digest m), fresh)) ↔
      m.length % 64 ≠ 63 := by
  have hupdate : update fresh m = .ok (absorbed m m.length) := by
    rw [fresh_eq_absorbed, update_absorbed [] m 0 (by decide), List.length_nil, carriedInto,
      if_pos (Nat.zero_mod 64), Nat.sub_zero, Nat.zero_add, Nat.mod_eq_of_lt (by omega),
      List.nil_append]
  have hbits := hbig (8 * m.length) (by omega)
  rw [hupdate]
  constructor
  · rintro ⟨hdigest, _⟩ hlen
    have hfail : digest hton64 (absorbed m m.length) = .error .lengthError := by
      rw [digest, finalCal, absorbed, padding_lengthError hton64 (tail m) m.length hlen]
      rfl
    cases hfail.symm.trans hdigest
  · intro hlen
    exact ⟨digest_absorbed hton64 m hm hlen hbits, hexDigest_absorbed hton64 m hm hlen hbits⟩

end

theorem digest_eq_standard_of_abc :
    (update fresh (ascii "abc")).bind (digest (Sockops.hton64 true)) =
      .ok (Standard.digest (ascii "abc"), fresh) := by
  have hbig : ∀ x < 2 ^ 64, object 8 (Sockops.hton64 true x) = bigEndian 8 x := by
    intro x _
    rw [Sockops.hton64_eq_hton, Sockops.object_hton]
  exact ((digest_eq_standard_iff (Sockops.hton64 true) hbig (ascii "abc") (by decide)).mpr
    (by decide)).1

/-- A message of 63 bytes: the padding asks for a piece of `SIZE_MAX` bytes. -/
theorem digest_of_63_bytes :
    (update fresh (List.replicate 63 0x61)).bind (digest (Sockops.hton64 true)) =
      .error .lengthError := by
  decide

end Angel.Sha1
