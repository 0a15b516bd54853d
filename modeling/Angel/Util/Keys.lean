import Angel.Util

/-!
The keys of `insensitive_unordered_map`. They are compared as C strings, up to a
null character, and hashed as a whole.
-/

namespace Angel.Util

/-- `case_insensitive_key`. -/
structure CaseInsensitiveKey where
  key : Bytes

namespace CaseInsensitiveKey

/-- The constructor from a `string_view`. -/
def ofView (s : Bytes) : CaseInsensitiveKey := ⟨s⟩

/-- `operator==`. -/
def equal (lhs rhs : CaseInsensitiveKey) : Bool := equalCase lhs.key rhs.key

/-- `std::hash`, over the hash of a string. -/
def hash (stringHash : Bytes → Nat) (c : CaseInsensitiveKey) : Nat := stringHash (toLower c.key)

end CaseInsensitiveKey

theorem tolower_eq_zero_iff (c : UInt8) : tolower c = 0 ↔ c = 0 := by
  unfold tolower
  split
  · next h =>
    constructor
    · intro hzero
      have hsum := congrArg UInt8.toNat hzero
      simp only [UInt8.le_iff_toNat_le] at h
      have h65 : (65 : UInt8).toNat = 65 := rfl
      have h90 : (90 : UInt8).toNat = 90 := rfl
      have h32 : (32 : UInt8).toNat = 32 := rfl
      rw [UInt8.toNat_add, h32, UInt8.toNat_zero] at hsum
      omega
    · rintro rfl
      exact absurd h (by decide)
  · rfl

theorem length_toLower (s : Bytes) : (toLower s).length = s.length := List.length_map _

private theorem strncasecmpEq_iff {s1 s2 : Bytes} (hlen : s1.length = s2.length) :
    strncasecmpEq s1 s2 = true ↔ cStr (toLower s1) = cStr (toLower s2) := by
  induction s1 generalizing s2 with
  | nil =>
      have hnil : s2 = [] := List.length_eq_zero_iff.mp hlen.symm
      subst hnil
      simp [strncasecmpEq]
  | cons a s1 ih =>
      cases s2 with
      | nil => cases hlen
      | cons b s2 =>
          have hrest := ih (Nat.succ.inj hlen)
          have hcons : ∀ c s, toLower (c :: s) = tolower c :: toLower s := fun _ _ => rfl
          simp only [strncasecmpEq, Bool.and_eq_true, Bool.or_eq_true, decide_eq_true_eq, hcons,
            cStr_cons, tolower_eq_zero_iff, hrest]
          by_cases ha : a = 0
          · subst ha
            by_cases hb : b = 0
            · simp [hb]
            · have hne : tolower 0 ≠ tolower b := by
                intro heq
                exact hb ((tolower_eq_zero_iff b).mp (heq ▸ rfl))
              simp [hb, hne]
          · by_cases hb : b = 0
            · subst hb
              have hne : tolower a ≠ tolower 0 := by
                intro heq
                exact ha ((tolower_eq_zero_iff a).mp (heq.trans rfl))
              simp [ha, hne]
            · simp [ha, hb]

theorem equalCase_iff (s1 s2 : Bytes) :
    equalCase s1 s2 = true ↔ s1.length = s2.length ∧ cStr (toLower s1) = cStr (toLower s2) := by
  rw [equalCase, Bool.and_eq_true, decide_eq_true_eq]
  exact and_congr_right strncasecmpEq_iff

theorem equalCase_of_toLower {s1 s2 : Bytes} (h : toLower s1 = toLower s2) :
    equalCase s1 s2 = true := by
  have hlen := congrArg List.length h
  rw [length_toLower, length_toLower] at hlen
  exact (equalCase_iff s1 s2).mpr ⟨hlen, congrArg cStr h⟩

/-- Strings that compare equal are the same in lower case, or the same up to a
null character. -/
theorem equalCase_parting {s1 s2 : Bytes} (h : equalCase s1 s2 = true) :
    toLower s1 = toLower s2 ∨ ∃ front s t, toLower s1 = front ++ 0 :: s ∧
      toLower s2 = front ++ 0 :: t ∧ s.length = t.length := by
  obtain ⟨hlen, hcut⟩ := (equalCase_iff s1 s2).mp h
  rw [← length_toLower s1, ← length_toLower s2] at hlen
  rcases cStr_rest (toLower s1) with hall | ⟨s, hs⟩
  · rcases cStr_rest (toLower s2) with hall' | ⟨t, ht⟩
    · exact .inl (hall.trans (hcut.trans hall'.symm))
    · have hshort := congrArg List.length ht
      rw [← hcut, ← hall, List.length_append, List.length_cons] at hshort
      omega
  · rcases cStr_rest (toLower s2) with hall' | ⟨t, ht⟩
    · have hshort := congrArg List.length hs
      rw [hcut, ← hall', List.length_append, List.length_cons] at hshort
      omega
    · have hfront : toLower s1 = cStr (toLower s2) ++ 0 :: s := hcut ▸ hs
      have hs' := congrArg List.length hfront
      have ht' := congrArg List.length ht
      rw [List.length_append, List.length_cons] at hs' ht'
      exact .inr ⟨cStr (toLower s2), s, t, hfront, ht, by omega⟩

namespace CaseInsensitiveKey

theorem equal_equivalence : Equivalence fun lhs rhs : CaseInsensitiveKey => lhs.equal rhs = true := by
  simp only [equal, equalCase_iff]
  constructor
  · intro _
    exact ⟨rfl, rfl⟩
  · rintro _ _ ⟨hlen, hcut⟩
    exact ⟨hlen.symm, hcut.symm⟩
  · rintro _ _ _ ⟨hlen, hcut⟩ ⟨hlen', hcut'⟩
    exact ⟨hlen.trans hlen', hcut.trans hcut'⟩

/-- What `std::unordered_map` asks of its keys: the comparison is that of the
lower-case strings, and equal keys have equal hashes. -/
def Contract (lhs rhs : CaseInsensitiveKey) : Prop :=
  (lhs.equal rhs = true ↔ toLower lhs.key = toLower rhs.key) ∧
    ∀ stringHash, lhs.equal rhs = true → lhs.hash stringHash = rhs.hash stringHash

/-- The two strings do not part behind a null character at which they are still
the same. -/
def NoLateParting (a b : Bytes) : Prop :=
  ∀ front s t, toLower a = front ++ 0 :: s → toLower b = front ++ 0 :: t →
    s.length = t.length → s = t

/-- Keys are as the map needs them if and only if no null character hides where
they part. -/
theorem contract_iff (a b : Bytes) :
    Contract (ofView a) (ofView b) ↔ NoLateParting a b := by
  constructor
  · rintro ⟨hequal, -⟩ front s t hs ht hlen
    have hkeys : (ofView a).equal (ofView b) = true := by
      refine (equalCase_iff a b).mpr ⟨?_, ?_⟩
      · rw [← length_toLower a, ← length_toLower b, hs, ht]
        simp [hlen]
      · rw [hs, ht, cStr_cut, cStr_cut]
    have hlower : toLower a = toLower b := hequal.mp hkeys
    rw [hs, ht] at hlower
    exact List.tail_eq_of_cons_eq (List.append_cancel_left hlower)
  · intro h
    have hequal : (ofView a).equal (ofView b) = true → toLower a = toLower b := by
      intro hkeys
      rcases equalCase_parting hkeys with hlower | ⟨front, s, t, hs, ht, hlen⟩
      · exact hlower
      · have hrest : s = t := h front s t hs ht hlen
        exact hs.trans (hrest ▸ ht.symm)
    exact ⟨⟨hequal, equalCase_of_toLower⟩, fun stringHash hkeys => congrArg stringHash (hequal hkeys)⟩

/-- Two names that start with a null character and go on differently are equal
keys. -/
theorem contract_null : ¬ ∀ a b : Bytes, Contract (ofView a) (ofView b) := by
  intro h
  have hlower := (h [0, 97] [0, 98]).1.mp (by decide)
  exact absurd hlower (by decide)

end CaseInsensitiveKey

end Angel.Util
