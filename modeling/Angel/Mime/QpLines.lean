import Angel.Mime.Qp
import Angel.Lib.Lines

/-!
The lines of what the quoted-printable encoder writes. A line is counted up to
the place of its soft break, and only the last line can end with a character
that the grammar does not allow there.
-/

namespace Angel.Mime.QP

open Angel.Lib Angel.Lib.Lines Util

def isUpperHex (c : UInt8) : Bool := isdigit c || (65 ≤ c && c ≤ 70)

/-- Every `=` stands for a soft break or is followed by two digits. -/
def Escaped (text : Bytes) : Prop :=
  ∀ front rest, text = front ++ EQUALS :: rest → CRLF <+: rest ∨
    ∃ c1 c2 rest', rest = c1 :: c2 :: rest' ∧ isUpperHex c1 = true ∧ isUpperHex c2 = true

/-- A tab or a printable character. -/
def Printable (c : UInt8) : Prop := c = HT ∨ (32 ≤ c ∧ c ≤ 126)

/-- A text of the grammar, in terms of its lines. -/
structure QpText (text : Bytes) : Prop where
  length : ∀ line ∈ lines CR LF text, line.length ≤ maxLineLimit
  soft : ∀ line ∈ (lines CR LF text).dropLast, line.getLast? = some EQUALS
  last : ∀ line ∈ lines CR LF text, ∀ c, line.getLast? = some c → ¬ (c = SP ∨ c = HT)
  chars : ∀ line ∈ lines CR LF text, ∀ c ∈ line, Printable c
  escaped : Escaped text

/-- Characters that stand for themselves and escapes. -/
inductive Line : Bytes → Prop where
  | nil : Line []
  | char {s : Bytes} {c : UInt8} (h : Line s) (hc : isQPchar c = true) : Line (s ++ [c])
  | escape {s : Bytes} (h : Line s) (c : UInt8) : Line (s ++ toHexPair EQUALS c)

/-- Lines with their soft breaks. -/
def softLines (front : List Bytes) : Bytes := unlines CR LF (front.map (· ++ [EQUALS]))

theorem softLines_snoc (front : List Bytes) (line : Bytes) :
    softLines (front ++ [line]) = softLines front ++ line ++ EQUALS :: CRLF := by
  simp [softLines, unlines, CRLF]

theorem toHexPair_upper (c : UInt8) :
    ∃ c1 c2, toHexPair EQUALS c = [EQUALS, c1, c2] ∧ isUpperHex c1 = true ∧ isUpperHex c2 = true := by
  have hall : ∀ n : Fin 256,
      isUpperHex (tohexchar.getD ((UInt8.ofNat n.1) >>> 4).toNat 0) = true ∧
      isUpperHex (tohexchar.getD ((UInt8.ofNat n.1) &&& 0x0f).toNat 0) = true := by decide +kernel
  have hc := hall ⟨c.toNat, c.toNat_lt⟩
  rw [UInt8.ofNat_toNat] at hc
  exact ⟨_, _, rfl, hc⟩

theorem printable_of_isQPchar {c : UInt8} (h : isQPchar c = true) : Printable c := by
  have hall : ∀ n : Fin 256, isQPchar (UInt8.ofNat n.1) = true →
      UInt8.ofNat n.1 = HT ∨ (32 ≤ UInt8.ofNat n.1 ∧ UInt8.ofNat n.1 ≤ 126) := by decide +kernel
  have hc := hall ⟨c.toNat, c.toNat_lt⟩
  rw [UInt8.ofNat_toNat] at hc
  exact hc h

theorem isQPchar_of_isUpperHex {c : UInt8} (h : isUpperHex c = true) :
    isQPchar c = true ∧ ¬ (c = SP ∨ c = HT) := by
  have hall : ∀ n : Fin 256, isUpperHex (UInt8.ofNat n.1) = true →
      isQPchar (UInt8.ofNat n.1) = true ∧ ¬ (UInt8.ofNat n.1 = SP ∨ UInt8.ofNat n.1 = HT) := by
    decide +kernel
  have hc := hall ⟨c.toNat, c.toNat_lt⟩
  rw [UInt8.ofNat_toNat] at hc
  exact hc h

theorem printable_EQUALS : Printable EQUALS := .inr (by decide)

theorem Line.printable {s : Bytes} (h : Line s) : ∀ c ∈ s, Printable c := by
  induction h with
  | nil => simp
  | char h hc ih =>
      intro c hmem
      rcases List.mem_append.mp hmem with hmem | hmem
      · exact ih c hmem
      · exact List.mem_singleton.mp hmem ▸ printable_of_isQPchar hc
  | escape h c ih =>
      obtain ⟨c1, c2, hpair, hc1, hc2⟩ := toHexPair_upper c
      rw [hpair]
      intro d hmem
      rcases List.mem_append.mp hmem with hmem | hmem
      · exact ih d hmem
      · simp only [List.mem_cons, List.not_mem_nil, or_false] at hmem
        rcases hmem with rfl | rfl | rfl
        · exact printable_EQUALS
        · exact printable_of_isQPchar (isQPchar_of_isUpperHex hc1).1
        · exact printable_of_isQPchar (isQPchar_of_isUpperHex hc2).1

theorem escaped_nil : Escaped [] := by
  intro front rest heq
  simp at heq

theorem Escaped.append {s t : Bytes} (hs : Escaped s) (ht : Escaped t) : Escaped (s ++ t) := by
  intro front rest heq
  rcases List.append_eq_append_iff.mp heq with ⟨front', hfront, htext⟩ | ⟨mid, hmid, hrest⟩
  · exact ht front' rest htext
  · cases mid with
    | nil => exact ht [] rest (by simpa using hrest.symm)
    | cons e mid =>
        obtain ⟨rfl, hmore⟩ := List.cons.inj hrest
        change rest = mid ++ t at hmore
        subst hmore
        rcases hs front mid hmid with ⟨more, hbreak⟩ | ⟨c1, c2, more, rfl, hc1, hc2⟩
        · left
          rw [← hbreak, List.append_assoc]
          exact List.prefix_append CRLF (more ++ t)
        · right
          exact ⟨c1, c2, more ++ t, rfl, hc1, hc2⟩

theorem escaped_char {c : UInt8} (hc : c ≠ EQUALS) : Escaped [c] := by
  intro front rest heq
  have hmem : EQUALS ∈ [c] := heq ▸ List.mem_append_right front List.mem_cons_self
  exact absurd (List.mem_singleton.mp hmem).symm hc

theorem escaped_hexPair (c : UInt8) : Escaped (toHexPair EQUALS c) := by
  obtain ⟨c1, c2, hpair, hc1, hc2⟩ := toHexPair_upper c
  have hne : ∀ d, isUpperHex d = true → d ≠ EQUALS := by
    rintro d hd rfl
    exact absurd hd (by decide)
  intro front rest heq
  rw [hpair] at heq
  cases front with
  | nil =>
      obtain ⟨_, rfl⟩ := List.cons.inj heq
      exact .inr ⟨c1, c2, [], rfl, hc1, hc2⟩
  | cons e front =>
      have hdigits : Escaped ([c1] ++ [c2]) :=
        (escaped_char (hne c1 hc1)).append (escaped_char (hne c2 hc2))
      exact hdigits front rest (List.cons.inj heq).2

theorem escaped_softBreak : Escaped (EQUALS :: CRLF) := by
  intro front rest heq
  cases front with
  | nil =>
      obtain ⟨_, rfl⟩ := List.cons.inj heq
      exact .inl (List.prefix_refl CRLF)
  | cons e front =>
      have hbreak : Escaped ([CR] ++ [LF]) :=
        (escaped_char (by decide)).append (escaped_char (by decide))
      exact hbreak front rest (List.cons.inj heq).2

private theorem ne_EQUALS_of_isQPchar {c : UInt8} (h : isQPchar c = true) : c ≠ EQUALS := by
  rintro rfl
  exact absurd h (by decide)

theorem Line.escaped {s : Bytes} (h : Line s) : Escaped s := by
  induction h with
  | nil => exact escaped_nil
  | char h hc ih => exact ih.append (escaped_char (ne_EQUALS_of_isQPchar hc))
  | escape h c ih => exact ih.append (escaped_hexPair c)

theorem softLines_escaped {front : List Bytes} (h : ∀ l ∈ front, Line l) :
    Escaped (softLines front) := by
  induction front using List.reverseRecOn with
  | nil => exact escaped_nil
  | append_singleton front l ih =>
      rw [softLines_snoc]
      have hfront := ih fun l' hl' => h l' (List.mem_append_left _ hl')
      exact (hfront.append (h l (by simp)).escaped).append escaped_softBreak

theorem Line.of_blank {s : Bytes} {c : UInt8} (h : Line (s ++ [c])) (hc : c = SP ∨ c = HT) :
    Line s := by
  generalize hs : s ++ [c] = line at h
  cases h with
  | nil => simp at hs
  | char h' _ =>
      obtain ⟨rfl, _⟩ := List.append_inj' hs rfl
      exact h'
  | escape h' d =>
      obtain ⟨c1, c2, hpair, _, hc2⟩ := toHexPair_upper d
      rw [hpair] at hs
      have hlast := congrArg List.getLast? hs
      simp only [List.getLast?_append, List.getLast?_cons_cons, List.getLast?_singleton,
        Option.some_or, Option.some.injEq] at hlast
      exact absurd (hlast ▸ hc) (isQPchar_of_isUpperHex hc2).2

/-- What has been written while the current line has `count` characters. -/
def Lined (res : Bytes) (count : Nat) : Prop :=
  ∃ front cur, res = softLines front ++ cur ∧
    (∀ l ∈ front, Line l ∧ l.length < maxLineLimit) ∧ Line cur ∧ cur.length = count ∧
    count < maxLineLimit

private theorem lined_start : Lined [] 0 := ⟨[], [], rfl, by simp, .nil, rfl, by decide⟩

private theorem encodePass_lined (s : EncodeState) (h : Lined s.res s.count) :
    (∃ s', encodePass s = .again s' ∧ Lined s'.res s'.count) ∨
      ∃ r, encodePass s = .done r ∧ Lined r.1 r.2 := by
  obtain ⟨res, count, rest⟩ := s
  have hlimit : maxLineLimit = 76 := rfl
  cases rest with
  | nil => exact .inr ⟨_, rfl, h⟩
  | cons c rest =>
      left
      obtain ⟨front, cur, rfl, hfront, hcur, hcount, hroom⟩ := h
      rw [encodePass]
      by_cases hchar : count + 1 ≤ maxLineLimit - 1 ∧ isQPchar c
      · simp only [if_pos hchar]
        refine ⟨_, rfl, front, cur ++ [c], ?_, hfront, hcur.char hchar.2, ?_, ?_⟩
        · rw [List.append_assoc]
        · rw [List.length_append, hcount]
          rfl
        · dsimp only
          omega
      by_cases hpair : count + 3 ≤ maxLineLimit - 1
      · simp only [if_neg hchar, if_pos hpair]
        refine ⟨_, rfl, front, cur ++ toHexPair EQUALS c, ?_, hfront, hcur.escape c, ?_, ?_⟩
        · rw [List.append_assoc]
        · rw [List.length_append, hcount]
          rfl
        · dsimp only
          omega
      · simp only [if_neg hchar, if_neg hpair]
        refine ⟨_, rfl, front ++ [cur], [], ?_, ?_, .nil, rfl, Nat.zero_lt_succ 75⟩
        · rw [softLines_snoc, List.append_nil]
        · intro l hl
          rcases List.mem_append.mp hl with hl | hl
          · exact hfront l hl
          · rw [List.mem_singleton.mp hl]
            exact ⟨hcur, hcount ▸ hroom⟩

theorem encode_lined {fuel : Nat} {data : Bytes} {r : Bytes × Nat}
    (h : loop encodePass fuel ⟨[], 0, data⟩ = some r) : Lined r.1 r.2 := by
  have hpass : ∀ s : EncodeState, (fun s : EncodeState => Lined s.res s.count) s →
      (∃ s', encodePass s = .again s' ∧ (fun s : EncodeState => Lined s.res s.count) s') ∨
        ∃ r, encodePass s = .done r ∧ (fun r : Bytes × Nat => Lined r.1 r.2) r :=
    encodePass_lined
  exact loop_sound_of_pass hpass lined_start h

/-- Soft lines and a last line that does not end with a blank. -/
structure Shaped (text : Bytes) (front : List Bytes) (cur : Bytes) : Prop where
  text_eq : text = softLines front ++ cur
  front : ∀ l ∈ front, Line l ∧ l.length < maxLineLimit
  line : Line cur
  length : cur.length ≤ maxLineLimit
  last : ∀ c, cur.getLast? = some c → ¬ (c = SP ∨ c = HT)

private theorem hexPair_last (s : Bytes) (c : UInt8) :
    ∀ d, (s ++ toHexPair EQUALS c).getLast? = some d → ¬ (d = SP ∨ d = HT) := by
  obtain ⟨c1, c2, hpair, _, hc2⟩ := toHexPair_upper c
  intro d hd
  simp only [hpair, List.getLast?_append, List.getLast?_cons_cons, List.getLast?_singleton,
    Option.some_or, Option.some.injEq] at hd
  exact hd ▸ (isQPchar_of_isUpperHex hc2).2

/-- A blank at the end of the last line is written as an escape, on a line of
its own where it does not fit any more. -/
theorem escapeLast_shaped {res : Bytes} {count : Nat} (h : Lined res count) :
    ∃ front cur, Shaped (escapeLast res count) front cur := by
  obtain ⟨front, cur, rfl, hfront, hcur, hcount, hroom⟩ := h
  have hlimit : maxLineLimit = 76 := rfl
  rw [escapeLast]
  split
  · next hblank =>
      have hne : cur ≠ [] := by
        rintro rfl
        rw [List.append_nil] at hblank
        cases front using List.reverseRecOn with
        | nil => exact absurd hblank (by decide)
        | append_singleton front l =>
            have hend : (softLines (front ++ [l])).getLastD 0 = LF := by
              rw [softLines_snoc, List.getLastD_eq_getLast?, List.getLast?_append]
              rfl
            rw [hend] at hblank
            exact absurd hblank (by decide)
      obtain ⟨cur', c, rfl⟩ : ∃ cur' c, cur = cur' ++ [c] :=
        ⟨_, _, (List.dropLast_append_getLast hne).symm⟩
      have hlast : (softLines front ++ (cur' ++ [c])).getLastD 0 = c := by
        rw [← List.append_assoc, List.getLastD_eq_getLast?, List.getLast?_concat]
        rfl
      rw [hlast] at hblank ⊢
      have hline := hcur.of_blank hblank
      rw [List.length_append, List.length_singleton] at hcount
      have hlen : (toHexPair EQUALS c).length = 3 := rfl
      rw [← List.append_assoc, List.dropLast_concat]
      split
      · -- the escape goes to a line of its own
        refine ⟨front ++ [cur'], toHexPair EQUALS c, ?_, ?_, Line.nil.escape c, ?_, hexPair_last [] c⟩
        · rw [softLines_snoc]
        · intro l hl
          rcases List.mem_append.mp hl with hl | hl
          · exact hfront l hl
          · rw [List.mem_singleton.mp hl]
            exact ⟨hline, by omega⟩
        · omega
      · refine ⟨front, cur' ++ toHexPair EQUALS c, ?_, hfront, hline.escape c, ?_, hexPair_last cur' c⟩
        · rw [List.append_assoc]
        · rw [List.length_append]
          omega
  · next hblank =>
      refine ⟨front, cur, rfl, hfront, hcur, by omega, ?_⟩
      intro c hc
      rw [List.getLastD_eq_getLast?, List.getLast?_append, hc] at hblank
      exact hblank

theorem Shaped.qpText {text : Bytes} {front : List Bytes} {cur : Bytes}
    (h : Shaped text front cur) : QpText text := by
  obtain ⟨rfl, hfront, hcur, hlength, hlast⟩ := h
  have hnoCR : ∀ {s : Bytes}, (∀ c ∈ s, Printable c) → CR ∉ s := by
    intro s hs hmem
    rcases hs CR hmem with hCR | hCR
    · exact absurd hCR (by decide)
    · exact absurd hCR (by decide)
  have hsoft : ∀ line ∈ front.map (· ++ [EQUALS]), ∀ c ∈ line, Printable c := by
    intro line hline c hc
    obtain ⟨l, hl, rfl⟩ := List.mem_map.mp hline
    rcases List.mem_append.mp hc with hc | hc
    · exact (hfront l hl).1.printable c hc
    · exact List.mem_singleton.mp hc ▸ printable_EQUALS
  have hsingle : lines CR LF cur = [cur] := by
    apply lines_free
    intro hin
    exact hnoCR hcur.printable (hin.subset List.mem_cons_self)
  have hlines : lines CR LF (softLines front ++ cur) = front.map (· ++ [EQUALS]) ++ [cur] := by
    rw [softLines, lines_unlines (by decide) fun l hl => hnoCR (hsoft l hl), hsingle]
  have hcases : ∀ {P : Bytes → Prop}, (∀ l ∈ front, P (l ++ [EQUALS])) → P cur →
      ∀ line ∈ front.map (· ++ [EQUALS]) ++ [cur], P line := by
    intro P hP hPcur line hline
    rcases List.mem_append.mp hline with hline | hline
    · obtain ⟨l, hl, rfl⟩ := List.mem_map.mp hline
      exact hP l hl
    · exact List.mem_singleton.mp hline ▸ hPcur
  constructor
  · rw [hlines]
    apply hcases
    · intro l hl
      rw [List.length_append]
      exact (hfront l hl).2
    · exact hlength
  · rw [hlines, List.dropLast_concat]
    intro line hline
    obtain ⟨l, _, rfl⟩ := List.mem_map.mp hline
    exact List.getLast?_concat
  · rw [hlines]
    apply hcases
    · intro l _ c hc
      rw [List.getLast?_concat] at hc
      rw [← Option.some.inj hc]
      decide
    · exact hlast
  · rw [hlines]
    apply hcases
    · intro l hl
      exact hsoft _ (List.mem_map_of_mem hl)
    · exact hcur.printable
  · exact (softLines_escaped fun l hl => (hfront l hl).1).append hcur.escaped

/-- Whatever is encoded is written as a text of the grammar. -/
theorem encode_qpText (data : Bytes) : QpText (encode data) := by
  by_cases hdata : data = []
  · have hshaped : Shaped [] [] [] := ⟨rfl, by simp, .nil, by decide, by simp⟩
    rw [hdata]
    exact hshaped.qpText
  · obtain ⟨r, hloop, hencode, _⟩ := encode_loop hdata
    have hlined : Lined r.1 r.2 := encode_lined hloop
    obtain ⟨front, cur, hshaped⟩ := escapeLast_shaped hlined
    rw [hencode]
    exact hshaped.qpText

end Angel.Mime.QP
