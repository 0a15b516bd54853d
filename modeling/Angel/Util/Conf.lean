import Angel.Util
import Angel.Lib.Loop
import Angel.Lib.Words

/-!
`parse_conf` and the syntax of configuration files. The file is read in pieces
of one buffer, and the loop over a piece asserts that white space is behind
every token, so that tokens at the end of a piece are not accepted.
-/

namespace Angel.Util

open Lib

/-- `fgets(buf, size, fp)`: what is read of the rest of a file, and what is left
of it. -/
def fgets (size : Nat) (fp : Bytes) : Option (Bytes × Bytes) :=
  if fp = [] then none
  else
    let n := min (size - 1) (fp.idxOf LF + 1)
    some (fp.take n, fp.drop n)

/-- A pass of the inner loop over what is left of the piece; without a result
where `Assert(p != es)` fails. -/
def tokenPass (state : Bytes × List Bytes) :
    Pass (Bytes × List Bytes) (Option (List Bytes)) :=
  let (s, param) := state
  let s := s.dropWhile isspace
  if s = [] ∨ s.head? = some 35 then .done (some param)
  else
    match s.dropWhile (!isspace ·) with
    | [] => .done none
    | _ :: rest => .again (rest, param ++ [s.takeWhile (!isspace ·)])

/-- The tokens of a piece, which ends at a null character. -/
def confParam (buf : Bytes) : Option (List Bytes) :=
  let s := cStr buf
  (loop tokenPass (s.length + 1) (s, [])).join

def confPass (state : Bytes × List (List Bytes)) :
    Pass (Bytes × List (List Bytes)) (Option (List (List Bytes))) :=
  let (fp, paramlist) := state
  match fgets 4096 fp with
  | none => .done (some paramlist)
  | some (buf, fp) =>
      match confParam buf with
      | none => .done none
      | some param => .again (fp, if param = [] then paramlist else paramlist ++ [param])

/-- `parse_conf` of a file with this content, if no `Assert` fails. -/
def parseConf (text : Bytes) : Option (List (List Bytes)) :=
  (loop confPass (text.length + 1) (text, [])).join

def isComment (token : Bytes) : Bool := token.head? = some 35

/-- The tokens of a line up to a comment. -/
def tokens (line : Bytes) : List Bytes := (words isspace line).takeWhile (!isComment ·)

/-- What the file says: the tokens of every line that has some. -/
def confParams (text : Bytes) : List (List Bytes) :=
  ((split text LF).map tokens).filter (!·.isEmpty)

def hasComment (s : Bytes) : Bool := (words isspace s).any isComment

/-- White space or a comment is behind the last token. -/
def TokensEnd (s : Bytes) : Prop := EndsWord isspace s ∨ hasComment s = true

section

variable {front : Bytes}

theorem hasComment_append (h : EndsWord isspace front) (rest : Bytes) :
    hasComment (front ++ rest) = (hasComment front || hasComment rest) := by
  rw [hasComment, words_append h, List.any_append]
  rfl

theorem noComment {s : Bytes} (h : hasComment s = false) :
    ∀ w ∈ words isspace s, (!isComment w) = true := by
  intro w hw
  simpa using List.any_eq_false.mp h w hw

theorem tokens_of_noComment {s : Bytes} (h : hasComment s = false) : tokens s = words isspace s :=
  List.takeWhile_eq_self_iff.mpr (noComment h)

theorem tokens_append (h : EndsWord isspace front) (hno : hasComment front = false) (rest : Bytes) :
    tokens (front ++ rest) = tokens front ++ tokens rest := by
  rw [tokens, words_append h, List.takeWhile_append_of_pos (noComment hno),
    tokens_of_noComment hno]
  rfl

theorem tokensEnd_append (h : EndsWord isspace front) (hno : hasComment front = false)
    (rest : Bytes) : TokensEnd (front ++ rest) ↔ TokensEnd rest := by
  rw [TokensEnd, endsWord_append h, hasComment_append h, hno, Bool.false_or]
  rfl

theorem tokens_comment (h : EndsWord isspace front) (rest : Bytes) :
    hasComment (front ++ 35 :: rest) = true ∧ tokens (front ++ 35 :: rest) = tokens front := by
  have hspace : isspace 35 = false := rfl
  obtain ⟨w, ws, hwords⟩ := words_head hspace rest
  have hhash : isComment (35 :: w) = true := rfl
  constructor
  · rw [hasComment_append h, hasComment, hasComment, hwords, List.any_cons, hhash, Bool.true_or,
      Bool.or_true]
  · have hstop : ((35 :: w) :: ws).takeWhile (!isComment ·) = [] := by
      rw [List.takeWhile_cons, hhash]
      rfl
    rw [tokens, words_append h, hwords, List.takeWhile_append, hstop, List.append_nil]
    split
    · next hall => exact (List.takeWhile_prefix _).eq_of_length hall |>.symm
    · rfl

private theorem hasComment_iff {s : Bytes} :
    hasComment s = true ↔ ∃ front rest, s = front ++ 35 :: rest ∧ EndsWord isspace front := by
  constructor
  · intro h
    obtain ⟨w, hw, hhash⟩ := List.any_eq_true.mp h
    obtain ⟨front, rest, rfl, hfront⟩ := words_position hw
    obtain ⟨w, rfl⟩ := List.head?_eq_some_iff.mp (of_decide_eq_true hhash)
    exact ⟨front, w ++ rest, rfl, hfront⟩
  · rintro ⟨front, rest, rfl, hfront⟩
    exact (tokens_comment hfront rest).1

theorem tokens_append_of_comment {s : Bytes} (h : hasComment s = true) (rest : Bytes) :
    hasComment (s ++ rest) = true ∧ tokens (s ++ rest) = tokens s := by
  obtain ⟨front, comment, rfl, hfront⟩ := hasComment_iff.mp h
  obtain ⟨hcomment, htokens⟩ := tokens_comment hfront (comment ++ rest)
  rw [List.append_assoc, List.cons_append, (tokens_comment hfront comment).2]
  exact ⟨hcomment, htokens⟩

theorem blank_spec {s : Bytes} (h : ∀ c ∈ s, isspace c = true) :
    EndsWord isspace s ∧ hasComment s = false ∧ tokens s = [] := by
  refine ⟨endsWord_of_sep h, ?_, ?_⟩
  · rw [hasComment, words_of_sep h]
    rfl
  · rw [tokens, words_of_sep h]
    rfl

theorem token_spec {w : Bytes} (hne : w ≠ []) (hfree : ∀ c ∈ w, isspace c = false)
    (hhead : w.head? ≠ some 35) : ¬ TokensEnd w ∧
      ∀ c, isspace c = true → EndsWord isspace (w ++ [c]) ∧ hasComment (w ++ [c]) = false ∧
        tokens (w ++ [c]) = [w] := by
  have hcode : isComment w = false := decide_eq_false hhead
  constructor
  · rintro (hends | hcomment)
    · exact not_endsWord_of_free hne hfree hends
    · rw [hasComment, words_of_free hne hfree, List.any_cons, hcode] at hcomment
      cases hcomment
  · intro c hc
    have hwords : words isspace (w ++ [c]) = [w] := words_word hne hfree hc []
    refine ⟨endsWord_append_singleton.mpr hc, ?_, ?_⟩
    · rw [hasComment, hwords, List.any_cons, hcode]
      rfl
    · rw [tokens, hwords, List.takeWhile_cons, hcode]
      rfl

end

/-- The tokens that have been found, and those of the rest. -/
def TokenInv (v : Bytes) (state : Bytes × List Bytes) : Prop :=
  state.2 ++ tokens state.1 = tokens v ∧ (TokensEnd state.1 ↔ TokensEnd v)

/-- A result with the tokens, or a failed assertion. -/
def TokenResult (v : Bytes) (r : Option (List Bytes)) : Prop :=
  (TokensEnd v → r = some (tokens v)) ∧ (¬ TokensEnd v → r = none)

private theorem tokenPass_spec {v : Bytes} (state : Bytes × List Bytes) (hinv : TokenInv v state) :
    (∃ state', tokenPass state = .again state' ∧ TokenInv v state' ∧
      state'.1.length < state.1.length) ∨
    ∃ r, tokenPass state = .done r ∧ TokenResult v r := by
  obtain ⟨s, param⟩ := state
  obtain ⟨htokens, hend⟩ := hinv
  dsimp only at htokens hend
  have hblank : ∀ c ∈ s.takeWhile isspace, isspace c = true := fun c hc => List.mem_takeWhile_imp hc
  obtain ⟨hfront, hno, hnone⟩ := blank_spec hblank
  have hcut : s.takeWhile isspace ++ s.dropWhile isspace = s := List.takeWhile_append_dropWhile
  rw [← hcut, tokens_append hfront hno, hnone, List.nil_append] at htokens
  rw [← hcut, tokensEnd_append hfront hno] at hend
  have hlen : (s.dropWhile isspace).length ≤ s.length := List.length_dropWhile_le _ _
  have hhead := List.head?_dropWhile_not isspace s
  unfold tokenPass
  dsimp only
  generalize s.dropWhile isspace = s at *
  by_cases hstop : s = [] ∨ s.head? = some 35
  · -- nothing is left, or a comment
    rw [if_pos hstop]
    have hleft : TokensEnd s ∧ tokens s = [] := by
      rcases hstop with rfl | hhash
      · exact ⟨.inl endsWord_nil, rfl⟩
      · obtain ⟨rest, rfl⟩ := List.head?_eq_some_iff.mp hhash
        obtain ⟨hcomment, hstart⟩ := tokens_comment endsWord_nil rest
        exact ⟨.inr hcomment, hstart⟩
    rw [hleft.2, List.append_nil] at htokens
    exact .inr ⟨_, rfl, fun _ => congrArg some htokens, fun h => absurd (hend.mp hleft.1) h⟩
  · rw [if_neg hstop]
    obtain ⟨hne, hhash⟩ := not_or.mp hstop
    obtain ⟨b, s, rfl⟩ := List.exists_cons_of_ne_nil hne
    have hb : isspace b = false := by simpa using hhead
    obtain ⟨w, htake, hfree, ⟨hdrop, rfl⟩ | ⟨c, rest, hdrop, hc, rfl⟩⟩ := first_word hb s
    · -- the token runs to the end of the piece
      obtain ⟨hopen, -⟩ := token_spec hne hfree hhash
      rw [hdrop]
      exact .inr ⟨none, rfl, fun h => absurd (hend.mpr h) hopen, fun _ => rfl⟩
    · have htoken : (b :: w).head? ≠ some 35 := hhash
      obtain ⟨-, hclosed⟩ := token_spec (List.cons_ne_nil b w) hfree htoken
      obtain ⟨hends, hcode, hone⟩ := hclosed c hc
      have hshape : b :: (w ++ c :: rest) = ((b :: w) ++ [c]) ++ rest := by simp
      rw [hshape, tokens_append hends hcode, hone, ← List.append_assoc] at htokens
      rw [hshape, tokensEnd_append hends hcode] at hend
      rw [hdrop, htake]
      refine .inl ⟨(rest, param ++ [b :: w]), rfl, ⟨htokens, hend⟩, ?_⟩
      rw [List.length_cons, List.length_append, List.length_cons] at hlen
      dsimp only
      omega

/-- The loop over a piece ends: with its tokens, or with a failed assertion if the
last one runs to the end. -/
theorem confParam_spec (buf : Bytes) : TokenResult (cStr buf) (confParam buf) := by
  have hstart : TokenInv (cStr buf) (cStr buf, []) := ⟨rfl, Iff.rfl⟩
  obtain ⟨r, hloop, hresult⟩ := loop_spec (fun state => state.1.length) tokenPass_spec hstart
    (Nat.lt_succ_self _)
  have hparam : confParam buf = r := by
    rw [confParam, hloop]
    rfl
  exact hparam ▸ hresult

theorem fgets_spec {fp buf rest : Bytes} (h : fgets 4096 fp = some (buf, rest)) :
    fp = buf ++ rest ∧ rest.length < fp.length := by
  unfold fgets at h
  split at h
  · cases h
  · next hne =>
    have hlen : 0 < fp.length := List.length_pos_iff.mpr hne
    cases h
    refine ⟨(List.take_append_drop _ _).symm, ?_⟩
    rw [List.length_drop]
    omega

/-- What `fgets` reads of a file, call after call. -/
def pieces (fp : Bytes) : List Bytes :=
  match _h : fgets 4096 fp with
  | none => []
  | some (buf, rest) => buf :: pieces rest
termination_by fp.length
decreasing_by exact (fgets_spec _h).2

theorem pieces_cons {fp buf rest : Bytes} (h : fgets 4096 fp = some (buf, rest)) :
    pieces fp = buf :: pieces rest := by
  rw [pieces]
  split
  · next hnone => cases hnone.symm.trans h
  · next hsome =>
    cases hsome.symm.trans h
    rfl

theorem pieces_none {fp : Bytes} (h : fgets 4096 fp = none) : pieces fp = [] := by
  rw [pieces]
  split
  · rfl
  · next hsome => cases hsome.symm.trans h

theorem pieces_nil : pieces [] = [] := pieces_none rfl

theorem pieces_flatten (fp : Bytes) : (pieces fp).flatten = fp := by
  induction fp using pieces.induct with
  | case1 fp hnone =>
      have hnil : fp = [] := by
        by_contra hne
        rw [fgets, if_neg hne] at hnone
        cases hnone
      rw [hnil, pieces_nil, List.flatten_nil]
  | case2 fp buf rest hget ih => rw [pieces_cons hget, List.flatten_cons, ih, (fgets_spec hget).1]

/-- The tokens that are found in pieces, where there are some. -/
def collected (ps : List Bytes) : List (List Bytes) :=
  (ps.map fun p => tokens (cStr p)).filter (!·.isEmpty)

theorem collected_nil : collected [] = [] := rfl

theorem collected_append (ps qs : List Bytes) : collected (ps ++ qs) = collected ps ++ collected qs := by
  rw [collected, List.map_append, List.filter_append]
  rfl

theorem collected_cons (p : Bytes) (ps : List Bytes) :
    collected (p :: ps) =
      if tokens (cStr p) = [] then collected ps else tokens (cStr p) :: collected ps := by
  cases htokens : tokens (cStr p) <;> simp [collected, htokens]

/-- The parameters of the pieces, and those of the rest of the file. -/
def ConfInv (text : Bytes) (state : Bytes × List (List Bytes)) : Prop :=
  state.2 ++ collected (pieces state.1) = collected (pieces text) ∧
    ((∀ p ∈ pieces state.1, TokensEnd (cStr p)) ↔ ∀ p ∈ pieces text, TokensEnd (cStr p))

/-- The parameters of all pieces, or a failed assertion. -/
def ConfResult (text : Bytes) (r : Option (List (List Bytes))) : Prop :=
  ((∀ p ∈ pieces text, TokensEnd (cStr p)) → r = some (collected (pieces text))) ∧
    (¬ (∀ p ∈ pieces text, TokensEnd (cStr p)) → r = none)

private theorem confPass_spec {text : Bytes} (state : Bytes × List (List Bytes))
    (hinv : ConfInv text state) :
    (∃ state', confPass state = .again state' ∧ ConfInv text state' ∧
      state'.1.length < state.1.length) ∨
    ∃ r, confPass state = .done r ∧ ConfResult text r := by
  obtain ⟨fp, paramlist⟩ := state
  obtain ⟨hlist, hend⟩ := hinv
  dsimp only at hlist hend
  unfold confPass
  dsimp only
  cases hget : fgets 4096 fp with
  | none =>
      rw [pieces_none hget] at hlist hend
      rw [collected_nil, List.append_nil] at hlist
      have hall : ∀ p ∈ pieces text, TokensEnd (cStr p) := hend.mp nofun
      exact .inr ⟨_, rfl, fun _ => congrArg some hlist, fun h => absurd hall h⟩
  | some result =>
      obtain ⟨buf, rest⟩ := result
      obtain ⟨hends, hopen⟩ := confParam_spec buf
      rw [pieces_cons hget] at hlist hend
      rw [List.forall_mem_cons] at hend
      dsimp only
      by_cases hbuf : TokensEnd (cStr buf)
      · rw [hends hbuf]
        refine .inl ⟨_, rfl, ⟨?_, ?_⟩, (fgets_spec hget).2⟩
        · rw [← hlist, collected_cons]
          dsimp only
          split
          · rfl
          · rw [List.append_assoc, List.singleton_append]
        · exact (and_iff_right hbuf).symm.trans hend
      · rw [hopen hbuf]
        have hnot : ¬ ∀ p ∈ pieces text, TokensEnd (cStr p) := fun hall => hbuf (hend.mpr hall).1
        exact .inr ⟨none, rfl, fun h => absurd h hnot, fun _ => rfl⟩

theorem parseConf_spec (text : Bytes) : ConfResult text (parseConf text) := by
  have hstart : ConfInv text (text, []) := ⟨rfl, Iff.rfl⟩
  obtain ⟨r, hloop, hresult⟩ := loop_spec (fun state => state.1.length) confPass_spec hstart
    (Nat.lt_succ_self _)
  have hparse : parseConf text = r := by
    rw [parseConf, hloop]
    rfl
  exact hparse ▸ hresult

/-- The lines with their newlines. -/
def terminated : List Bytes → List Bytes
  | [] => []
  | [last] => [last]
  | line :: next :: lines => (line ++ [LF]) :: terminated (next :: lines)

def fileLines (text : Bytes) : List Bytes := terminated (split text LF)

section

variable {line : Bytes}

theorem fileLines_free (h : LF ∉ line) : fileLines line = [line] := by
  rw [fileLines, split_free h]
  rfl

theorem fileLines_line (h : LF ∉ line) (rest : Bytes) :
    fileLines (line ++ LF :: rest) = (line ++ [LF]) :: fileLines rest := by
  obtain ⟨next, lines, hlines⟩ := List.exists_cons_of_ne_nil (split_ne_nil rest LF)
  rw [fileLines, split_separator h, fileLines, hlines]
  rfl

private theorem fgets_line (h : LF ∉ line) (rest : Bytes) :
    fgets 4096 (line ++ LF :: rest) =
      some ((line ++ [LF]).take 4095, (line ++ [LF]).drop 4095 ++ rest) := by
  have hne : line ++ LF :: rest ≠ [] := by simp
  have hidx : (line ++ LF :: rest).idxOf LF = line.length := idxOf_separator h rest
  have hshape : line ++ LF :: rest = (line ++ [LF]) ++ rest := by simp
  have hlen : (line ++ [LF]).length = line.length + 1 := by simp
  rw [fgets, if_neg hne, hidx, hshape]
  dsimp only
  rcases Nat.le_total (line ++ [LF]).length 4095 with hshort | hlong
  · have hmin : min (4096 - 1) (line.length + 1) = (line ++ [LF]).length := by omega
    rw [hmin, List.take_left, List.drop_left, List.take_of_length_le hshort,
      List.drop_of_length_le hshort, List.nil_append]
  · have hmin : min (4096 - 1) (line.length + 1) = 4095 := by omega
    have htake : (line ++ [LF] ++ rest).take 4095 = (line ++ [LF]).take 4095 :=
      List.take_append_of_le_length hlong
    have hdrop : (line ++ [LF] ++ rest).drop 4095 = (line ++ [LF]).drop 4095 ++ rest :=
      List.drop_append_of_le_length hlong
    rw [hmin, htake, hdrop]

private theorem pieces_line (h : LF ∉ line) (rest : Bytes) :
    pieces (line ++ LF :: rest) = pieces (line ++ [LF]) ++ pieces rest := by
  induction hn : line.length using Nat.strong_induction_on generalizing line with
  | _ n ih =>
      have halone := fgets_line h []
      rw [List.append_nil] at halone
      rw [pieces_cons (fgets_line h rest), pieces_cons halone, List.cons_append]
      congr 1
      rcases Nat.lt_or_ge line.length 4095 with hshort | hlong
      · have hlen : (line ++ [LF]).length = line.length + 1 := by simp
        have hnil : (line ++ [LF]).drop 4095 = [] := List.drop_of_length_le (by omega)
        rw [hnil, pieces_nil]
        rfl
      · have hdrop : (line ++ [LF]).drop 4095 = line.drop 4095 ++ [LF] :=
          List.drop_append_of_le_length hlong
        have hfree : LF ∉ line.drop 4095 := fun hmem => h (List.mem_of_mem_drop hmem)
        rw [hdrop, List.append_assoc, List.singleton_append]
        exact ih _ (by rw [List.length_drop]; omega) hfree rfl

end

theorem pieces_fileLines (text : Bytes) : pieces text = (fileLines text).flatMap pieces := by
  induction text using split_induction LF with
  | free s hfree => rw [fileLines_free hfree, List.flatMap_cons, List.flatMap_nil, List.append_nil]
  | separator front rest hfront ih =>
      rw [pieces_line hfront, fileLines_line hfront, List.flatMap_cons, ← ih]

private theorem tokens_newline (line : Bytes) : tokens (line ++ [LF]) = tokens line := by
  have hwords : words isspace (line ++ [LF]) = words isspace line ++ words isspace [] :=
    words_append_cons rfl line []
  rw [tokens, hwords, words_nil, List.append_nil, tokens]

/-- What a line of the file says. -/
def lineParams (line : Bytes) : List (List Bytes) := [tokens line].filter (!·.isEmpty)

theorem confParams_fileLines (text : Bytes) :
    confParams text = (fileLines text).flatMap lineParams := by
  induction text using split_induction LF with
  | free s hfree =>
      rw [confParams, split_free hfree, fileLines_free hfree, List.flatMap_cons, List.flatMap_nil,
        List.append_nil]
      rfl
  | separator front rest hfront ih =>
      have hline : lineParams (front ++ [LF]) = lineParams front := by
        rw [lineParams, tokens_newline, lineParams]
      rw [confParams, split_separator hfront, fileLines_line hfront, List.flatMap_cons, ← ih, hline,
        List.map_cons, ← List.singleton_append, List.filter_append]
      rfl

def NoNull (line : Bytes) : Prop := ∀ w ∈ tokens line, 0 ∉ w

/-- A piece that goes on as `rest`, without a null character in a token: what is
visible of it has its tokens, and it ends between two tokens or in a comment. -/
theorem piece_spec {q rest : Bytes} (hends : TokensEnd (cStr q)) (hfree : NoNull (q ++ rest)) :
    tokens (cStr q) = tokens q ∧ (hasComment q = true ∨
      (hasComment q = false ∧ EndsWord isspace q)) := by
  rcases cStr_rest q with hall | ⟨behind, hcut⟩
  · rw [← hall] at hends ⊢
    cases hcomment : hasComment q with
    | true => exact ⟨rfl, .inl rfl⟩
    | false =>
        rw [TokensEnd, hcomment] at hends
        exact ⟨rfl, .inr ⟨rfl, hends.resolve_right Bool.noConfusion⟩⟩
  · generalize cStr q = visible at *
    subst hcut
    cases hcomment : hasComment visible with
    | true =>
        obtain ⟨hwhole, htokens⟩ := tokens_append_of_comment hcomment (0 :: behind)
        exact ⟨htokens.symm, .inl hwhole⟩
    | false =>
        -- the null character would be the first one of a token
        rw [TokensEnd, hcomment] at hends
        have hend : EndsWord isspace visible := hends.resolve_right Bool.noConfusion
        have hspace : isspace 0 = false := rfl
        obtain ⟨w, ws, hwords⟩ := words_head hspace (behind ++ rest)
        have htoken : 0 :: w ∈ tokens (0 :: (behind ++ rest)) := by
          rw [tokens, hwords, List.takeWhile_cons_of_pos rfl]
          exact List.mem_cons_self
        rw [List.append_assoc, List.cons_append] at hfree
        refine absurd List.mem_cons_self (hfree (0 :: w) ?_)
        rw [tokens_append hend hcomment]
        exact List.mem_append_right _ htoken

/-- Only white space is in front of the piece with the tokens, and no token behind
it. -/
def Gathered : List Bytes → Prop
  | [] => True
  | p :: ps => (∀ q ∈ ps, tokens (cStr q) = []) ∨ ((∀ c ∈ p, isspace c = true) ∧ Gathered ps)

theorem collected_eq_nil_iff (ps : List Bytes) :
    collected ps = [] ↔ ∀ q ∈ ps, tokens (cStr q) = [] := by
  simp [collected, List.filter_eq_nil_iff]

theorem lineParams_eq (line : Bytes) :
    lineParams line = if tokens line = [] then [] else [tokens line] := by
  cases htokens : tokens line <;> simp [lineParams, htokens]

private theorem collected_comment {q : Bytes} {ps : List Bytes}
    (hvisible : tokens (cStr q) = tokens q)
    (hcomment : hasComment q = true) :
    (collected (q :: ps) = [] → tokens (q ++ ps.flatten) = []) ∧
      (collected (q :: ps) = lineParams (q ++ ps.flatten) ↔ Gathered (q :: ps)) := by
  have htokens := (tokens_append_of_comment hcomment ps.flatten).2
  have hmore : ¬ ∀ c ∈ q, isspace c = true := by
    intro hblank
    rw [(blank_spec hblank).2.1] at hcomment
    cases hcomment
  have hbehind : Gathered (q :: ps) ↔ collected ps = [] := by
    rw [collected_eq_nil_iff, Gathered]
    exact or_iff_left fun h => hmore h.1
  rw [lineParams_eq, htokens, collected_cons, hvisible, hbehind]
  by_cases hnil : tokens q = []
  · rw [if_pos hnil, if_pos hnil]
    exact ⟨fun _ => hnil, Iff.rfl⟩
  · rw [if_neg hnil, if_neg hnil]
    exact ⟨nofun, by rw [List.cons.injEq, eq_self, true_and]⟩

private theorem collected_code {q : Bytes} {ps : List Bytes} (hvisible : tokens (cStr q) = tokens q)
    (hcode : hasComment q = false) (hend : EndsWord isspace q)
    (hnone : collected ps = [] → tokens ps.flatten = [])
    (hgathered : collected ps = lineParams ps.flatten ↔ Gathered ps) :
    (collected (q :: ps) = [] → tokens (q ++ ps.flatten) = []) ∧
      (collected (q :: ps) = lineParams (q ++ ps.flatten) ↔ Gathered (q :: ps)) := by
  have hblank : tokens q = [] ↔ ∀ c ∈ q, isspace c = true := by
    rw [tokens_of_noComment hcode, words_eq_nil_iff]
  rw [lineParams_eq, tokens_append hend hcode, collected_cons, hvisible, Gathered, ← hblank,
    ← hgathered, ← collected_eq_nil_iff, lineParams_eq]
  by_cases hnil : tokens q = []
  · rw [if_pos hnil, hnil, List.nil_append]
    refine ⟨hnone, ⟨fun h => .inr ⟨rfl, h⟩, ?_⟩⟩
    rintro (hempty | ⟨-, h⟩)
    · rw [hempty, if_pos (hnone hempty)]
    · exact h
  · have hsome : tokens q ++ tokens ps.flatten ≠ [] := List.append_ne_nil_of_left_ne_nil hnil _
    rw [if_neg hnil, if_neg hsome, List.cons.injEq]
    refine ⟨nofun, ⟨fun h => .inl h.2, ?_⟩⟩
    rintro (hempty | ⟨h, -⟩)
    · rw [hnone hempty, List.append_nil]
      exact ⟨rfl, hempty⟩
    · exact absurd h hnil

/-- The pieces of a line have its tokens exactly if these are in one of them. -/
theorem collected_flatten (ps : List Bytes) (hends : ∀ p ∈ ps, TokensEnd (cStr p))
    (hfree : NoNull ps.flatten) :
    (collected ps = [] → tokens ps.flatten = []) ∧
      (collected ps = lineParams ps.flatten ↔ Gathered ps) := by
  induction ps with
  | nil => exact ⟨fun _ => rfl, iff_of_true rfl trivial⟩
  | cons q ps ih =>
      obtain ⟨hq, hps⟩ := List.forall_mem_cons.mp hends
      rw [List.flatten_cons] at hfree ⊢
      obtain ⟨hvisible, hcomment | ⟨hcode, hend⟩⟩ := piece_spec hq hfree
      · exact collected_comment hvisible hcomment
      · have hrest : NoNull ps.flatten := by
          intro w hw
          refine hfree w ?_
          rw [tokens_append hend hcode]
          exact List.mem_append_right _ hw
        obtain ⟨hnone, hgathered⟩ := ih hps hrest
        exact collected_code hvisible hcode hend hnone hgathered

/-- Lists laid end to end, where none of the first is shorter than its partner. -/
theorem flatMap_eq_iff {α β : Type*} {f g : α → List β} {xs : List α}
    (hlen : ∀ x ∈ xs, (g x).length ≤ (f x).length) :
    xs.flatMap f = xs.flatMap g ↔ ∀ x ∈ xs, f x = g x := by
  have hlong : ∀ ys ⊆ xs, (ys.flatMap g).length ≤ (ys.flatMap f).length := by
    intro ys hys
    induction ys with
    | nil => exact le_rfl
    | cons y ys ih =>
        obtain ⟨hy, hys⟩ := List.cons_subset.mp hys
        have hfirst := hlen y hy
        have hrest := ih hys
        rw [List.flatMap_cons, List.flatMap_cons, List.length_append, List.length_append]
        omega
  constructor
  · intro h
    induction xs with
    | nil => exact nofun
    | cons x xs ih =>
        obtain ⟨hx, hxs⟩ := List.forall_mem_cons.mp hlen
        have hrest := hlong xs (List.subset_cons_self x xs)
        have htotal := congrArg List.length h
        rw [List.flatMap_cons, List.flatMap_cons, List.length_append, List.length_append] at htotal
        rw [List.flatMap_cons, List.flatMap_cons] at h
        obtain ⟨hfirst, hlater⟩ := List.append_inj h (by omega)
        refine List.forall_mem_cons.mpr ⟨hfirst, ih hxs ?_ hlater⟩
        exact fun ys hys => hlong ys (List.subset_cons_of_subset x hys)
  · exact fun h => List.flatMap_congr h

theorem collected_flatMap (lines : List Bytes) :
    collected (lines.flatMap pieces) = lines.flatMap fun line => collected (pieces line) := by
  induction lines with
  | nil => rfl
  | cons line lines ih => rw [List.flatMap_cons, List.flatMap_cons, collected_append, ih]

/-- What `fgets` and `strlen` may do to a line: no token has a null character, no
visible piece ends in a token, and the tokens are all in one piece. -/
structure LineFits (line : Bytes) : Prop where
  noNull : NoNull line
  ends : ∀ p ∈ pieces line, TokensEnd (cStr p)
  gathered : Gathered (pieces line)

theorem collected_pieces {line : Bytes} (hends : ∀ p ∈ pieces line, TokensEnd (cStr p))
    (hfree : NoNull line) :
    (lineParams line).length ≤ (collected (pieces line)).length ∧
      (collected (pieces line) = lineParams line ↔ Gathered (pieces line)) := by
  have hflatten := collected_flatten (pieces line) hends ((pieces_flatten line).symm ▸ hfree)
  rw [pieces_flatten] at hflatten
  refine ⟨?_, hflatten.2⟩
  rw [lineParams_eq]
  split
  · exact Nat.zero_le _
  · next hsome =>
    have hne : collected (pieces line) ≠ [] := mt hflatten.1 hsome
    exact List.length_pos_iff.mpr hne

theorem noNull_of_collected {text : Bytes} (h : collected (pieces text) = confParams text) :
    ∀ line ∈ fileLines text, NoNull line := by
  intro line hline w hw hzero
  have hparam : tokens line ∈ confParams text := by
    rw [confParams_fileLines, List.mem_flatMap]
    refine ⟨line, hline, ?_⟩
    rw [lineParams_eq, if_neg (List.ne_nil_of_mem hw)]
    exact List.mem_cons_self
  rw [← h] at hparam
  obtain ⟨p, -, hp⟩ := List.mem_map.mp (List.mem_filter.mp hparam).1
  rw [← hp] at hw
  have hvisible : 0 ∈ cStr p := (mem_words (List.takeWhile_subset _ hw)).2.2 hzero
  exact absurd (List.mem_takeWhile_imp hvisible) (by decide)

theorem parseConf_eq_iff (text : Bytes) :
    parseConf text = some (confParams text) ↔
      (∀ p ∈ pieces text, TokensEnd (cStr p)) ∧ collected (pieces text) = confParams text := by
  obtain ⟨hsome, hnone⟩ := parseConf_spec text
  by_cases hends : ∀ p ∈ pieces text, TokensEnd (cStr p)
  · rw [hsome hends, Option.some_inj]
    exact (and_iff_right hends).symm
  · rw [hnone hends]
    exact iff_of_false nofun fun h => hends h.1

private theorem tokensEnd_pieces_iff (text : Bytes) :
    (∀ p ∈ pieces text, TokensEnd (cStr p)) ↔
      ∀ line ∈ fileLines text, ∀ p ∈ pieces line, TokensEnd (cStr p) := by
  rw [pieces_fileLines]
  simp only [List.mem_flatMap]
  constructor
  · intro h line hline p hp
    exact h p ⟨line, hline, hp⟩
  · rintro h p ⟨line, hline, hp⟩
    exact h line hline p hp

theorem pieces_fit_iff (text : Bytes) :
    (∀ p ∈ pieces text, TokensEnd (cStr p)) ∧ collected (pieces text) = confParams text ↔
      ∀ line ∈ fileLines text, LineFits line := by
  have hcollected : collected (pieces text) =
      (fileLines text).flatMap fun line => collected (pieces line) := by
    rw [pieces_fileLines, collected_flatMap]
  rw [tokensEnd_pieces_iff]
  constructor
  · rintro ⟨hlines, hsame⟩
    have hfree := noNull_of_collected hsame
    rw [hcollected, confParams_fileLines, flatMap_eq_iff fun line hline =>
      (collected_pieces (hlines line hline) (hfree line hline)).1] at hsame
    intro line hline
    have hgathered := (collected_pieces (hlines line hline) (hfree line hline)).2
    exact ⟨hfree line hline, hlines line hline, hgathered.mp (hsame line hline)⟩
  · intro h
    refine ⟨fun line hline => (h line hline).ends, ?_⟩
    rw [hcollected, confParams_fileLines]
    refine List.flatMap_congr fun line hline => ?_
    obtain ⟨hfree, hlines, hgathered⟩ := h line hline
    exact (collected_pieces hlines hfree).2.mpr hgathered

/-- `parse_conf` returns what the file says if and only if every line fits. -/
theorem parseConf_iff (text : Bytes) :
    parseConf text = some (confParams text) ↔ ∀ line ∈ fileLines text, LineFits line :=
  (parseConf_eq_iff text).trans (pieces_fit_iff text)

/-- The last line of a file without a newline. -/
theorem parseConf_unterminated : ¬ ∀ text, parseConf text = some (confParams text) := by
  intro h
  have hfailed : parseConf [97] = none := by decide
  exact absurd (hfailed.symm.trans (h [97])) (by simp)

theorem length_fileLines (text : Bytes) :
    ∀ line ∈ fileLines text, line.length ≤ line.idxOf LF + 1 ∧ line ⊆ text := by
  induction text using split_induction LF with
  | free s hfree =>
      rw [fileLines_free hfree]
      intro line hline
      rw [List.mem_singleton.mp hline, List.idxOf_eq_length hfree]
      exact ⟨Nat.le_succ _, List.Subset.refl _⟩
  | separator front rest hfront ih =>
      rw [fileLines_line hfront]
      intro line hline
      rcases List.mem_cons.mp hline with rfl | hline
      · have hidx : (front ++ [LF]).idxOf LF = front.length := idxOf_separator hfront []
        have hshape : front ++ LF :: rest = (front ++ [LF]) ++ rest := by simp
        rw [hidx, List.length_append, List.length_singleton, hshape]
        exact ⟨le_rfl, List.subset_append_left _ _⟩
      · obtain ⟨hlen, hsub⟩ := ih line hline
        exact ⟨hlen, List.subset_append_of_subset_right _ (List.subset_cons_of_subset LF hsub)⟩

private theorem lineFits_short_iff {line : Bytes} (hnull : 0 ∉ line) (hshort : line.length ≤ 4095)
    (hline : line.length ≤ line.idxOf LF + 1) : LineFits line ↔ TokensEnd line := by
  have hvisible : cStr line = line := by
    have happend := cStr_append_free hnull []
    rw [List.append_nil] at happend
    exact happend.trans (List.append_nil line)
  have hfree : NoNull line :=
    fun w hw hzero => hnull ((mem_words (List.takeWhile_subset _ hw)).2.2 hzero)
  by_cases hne : line = []
  · subst hne
    refine iff_of_true ⟨hfree, ?_, ?_⟩ (.inl endsWord_nil)
    · rw [pieces_nil]
      exact nofun
    · rw [pieces_nil]
      trivial
  · have hget : fgets 4096 line = some (line, []) := by
      have hall : line.length ≤ min (4096 - 1) (line.idxOf LF + 1) := by omega
      rw [fgets, if_neg hne]
      dsimp only
      rw [List.take_of_length_le hall, List.drop_of_length_le hall]
    have hpieces : pieces line = [line] := by rw [pieces_cons hget, pieces_nil]
    constructor
    · intro h
      have hends := h.ends line (hpieces ▸ List.mem_cons_self)
      rwa [hvisible] at hends
    · intro h
      refine ⟨hfree, ?_, ?_⟩
      · rw [hpieces]
        intro p hp
        rwa [List.mem_singleton.mp hp, hvisible]
      · rw [hpieces]
        exact .inl nofun

private theorem tokensEnd_fileLines_iff (text : Bytes) :
    (∀ line ∈ fileLines text, TokensEnd line) ↔ ∀ last ∈ (split text LF).getLast?, TokensEnd last := by
  induction text using split_induction LF with
  | free s hfree => simp [fileLines_free hfree, split_free hfree]
  | separator front rest hfront ih =>
      have hends : TokensEnd (front ++ [LF]) := .inl (endsWord_append_singleton.mpr rfl)
      have hlast : (front :: split rest LF).getLast? = (split rest LF).getLast? := by
        obtain ⟨next, lines, hlines⟩ := List.exists_cons_of_ne_nil (split_ne_nil rest LF)
        rw [hlines, List.getLast?_cons_cons]
      rw [fileLines_line hfront, split_separator hfront, List.forall_mem_cons, hlast, ← ih]
      exact and_iff_right hends

/-- With short lines only the last one matters: it has to be empty or to end with
white space or a comment. -/
theorem parseConf_short_iff {text : Bytes} (hnull : 0 ∉ text)
    (hshort : ∀ line ∈ fileLines text, line.length ≤ 4095) :
    parseConf text = some (confParams text) ↔
      ∀ last ∈ (split text LF).getLast?, TokensEnd last := by
  rw [parseConf_eq_iff, pieces_fit_iff, ← tokensEnd_fileLines_iff]
  refine forall₂_congr fun line hline => ?_
  obtain ⟨hlen, hsub⟩ := length_fileLines text line hline
  exact lineFits_short_iff (fun hmem => hnull (hsub hmem)) (hshort line hline) hlen

theorem parseConf_params {text : Bytes} {params : List (List Bytes)}
    (h : parseConf text = some params) :
    ∀ param ∈ params, param ≠ [] ∧ ∀ w ∈ param,
      w ≠ [] ∧ (∀ c ∈ w, isspace c = false) ∧ 0 ∉ w ∧ isComment w = false := by
  obtain ⟨hsome, hnone⟩ := parseConf_spec text
  have hends : ∀ p ∈ pieces text, TokensEnd (cStr p) := by
    by_contra hnot
    rw [hnone hnot] at h
    cases h
  have hparams : collected (pieces text) = params := Option.some.inj ((hsome hends).symm.trans h)
  intro param hparam
  rw [← hparams] at hparam
  obtain ⟨hmem, hne⟩ := List.mem_filter.mp hparam
  obtain ⟨p, -, rfl⟩ := List.mem_map.mp hmem
  refine ⟨by simpa using hne, fun w hw => ?_⟩
  obtain ⟨hsome', hfree, hsub⟩ := mem_words (List.takeWhile_subset _ hw)
  refine ⟨hsome', hfree, fun hzero => ?_, ?_⟩
  · exact absurd (List.mem_takeWhile_imp (hsub hzero)) (by decide)
  · simpa using List.mem_takeWhile_imp hw

end Angel.Util
