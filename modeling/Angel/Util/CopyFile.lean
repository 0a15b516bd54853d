import Angel.Util
import Angel.Lib.Loop
import Mathlib.Logic.Function.Basic

/-!
`copy_file` over the files of a system and the ways in which `open`, `read` and
`write` can end. Its result starts out as success and stays so where a file
cannot be opened, and what it writes goes behind what the file has.
-/

namespace Angel.Util

open Lib

/-- How a call of `read` or `write` ends; the bytes it moves are counted. -/
inductive Transfer where
  | interrupted
  | failed
  | count (n : Nat)
  deriving DecidableEq, Repr

/-- Paths and regular files. Several paths may lead to one file. -/
structure Files where
  inode : Bytes → Option Nat
  data : Nat → Bytes
  next : Nat
  bounded : ∀ path i, inode path = some i → i < next

namespace Files

variable (files : Files)

/-- What is in the file at a path, which is read as a C string. -/
def contents (path : Bytes) : Option Bytes := (files.inode (cStr path)).map files.data

def setData (i : Nat) (bytes : Bytes) : Files :=
  { files with data := Function.update files.data i bytes }

/-- The path leads to a new, empty file. -/
def create (path : Bytes) : Files where
  inode := Function.update files.inode (cStr path) (some files.next)
  data := Function.update files.data files.next []
  next := files.next + 1
  bounded := by
    intro other i h
    by_cases hpath : other = cStr path
    · rw [hpath, Function.update_self, Option.some.injEq] at h
      omega
    · rw [Function.update_of_ne hpath] at h
      have hbound := files.bounded other i h
      omega

/-- `open` with `O_CREAT`. -/
def openCreate (path : Bytes) : Nat × Files :=
  match files.inode (cStr path) with
  | some i => (i, files)
  | none => (files.next, files.create path)

end Files

/-- `read_file`: what it returns and the position behind it. A `read` moves at
least one byte before the end of the file. -/
def readFile (content : Bytes) :
    (pos len : Nat) → (buf : Bytes) → List Transfer → Option (Option Bytes × Nat × List Transfer)
  | pos, 0, buf, calls => some (some buf, pos, calls)
  | _, _ + 1, _, [] => none
  | pos, len + 1, buf, .interrupted :: calls => readFile content pos (len + 1) buf calls
  | pos, _ + 1, _, .failed :: calls => some (none, pos, calls)
  | pos, len + 1, buf, .count n :: calls =>
      let most := min (len + 1) (content.length - pos)
      if most < n ∨ (n = 0 ∧ 0 < most) then none
      else if n = 0 then some (some buf, pos, calls)
      else readFile content (pos + n) (len + 1 - n) (buf ++ (content.drop pos).take n) calls

/-- `write_file` with `O_APPEND`: whether it succeeds, and the file behind it. -/
def writeFile : (content buf : Bytes) → List Transfer → Option (Bool × Bytes × List Transfer)
  | content, [], calls => some (true, content, calls)
  | _, _ :: _, [] => none
  | content, b :: buf, .interrupted :: calls => writeFile content (b :: buf) calls
  | content, _ :: _, .failed :: calls => some (false, content, calls)
  | content, b :: buf, .count n :: calls =>
      if buf.length + 1 < n then none
      else writeFile (content ++ (b :: buf).take n) ((b :: buf).drop n) calls

/-- The files, the position in the first one, and the calls to come. -/
structure CopyState where
  files : Files
  pos : Nat
  calls : List Transfer

/-- `write_file` of what was read, and whether the loop goes on behind it. -/
def copyBlock (fd2 : Nat) (buf : Bytes) (s : CopyState) :
    Pass CopyState (Option (Bool × CopyState)) :=
  match writeFile (s.files.data fd2) buf s.calls with
  | none => .done none
  | some (written, content, calls) =>
      let s := { s with files := s.files.setData fd2 content, calls := calls }
      if written then .again s else .done (some (false, s))

/-- A pass of the loop of `copy_file`, from the file `fd1` to the file `fd2`. -/
def copyPass (fd1 fd2 : Nat) (s : CopyState) : Pass CopyState (Option (Bool × CopyState)) :=
  match readFile (s.files.data fd1) s.pos 4096 [] s.calls with
  | none => .done none
  | some (none, pos, calls) => .done (some (false, { s with pos := pos, calls := calls }))
  | some (some [], pos, calls) => .done (some (true, { s with pos := pos, calls := calls }))
  | some (some (b :: buf), pos, calls) =>
      copyBlock fd2 (b :: buf) { s with pos := pos, calls := calls }

/-- `copy_file`, when `open` of either path is granted or refused: its result,
the files, and the calls that are not made. -/
def copyFile (files : Files) (src dst : Bytes) (grantSrc grantDst : Bool)
    (calls : List Transfer) : Option (Bool × Files × List Transfer) :=
  if src = dst then some (true, files, calls)
  else
    let fd1 := if grantSrc then files.inode (cStr src) else none
    let opened := files.openCreate dst
    let fd2 := if grantDst then some opened.1 else none
    let files := if grantDst then opened.2 else files
    match fd1, fd2 with
    | some fd1, some fd2 =>
        let s : CopyState := { files := files, pos := 0, calls := calls }
        (loop (copyPass fd1 fd2) (calls.length + 1) s).join.map fun (rc, s) =>
          (rc, s.files, s.calls)
    | _, _ => some (true, files, calls)

theorem readFile_spec {content : Bytes} {pos len : Nat} {buf : Bytes} {calls : List Transfer}
    {res : Option Bytes} {pos' : Nat} {rest : List Transfer}
    (h : readFile content pos len buf calls = some (res, pos', rest)) :
    ∃ made, calls = made ++ rest ∧ (0 < len → made ≠ []) ∧
      ((res = none ∧ .failed ∈ made) ∨
        ∃ k, res = some (buf ++ (content.drop pos).take k) ∧ .failed ∉ made ∧ pos' = pos + k ∧
          k ≤ content.length - pos ∧ (0 < len → k = 0 → content.length ≤ pos)) := by
  fun_induction readFile content pos len buf calls with
  | case1 pos buf calls =>
      cases h
      exact ⟨[], rfl, fun hlen => absurd hlen (by omega), .inr ⟨0, by simp⟩⟩
  | case2 => cases h
  | case3 pos len buf calls ih =>
      obtain ⟨made, rfl, hne, hcases⟩ := ih h
      refine ⟨.interrupted :: made, rfl, fun _ => List.cons_ne_nil _ _, ?_⟩
      rcases hcases with ⟨hres, hfailed⟩ | ⟨k, hres, hfailed, hread⟩
      · exact .inl ⟨hres, List.mem_cons_of_mem _ hfailed⟩
      · exact .inr ⟨k, hres, by simpa using hfailed, hread⟩
  | case4 pos len buf calls =>
      cases h
      exact ⟨[.failed], rfl, fun _ => List.cons_ne_nil _ _, .inl ⟨rfl, List.mem_cons_self⟩⟩
  | case5 => cases h
  | case6 pos len buf calls most hlegal =>
      have hend : content.length ≤ pos := by omega
      cases h
      exact ⟨[.count 0], rfl, fun _ => List.cons_ne_nil _ _, .inr ⟨0, by simpa using hend⟩⟩
  | case7 pos len buf n calls most hlegal hn ih =>
      obtain ⟨made, rfl, -, hcases⟩ := ih h
      refine ⟨.count n :: made, rfl, fun _ => List.cons_ne_nil _ _, ?_⟩
      rcases hcases with ⟨hres, hfailed⟩ | ⟨k, hres, hfailed, hpos, hk, -⟩
      · exact .inl ⟨hres, List.mem_cons_of_mem _ hfailed⟩
      · refine .inr ⟨n + k, ?_, by simpa using hfailed, by omega, by omega, by omega⟩
        rw [hres, List.append_assoc, List.take_add, List.drop_drop]

theorem writeFile_spec {content buf : Bytes} {calls : List Transfer} {written : Bool}
    {content' : Bytes} {rest : List Transfer}
    (h : writeFile content buf calls = some (written, content', rest)) :
    ∃ made, calls = made ++ rest ∧
      ((written = false ∧ .failed ∈ made) ∨
        (written = true ∧ .failed ∉ made ∧ content' = content ++ buf)) := by
  fun_induction writeFile content buf calls with
  | case1 content calls =>
      cases h
      exact ⟨[], rfl, .inr ⟨rfl, List.not_mem_nil, (List.append_nil _).symm⟩⟩
  | case2 => cases h
  | case3 content b buf calls ih =>
      obtain ⟨made, rfl, hcases⟩ := ih h
      refine ⟨.interrupted :: made, rfl, ?_⟩
      rcases hcases with ⟨hres, hfailed⟩ | ⟨hres, hfailed, hcontent⟩
      · exact .inl ⟨hres, List.mem_cons_of_mem _ hfailed⟩
      · exact .inr ⟨hres, by simpa using hfailed, hcontent⟩
  | case4 content b buf calls =>
      cases h
      exact ⟨[.failed], rfl, .inl ⟨rfl, List.mem_cons_self⟩⟩
  | case5 => cases h
  | case6 content b buf n calls hlegal ih =>
      obtain ⟨made, rfl, hcases⟩ := ih h
      refine ⟨.count n :: made, rfl, ?_⟩
      rcases hcases with ⟨hres, hfailed⟩ | ⟨hres, hfailed, hcontent⟩
      · exact .inl ⟨hres, List.mem_cons_of_mem _ hfailed⟩
      · refine .inr ⟨hres, by simpa using hfailed, ?_⟩
        rw [hcontent, List.append_assoc, List.take_append_drop]

/-- What holds between two passes. `start` are the files when both are open; a
file that is copied onto itself does not change while it is empty. -/
structure CopyInv (start : Files) (fd1 fd2 : Nat) (calls : List Transfer) (s : CopyState) : Prop where
  made : ∃ made, calls = made ++ s.calls ∧ .failed ∉ made
  paths : s.files.inode = start.inode
  inside : s.pos ≤ (s.files.data fd1).length
  copied : s.files.data fd2 = start.data fd2 ++ (s.files.data fd1).take s.pos
  source : fd1 ≠ fd2 ∨ start.data fd2 = [] → s.files.data fd1 = start.data fd1

/-- What holds when the loop is left. -/
structure CopyEnd (start : Files) (fd1 fd2 : Nat) (calls : List Transfer) (rc : Bool)
    (s : CopyState) : Prop where
  paths : s.files.inode = start.inode
  made : ∃ made, calls = made ++ s.calls ∧ (rc = false ↔ .failed ∈ made)
  copied : rc = true → s.files.data fd2 = start.data fd2 ++ s.files.data fd1
  source : rc = true → fd1 ≠ fd2 ∨ start.data fd2 = [] →
    s.files.data fd1 = start.data fd1

section

variable {start : Files} {fd1 fd2 : Nat} {calls : List Transfer} {s : CopyState}

theorem CopyInv.more (hinv : CopyInv start fd1 fd2 calls s) {made rest : List Transfer}
    (h : s.calls = made ++ rest) :
    ∃ all, calls = all ++ rest ∧ (.failed ∈ all ↔ .failed ∈ made) := by
  obtain ⟨before, hbefore, hfree⟩ := hinv.made
  refine ⟨before ++ made, by rw [hbefore, h, List.append_assoc], ?_⟩
  rw [List.mem_append, or_iff_right hfree]

theorem CopyInv.written (hinv : CopyInv start fd1 fd2 calls s) {made rest : List Transfer}
    (hcalls : s.calls = made ++ rest) (hfree : .failed ∉ made) {k : Nat}
    (hk : k ≤ (s.files.data fd1).length - s.pos) (hpos : 0 < k) :
    CopyInv start fd1 fd2 calls
      { files := s.files.setData fd2
          (s.files.data fd2 ++ ((s.files.data fd1).drop s.pos).take k)
        pos := s.pos + k
        calls := rest } := by
  obtain ⟨all, hall, hfailed⟩ := hinv.more hcalls
  have hinside := hinv.inside
  have hcopied := hinv.copied
  have hread : (s.files.data fd1).take (s.pos + k) =
      (s.files.data fd1).take s.pos ++ ((s.files.data fd1).drop s.pos).take k := List.take_add
  by_cases hsame : fd1 = fd2
  · subst hsame
    have htaken : (s.files.data fd1 ++ ((s.files.data fd1).drop s.pos).take k).take (s.pos + k) =
        (s.files.data fd1).take (s.pos + k) := List.take_append_of_le_length (by omega)
    have hnonempty : start.data fd1 ≠ [] := by
      -- an empty file has nothing to be read
      intro hempty
      rw [hempty, List.nil_append] at hcopied
      have hlen := congrArg List.length hcopied
      rw [List.length_take] at hlen
      omega
    constructor
    · exact ⟨all, hall, mt hfailed.mp hfree⟩
    · exact hinv.paths
    · simp only [Files.setData, Function.update_self, List.length_append, List.length_take,
        List.length_drop]
      omega
    · simp only [Files.setData, Function.update_self]
      rw [htaken, hread, ← List.append_assoc, ← hcopied]
    · rintro (hne | hempty)
      · exact absurd rfl hne
      · exact absurd hempty hnonempty
  · constructor
    · exact ⟨all, hall, mt hfailed.mp hfree⟩
    · exact hinv.paths
    · simp only [Files.setData, Function.update_of_ne hsame]
      omega
    · simp only [Files.setData, Function.update_self, Function.update_of_ne hsame]
      rw [hread, ← List.append_assoc, ← hcopied]
    · intro hapart
      simp only [Files.setData, Function.update_of_ne hsame]
      exact hinv.source hapart

theorem CopyEnd.of_failed (hpaths : s.files.inode = start.inode) {made : List Transfer}
    (hmade : calls = made ++ s.calls) (hfailed : .failed ∈ made) :
    CopyEnd start fd1 fd2 calls false s where
  paths := hpaths
  made := ⟨made, hmade, iff_of_true rfl hfailed⟩
  copied := fun h => Bool.noConfusion h
  source := fun h => Bool.noConfusion h

theorem CopyInv.atEnd (hinv : CopyInv start fd1 fd2 calls s) {made rest : List Transfer}
    (hcalls : s.calls = made ++ rest) (hfree : .failed ∉ made)
    (hend : (s.files.data fd1).length ≤ s.pos) (pos : Nat) :
    CopyEnd start fd1 fd2 calls true { s with pos := pos, calls := rest } := by
  obtain ⟨all, hall, hfailed⟩ := hinv.more hcalls
  have hcopied := hinv.copied
  rw [List.take_of_length_le hend] at hcopied
  exact ⟨hinv.paths, ⟨all, hall, iff_of_false Bool.noConfusion (mt hfailed.mp hfree)⟩,
    fun _ => hcopied, fun _ => hinv.source⟩

/-- What a pass that leaves the loop leaves it with. -/
def CopyResult (start : Files) (fd1 fd2 : Nat) (calls : List Transfer)
    (r : Option (Bool × CopyState)) : Prop :=
  ∀ rc s, r = some (rc, s) → CopyEnd start fd1 fd2 calls rc s

/-- The loop goes on with fewer calls to come, or is left. -/
def CopyStep (start : Files) (fd1 fd2 : Nat) (calls : List Transfer) (s : CopyState)
    (p : Pass CopyState (Option (Bool × CopyState))) : Prop :=
  (∃ s', p = .again s' ∧ CopyInv start fd1 fd2 calls s' ∧ s'.calls.length < s.calls.length) ∨
    ∃ r, p = .done r ∧ CopyResult start fd1 fd2 calls r

theorem copyResult_none : CopyResult start fd1 fd2 calls none := nofun

theorem CopyEnd.result {rc : Bool} (hend : CopyEnd start fd1 fd2 calls rc s) :
    CopyResult start fd1 fd2 calls (some (rc, s)) := by
  rintro _ _ ⟨⟩
  exact hend

private theorem copyBlock_spec (hinv : CopyInv start fd1 fd2 calls s) {made rest : List Transfer}
    (hcalls : s.calls = made ++ rest) (hne : made ≠ []) (hfree : .failed ∉ made) {k : Nat}
    (hk : k ≤ (s.files.data fd1).length - s.pos) (hpos : 0 < k) :
    CopyStep start fd1 fd2 calls s
      (copyBlock fd2 (((s.files.data fd1).drop s.pos).take k)
        { s with pos := s.pos + k, calls := rest }) := by
  unfold copyBlock
  dsimp only
  cases hwrite : writeFile (s.files.data fd2) (((s.files.data fd1).drop s.pos).take k) rest with
  | none => exact .inr ⟨none, rfl, copyResult_none⟩
  | some result =>
      obtain ⟨written, content, rest'⟩ := result
      obtain ⟨made', rfl, hcases⟩ := writeFile_spec hwrite
      rw [← List.append_assoc] at hcalls
      rcases hcases with ⟨rfl, hfail⟩ | ⟨rfl, hfree', rfl⟩
      · obtain ⟨all, hall, hfailed⟩ := hinv.more hcalls
        have hboth : .failed ∈ made ++ made' := List.mem_append_right made hfail
        exact .inr ⟨_, rfl, CopyEnd.result (.of_failed hinv.paths hall (hfailed.mpr hboth))⟩
      · have hboth : .failed ∉ made ++ made' := by
          rw [List.mem_append, not_or]
          exact ⟨hfree, hfree'⟩
        have hlen : 0 < made.length := List.length_pos_iff.mpr hne
        refine .inl ⟨_, rfl, hinv.written hcalls hboth hk hpos, ?_⟩
        rw [hcalls, List.length_append, List.length_append]
        dsimp only
        omega

private theorem copyPass_spec (s : CopyState) (hinv : CopyInv start fd1 fd2 calls s) :
    CopyStep start fd1 fd2 calls s (copyPass fd1 fd2 s) := by
  unfold copyPass
  cases hread : readFile (s.files.data fd1) s.pos 4096 [] s.calls with
  | none => exact .inr ⟨none, rfl, copyResult_none⟩
  | some result =>
      obtain ⟨res, pos, rest⟩ := result
      obtain ⟨made, hcalls, hne, hcases⟩ := readFile_spec hread
      rcases hcases with ⟨rfl, hfail⟩ | ⟨k, rfl, hfree, rfl, hk, hend⟩
      · obtain ⟨all, hall, hfailed⟩ := hinv.more hcalls
        exact .inr ⟨_, rfl, CopyEnd.result (.of_failed hinv.paths hall (hfailed.mpr hfail))⟩
      · have hsize : (((s.files.data fd1).drop s.pos).take k).length = k := by
          rw [List.length_take, List.length_drop]
          omega
        rw [List.nil_append]
        cases hgot : ((s.files.data fd1).drop s.pos).take k with
        | nil =>
            have hzero : k = 0 := by rw [← hsize, hgot, List.length_nil]
            have hatEnd := hinv.atEnd hcalls hfree (hend (by decide) hzero) (s.pos + k)
            exact .inr ⟨_, rfl, hatEnd.result⟩
        | cons b buf =>
            have hpos : 0 < k := by
              rw [← hsize, hgot]
              exact Nat.succ_pos _
            have hblock := copyBlock_spec hinv hcalls (hne (by decide)) hfree hk hpos
            rw [hgot] at hblock
            exact hblock

theorem copyLoop_spec (hinv : CopyInv start fd1 fd2 calls s) :
    ∃ r, loop (copyPass fd1 fd2) (s.calls.length + 1) s = some r ∧
      CopyResult start fd1 fd2 calls r :=
  loop_spec (fun s => s.calls.length) copyPass_spec hinv (Nat.lt_succ_self _)

/-- A successful copy puts the source in the place of an empty file, and only of
an empty one. -/
theorem CopyEnd.data_eq_iff (hend : CopyEnd start fd1 fd2 calls true s) :
    s.files.data fd2 = start.data fd1 ↔ start.data fd2 = [] := by
  have hcopied := hend.copied rfl
  by_cases hsame : fd1 = fd2
  · subst hsame
    have hempty : start.data fd1 = [] := List.self_eq_append_left.mp hcopied
    exact iff_of_true (hend.source rfl (.inr hempty)) hempty
  · rw [hcopied, hend.source rfl (.inl hsame)]
    exact List.append_left_eq_self

end

namespace Files

variable (files : Files)

/-- The file that is opened has what was there at its path, and no other file
changes. -/
theorem openCreate_spec (path : Bytes) :
    (files.openCreate path).2.inode (cStr path) = some (files.openCreate path).1 ∧
      (files.openCreate path).2.data (files.openCreate path).1 =
        (files.contents path).getD [] ∧
      ∀ other i, files.inode other = some i →
        (files.openCreate path).2.data i = files.data i := by
  unfold openCreate contents
  cases hpath : files.inode (cStr path) with
  | some i => exact ⟨hpath, rfl, fun _ _ _ => rfl⟩
  | none =>
      refine ⟨Function.update_self .., Function.update_self .., ?_⟩
      intro other i hother
      have hbound := files.bounded other i hother
      exact Function.update_of_ne (by omega) ..

end Files

/-- What a caller relies on: after success the contents are those of the source,
and whatever goes wrong with the source or with a transfer is reported. -/
def CopyContract (files : Files) (src dst : Bytes) (grantSrc : Bool) (calls : List Transfer)
    (rc : Bool) (files' : Files) : Prop :=
  (rc = true → files'.contents dst = files.contents src) ∧
    ((grantSrc = false ∨ files.contents src = none) ∨ .failed ∈ calls → rc = false)

/-- The source opens, and either the destination opens, where there was nothing in
it or a transfer fails, or it does not open and has the same contents anyway. -/
def CopyCondition (files : Files) (src dst : Bytes) (grantSrc grantDst : Bool)
    (calls : List Transfer) : Prop :=
  (grantSrc = true ∧ files.contents src ≠ none) ∧
    if grantDst then (files.contents dst).getD [] = [] ∨ .failed ∈ calls
    else files.contents dst = files.contents src

private theorem copyInv_start (start : Files) (fd1 fd2 : Nat) (calls : List Transfer) :
    CopyInv start fd1 fd2 calls { files := start, pos := 0, calls := calls } where
  made := ⟨[], rfl, List.not_mem_nil⟩
  paths := rfl
  inside := Nat.zero_le _
  copied := by simp
  source := fun _ => rfl

section

variable {files files' : Files} {src dst : Bytes} {calls rest : List Transfer} {rc : Bool}

private theorem copyFile_opened (hpaths : src ≠ dst) {fd1 : Nat}
    (hsrc : files.inode (cStr src) = some fd1)
    (hrun : copyFile files src dst true true calls = some (rc, files', rest)) :
    ∃ s, s.files = files' ∧ s.calls = rest ∧
      CopyEnd (files.openCreate dst).2 fd1 (files.openCreate dst).1 calls rc s := by
  obtain ⟨r, hloop, hend⟩ := copyLoop_spec
    (copyInv_start (files.openCreate dst).2 fd1 (files.openCreate dst).1 calls)
  simp only [copyFile, if_neg hpaths, if_true, hsrc] at hrun
  rw [hloop] at hrun
  obtain ⟨⟨rc', s⟩, rfl, hresult⟩ := Option.map_eq_some_iff.mp hrun
  cases hresult
  exact ⟨s, rfl, rfl, hend _ s rfl⟩

private theorem copyFile_unopened (hpaths : src ≠ dst) {grantSrc grantDst : Bool}
    (hclosed : (grantSrc = false ∨ files.contents src = none) ∨ grantDst = false)
    (hrun : copyFile files src dst grantSrc grantDst calls = some (rc, files', rest)) :
    rc = true ∧ files' = (if grantDst then (files.openCreate dst).2 else files) ∧ calls = rest := by
  have hresult : copyFile files src dst grantSrc grantDst calls =
      some (true, if grantDst then (files.openCreate dst).2 else files, calls) := by
    simp only [copyFile, if_neg hpaths]
    rcases hclosed with (hgrant | hnone) | hgrant
    · simp [hgrant]
    · have hinode : files.inode (cStr src) = none := Option.map_eq_none_iff.mp hnone
      simp [hinode]
    · cases hsrc : if grantSrc = true then files.inode (cStr src) else none <;> simp [hgrant]
  cases hresult.symm.trans hrun
  exact ⟨rfl, rfl, rfl⟩

/-- Where both files are open the contract depends on what was in the
destination. -/
theorem copyFile_opened_iff (hpaths : src ≠ dst) (hsrc : files.contents src ≠ none)
    (hrun : copyFile files src dst true true calls = some (rc, files', [])) :
    CopyContract files src dst true calls rc files' ↔
      (files.contents dst).getD [] = [] ∨ .failed ∈ calls := by
  obtain ⟨data, hdata⟩ := Option.ne_none_iff_exists'.mp hsrc
  obtain ⟨fd1, hfd1, hcontent⟩ := Option.map_eq_some_iff.mp hdata
  obtain ⟨s, rfl, hcalls, hend⟩ := copyFile_opened hpaths hfd1 hrun
  obtain ⟨hopen, hold, hkept⟩ := files.openCreate_spec dst
  obtain ⟨made, hmade, hfailed⟩ := hend.made
  rw [hcalls, List.append_nil] at hmade
  subst hmade
  have hafter : s.files.contents dst = some (s.files.data (files.openCreate dst).1) := by
    rw [Files.contents, hend.paths, hopen]
    rfl
  cases rc with
  | false =>
      have hfail : .failed ∈ calls := hfailed.mp rfl
      exact iff_of_true ⟨fun h => Bool.noConfusion h, fun _ => rfl⟩ (.inr hfail)
  | true =>
      have hfree : .failed ∉ calls := fun hmem => Bool.noConfusion (hfailed.mpr hmem)
      have hcopied := hend.data_eq_iff
      rw [hkept _ fd1 hfd1, hold, hcontent] at hcopied
      rw [or_iff_left hfree, ← hcopied, CopyContract, hafter, hdata, Option.some_inj]
      constructor
      · rintro ⟨hsame, -⟩
        exact hsame rfl
      · intro hsame
        refine ⟨fun _ => hsame, ?_⟩
        rintro ((hgrant | hnone) | hmem)
        · exact Bool.noConfusion hgrant
        · exact absurd hnone (Option.some_ne_none data)
        · exact absurd hmem hfree

/-- Exactly when `copy_file` copies or reports failure. -/
theorem copyFile_contract_iff {grantSrc grantDst : Bool} (hpaths : src ≠ dst)
    (hrun : copyFile files src dst grantSrc grantDst calls = some (rc, files', [])) :
    CopyContract files src dst grantSrc calls rc files' ↔
      CopyCondition files src dst grantSrc grantDst calls := by
  by_cases hopens : grantSrc = true ∧ files.contents src ≠ none
  · obtain ⟨rfl, hsrc⟩ := hopens
    cases grantDst with
    | true =>
        rw [copyFile_opened_iff hpaths hsrc hrun, CopyCondition, if_pos rfl]
        exact (and_iff_right ⟨rfl, hsrc⟩).symm
    | false =>
        obtain ⟨rfl, rfl, rfl⟩ := copyFile_unopened hpaths (.inr rfl) hrun
        simp [CopyContract, CopyCondition, hsrc]
  · have hclosed : grantSrc = false ∨ files.contents src = none := by
      rcases Bool.eq_false_or_eq_true grantSrc with htrue | hfalse
      · exact .inr (not_not.mp fun hsrc => hopens ⟨htrue, hsrc⟩)
      · exact .inl hfalse
    obtain ⟨rfl, -, -⟩ := copyFile_unopened hpaths (.inl hclosed) hrun
    refine iff_of_false ?_ fun hcondition => hopens hcondition.1
    rintro ⟨-, hreported⟩
    exact Bool.noConfusion (hreported (.inl hclosed))

end

/-- One file. -/
def Files.single (path bytes : Bytes) : Files where
  inode := fun other => if other = path then some 0 else none
  data := fun _ => bytes
  next := 1
  bounded := by
    intro other i h
    split at h
    · cases h
      exact Nat.one_pos
    · cases h

/-- A copy to a new file, byte by byte and with interruptions. -/
theorem copyFile_bytewise :
    let files := Files.single [97] [104, 105]
    let calls : List Transfer :=
      [.count 1, .interrupted, .count 1, .count 0, .count 1, .interrupted, .count 1, .count 0]
    ∃ files', copyFile files [97] [98] true true calls = some (true, files', []) ∧
      CopyContract files [97] [98] true calls true files' := by
  intro files calls
  obtain ⟨files', hrun⟩ :
      ∃ files', copyFile files [97] [98] true true calls = some (true, files', []) := ⟨_, rfl⟩
  have hcondition : CopyCondition files [97] [98] true true calls := ⟨⟨rfl, nofun⟩, .inl rfl⟩
  exact ⟨files', hrun, (copyFile_contract_iff (by decide) hrun).mpr hcondition⟩

/-- A source that is not there is copied with success. -/
theorem copyFile_missing_source :
    ¬ ∀ (files files' : Files) (src dst : Bytes) (grantSrc grantDst rc : Bool)
      (calls : List Transfer), src ≠ dst →
        copyFile files src dst grantSrc grantDst calls = some (rc, files', []) →
          CopyContract files src dst grantSrc calls rc files' := by
  intro h
  have hcontract := h (.single [98] [120]) _ [97] [98] true true true [] (by decide) rfl
  exact Bool.noConfusion (hcontract.2 (.inl (.inr rfl)))

end Angel.Util
