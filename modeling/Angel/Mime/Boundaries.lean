import Angel.Mime.Tree

/-!
The boundaries that the threads of a process generate. The sequence number and
the thread id are delimited, so that whatever the time is, no boundary is a
prefix of another.
-/

namespace Angel.Mime

open Util

section

variable {Thread : Type*} [DecidableEq Thread]

/-- A call by a thread, at a time. -/
structure BoundaryCall (Thread : Type*) where
  thread : Thread
  us : Nat

/-- What a call puts into its boundary. -/
structure Stamp (Thread : Type*) where
  thread : Thread
  part : Nat
  us : Nat

def Stamp.text (tid : Thread → Bytes) (s : Stamp Thread) : Bytes :=
  boundaryText s.part (tid s.thread) s.us

/-- `part++` of the thread; a `size_t` for each thread. -/
def countPart (parts : Thread → Nat) (t : Thread) : Thread → Nat :=
  Function.update parts t ((parts t + 1) % 2 ^ 64)

/-- The calls of all threads, one after the other. -/
def stamps (parts : Thread → Nat) : List (BoundaryCall Thread) → List (Stamp Thread)
  | [] => []
  | call :: calls =>
      ⟨call.thread, parts call.thread, call.us⟩ :: stamps (countPart parts call.thread) calls

/-- The counters when the process starts. -/
def firstParts : Thread → Nat := fun _ => 1

def callsOf (t : Thread) (calls : List (BoundaryCall Thread)) : Nat :=
  calls.countP fun call => call.thread = t

/-- No counter of a run wraps. -/
def Unwrapped (parts : Thread → Nat) (calls : List (BoundaryCall Thread)) : Prop :=
  ∀ t, parts t + callsOf t calls < 2 ^ 64

theorem unwrapped_cons {parts : Thread → Nat} {call : BoundaryCall Thread}
    {calls : List (BoundaryCall Thread)} (h : Unwrapped parts (call :: calls)) :
    countPart parts call.thread = Function.update parts call.thread (parts call.thread + 1) ∧
      Unwrapped (countPart parts call.thread) calls := by
  have hcall := h call.thread
  have hcount : callsOf call.thread (call :: calls) = callsOf call.thread calls + 1 := by
    simp [callsOf]
  have hnext : countPart parts call.thread =
      Function.update parts call.thread (parts call.thread + 1) := by
    rw [countPart, Nat.mod_eq_of_lt (by omega)]
  refine ⟨hnext, fun t => ?_⟩
  rw [hnext]
  by_cases ht : t = call.thread
  · subst ht
    rw [Function.update_self]
    omega
  · have hsame : callsOf t (call :: calls) = callsOf t calls := by
      simp [callsOf, Ne.symm ht]
    rw [Function.update_of_ne ht, ← hsame]
    exact h t

private theorem le_part_of_mem_stamps {parts : Thread → Nat} {calls : List (BoundaryCall Thread)}
    (h : Unwrapped parts calls) {s : Stamp Thread} (hs : s ∈ stamps parts calls) :
    parts s.thread ≤ s.part := by
  induction calls generalizing parts with
  | nil => exact absurd hs List.not_mem_nil
  | cons call calls ih =>
      obtain ⟨hnext, hrest⟩ := unwrapped_cons h
      rcases List.mem_cons.mp hs with rfl | hs
      · exact le_rfl
      · have hlater := ih hrest hs
        rw [hnext] at hlater
        by_cases ht : s.thread = call.thread
        · rw [ht, Function.update_self] at hlater
          rw [ht]
          omega
        · rwa [Function.update_of_ne ht] at hlater

theorem stamps_pairwise {parts : Thread → Nat} {calls : List (BoundaryCall Thread)}
    (h : Unwrapped parts calls) :
    (stamps parts calls).Pairwise fun s s' => s.thread = s'.thread → s.part ≠ s'.part := by
  induction calls generalizing parts with
  | nil => exact .nil
  | cons call calls ih =>
      obtain ⟨hnext, hrest⟩ := unwrapped_cons h
      refine List.pairwise_cons.mpr ⟨?_, ih hrest⟩
      intro s hs hthread
      have hlater := le_part_of_mem_stamps hrest hs
      rw [hnext, ← hthread, Function.update_self] at hlater
      dsimp only at hlater ⊢
      omega

end

/-- Two texts whose first fields end at the same mark: a prefix has the same
field, and its rest is a prefix of the rest. -/
theorem prefix_delimited {α : Type*} {c : α} {front front' rest rest' : List α} (h : c ∉ front)
    (h' : c ∉ front') (hstarts : front ++ c :: rest <+: front' ++ c :: rest') :
    front = front' ∧ rest <+: rest' := by
  induction front generalizing front' with
  | nil =>
      cases front' with
      | nil => exact ⟨rfl, (List.cons_prefix_cons.mp hstarts).2⟩
      | cons d front' =>
          have hhead : c = d := (List.cons_prefix_cons.mp hstarts).1
          exact absurd (hhead ▸ List.mem_cons_self) h'
  | cons b front ih =>
      cases front' with
      | nil =>
          have hhead : b = c := (List.cons_prefix_cons.mp hstarts).1
          exact absurd (hhead ▸ List.mem_cons_self) h
      | cons d front' =>
          obtain ⟨hhead, htail⟩ := List.cons_prefix_cons.mp hstarts
          obtain ⟨hfront, hrest⟩ := ih (fun hmem => h (List.mem_cons_of_mem b hmem))
            (fun hmem => h' (List.mem_cons_of_mem d hmem)) htail
          exact ⟨by rw [hhead, hfront], hrest⟩

theorem boundaryText_eq (part : Nat) (tid : Bytes) (us : Nat) :
    boundaryText part tid us =
      ascii "----=_Part_" ++ (decimal part ++ 95 :: (tid ++ 46 :: decimal us)) := by
  have hmark : ascii "_" = [95] := rfl
  have hdot : ascii "." = [46] := rfl
  simp only [boundaryText, hmark, hdot, List.append_assoc, List.cons_append, List.nil_append]

/-- A boundary that is a prefix of another has its number and its thread id. -/
theorem boundaryText_prefix {part part' us us' : Nat} {tid tid' : Bytes} (htid : 46 ∉ tid)
    (htid' : 46 ∉ tid') (hstarts : boundaryText part tid us <+: boundaryText part' tid' us') :
    part = part' ∧ tid = tid' := by
  have hdigits : ∀ n, 95 ∉ decimal n := notMem_decimal rfl
  rw [boundaryText_eq, boundaryText_eq, List.prefix_append_right_inj] at hstarts
  obtain ⟨hpart, hrest⟩ := prefix_delimited (hdigits part) (hdigits part') hstarts
  exact ⟨decimal_injective hpart, (prefix_delimited htid htid' hrest).1⟩

private theorem length_boundaryText (part : Nat) (tid : Bytes) (us : Nat) :
    (boundaryText part tid us).length =
      13 + (decimal part).length + tid.length + (decimal us).length := by
  have hstart : (ascii "----=_Part_").length = 11 := rfl
  rw [boundaryText_eq]
  simp only [List.length_append, List.length_cons, hstart]
  omega

/-- Whatever calls the threads make, no boundary is another or a prefix of
another, and none is too long. -/
theorem boundaries_prefixFree {Thread : Type*} [DecidableEq Thread] (tid : Thread → Bytes)
    (hdistinct : ∀ t t', tid t = tid t' → t = t')
    (hfree : ∀ t, tid t ≠ [] ∧ ∀ c ∈ tid t, c ≠ 95 ∧ c ≠ 46)
    (calls : List (BoundaryCall Thread)) (hcounters : Unwrapped firstParts calls) :
    ((stamps firstParts calls).Pairwise fun s s' =>
      ¬ s.text tid <+: s'.text tid ∧ ¬ s'.text tid <+: s.text tid) ∧
    ∀ s ∈ stamps firstParts calls, (tid s.thread).length ≤ 20 → (decimal s.part).length ≤ 20 →
      (decimal s.us).length ≤ 16 → (s.text tid).length ≤ 70 := by
  constructor
  · have hdot : ∀ t, 46 ∉ tid t := fun t hmem => ((hfree t).2 46 hmem).2 rfl
    refine (stamps_pairwise hcounters).imp ?_
    intro s s' hparts
    constructor
    · intro hstarts
      obtain ⟨hpart, htid⟩ := boundaryText_prefix (hdot s.thread) (hdot s'.thread) hstarts
      exact hparts (hdistinct _ _ htid) hpart
    · intro hstarts
      obtain ⟨hpart, htid⟩ := boundaryText_prefix (hdot s'.thread) (hdot s.thread) hstarts
      exact hparts (hdistinct _ _ htid.symm) hpart.symm
  · intro s _ htid hpart hus
    rw [Stamp.text, length_boundaryText]
    omega

/-- Two threads at one time, the id of the first one a prefix of the other. -/
theorem boundaries_two_threads :
    let tid : Bool → Bytes := fun t => if t then ascii "7" else ascii "71"
    let calls : List (BoundaryCall Bool) := [⟨true, 12⟩, ⟨false, 12⟩, ⟨true, 120⟩]
    (stamps firstParts calls).Pairwise fun s s' =>
      ¬ s.text tid <+: s'.text tid ∧ ¬ s'.text tid <+: s.text tid := by
  intro tid calls
  have hcounters : Unwrapped firstParts calls := by
    intro t
    cases t <;> decide
  exact (boundaries_prefixFree tid (by decide) (by decide) calls hcounters).1

end Angel.Mime
