import Angel.Basic
import Angel.Lib.Run
import Mathlib.Data.List.TakeWhile
import Mathlib.Logic.Function.Basic
import Mathlib.Tactic.Common

/-!
`signaler_t`: signals become bytes in a socket pair, written by `sig_handler` at any moment, and
callbacks of the loop thread. That thread adds, cancels and ignores, by functors and from inside
callbacks, and reads the pair in `sig_catch`.

`cancel_signal_in_loop` and `ignore_siganl_in_loop` take the list of a signal out of `sig_map`
before they call `sigaction`. The two halves are two steps here, since signals may arrive in
between. The order in `add_signal_in_loop` is the other way, and nothing can be told apart.
-/

namespace Angel.Signal

open Lib

/-- The signals for which `::sigaction` succeeds. Their numbers are those of a byte. -/
structure Platform where
  accepts : Nat → Bool
  fits : ∀ signo, accepts signo = true → signo < 256

inductive Fault where
  | assertFailed
  /-- the node that `sig_catch` stands at has been freed -/
  | dangling
  deriving DecidableEq, Repr

/-- Where the loop thread is: outside of `sig_catch`, in front of the next byte, or in the
callback `id` of a signal. -/
inductive Phase where
  | idle
  | catching (rest : Bytes)
  | inCallback (signo id : Nat) (rest : Bytes)
  deriving DecidableEq, Repr

/-- The members of `signaler_t`, a callback being known by its `sig_id`. `installed` tells for
which signals `sig_handler` is the action, `leaving` that `sigaction` is still to be called for a
signal that is out of `sig_map`, and `used` are the ids that have been added. -/
structure Signaler where
  sigMap : Nat → Option (List Nat)
  idMap : Nat → Option Nat
  installed : Nat → Bool
  leaving : Option Nat
  sigPair : Bytes
  phase : Phase
  used : List Nat
  fault : Option Fault

def Signaler.init : Signaler where
  sigMap := fun _ => none
  idMap := fun _ => none
  installed := fun _ => false
  leaving := none
  sigPair := []
  phase := .idle
  used := []
  fault := none

/-- The bytes that `sig_catch` has not processed yet. -/
def Phase.rest : Phase → Bytes
  | .idle => []
  | .catching rest => rest
  | .inCallback _ _ rest => rest

def Signaler.pending (s : Signaler) : Bytes := s.phase.rest ++ s.sigPair

section Platform

variable (p : Platform)

/-- `sig_handler`, or the action of the signal when it is not installed. -/
def Signaler.deliver (s : Signaler) (signo : Nat) : Signaler :=
  if s.installed signo then { s with sigPair := s.sigPair ++ [UInt8.ofNat signo] } else s

def Signaler.sigaction (s : Signaler) (signo : Nat) (handler : Bool) : Signaler :=
  if p.accepts signo then { s with installed := Function.update s.installed signo handler } else s

def Signaler.addSignalInLoop (s : Signaler) (signo id : Nat) : Signaler :=
  let sl := (s.sigMap signo).getD []
  let s := if sl.isEmpty then s.sigaction p signo true else s
  { s with
    idMap := Function.update s.idMap id (some signo)
    sigMap := Function.update s.sigMap signo (some (id :: sl))
    used := id :: s.used }

def Signaler.ignoreSiganlInLoop (s : Signaler) (signo : Nat) : Signaler :=
  let sl := (s.sigMap signo).getD []
  { s with
    idMap := fun id => if id ∈ sl then none else s.idMap id
    sigMap := Function.update s.sigMap signo none
    leaving := some signo }

def Signaler.cancelSignalInLoop (s : Signaler) (id : Nat) : Signaler :=
  match s.idMap id with
  | none => s
  | some signo =>
      let s := { s with idMap := Function.update s.idMap id none }
      match s.sigMap signo with
      | none => { s with fault := some .assertFailed }
      | some sl =>
          let sl := sl.erase id
          if sl.isEmpty then
            { s with sigMap := Function.update s.sigMap signo none, leaving := some signo }
          else { s with sigMap := Function.update s.sigMap signo (some sl) }

/-- The `sigaction` at the end of a cancel or ignore. -/
def Signaler.leave (s : Signaler) : Signaler :=
  match s.leaving with
  | none => s
  | some signo => { s.sigaction p signo false with leaving := none }

/-- The `read` of `sig_catch`. -/
def Signaler.sigCatch (s : Signaler) (n : Nat) : Signaler :=
  { s with
    phase := .catching (s.sigPair.take (min n 1024))
    sigPair := s.sigPair.drop (min n 1024) }

/-- The next byte, up to the call of the first callback of its signal. -/
def Signaler.dispatch (s : Signaler) : Signaler :=
  match s.phase with
  | .catching [] => { s with phase := .idle }
  | .catching (b :: rest) =>
      match s.sigMap b.toNat with
      | none => { s with fault := some .assertFailed }
      | some [] => { s with phase := .catching rest }
      | some (id :: _) => { s with phase := .inCallback b.toNat id rest }
  | _ => s

/-- A callback has returned: the loop over the list goes on from its node. -/
def Signaler.callbackReturn (s : Signaler) : Signaler :=
  match s.phase with
  | .inCallback signo id rest =>
      match ((s.sigMap signo).getD []).dropWhile (· ≠ id) with
      | [] => { s with fault := some .dangling }
      | [_] => { s with phase := .catching rest }
      | _ :: next :: _ => { s with phase := .inCallback signo next rest }
  | _ => s

inductive Event where
  | deliver (signo : Nat)
  | addSignal (signo id : Nat)
  | ignoreSiganl (signo : Nat)
  | cancelSignal (id : Nat)
  | leave
  | sigCatch (n : Nat)
  | dispatch
  | callbackReturn
  deriving DecidableEq, Repr

/-- The loop thread runs a functor or a callback and can call the signaler. -/
def Signaler.mayCall (s : Signaler) : Bool :=
  s.leaving.isNone && (match s.phase with
    | .catching _ => false
    | _ => true)

/-- Signals are delivered at any moment; the loop thread makes only the steps it has come to.
An id is added once. -/
def Signaler.step (s : Signaler) (e : Event) : Signaler :=
  if s.fault.isSome then s
  else
    match e with
    | .deliver signo => s.deliver signo
    | .addSignal signo id =>
        if s.mayCall ∧ id ∉ s.used then s.addSignalInLoop p signo id else s
    | .ignoreSiganl signo => if s.mayCall then s.ignoreSiganlInLoop signo else s
    | .cancelSignal id => if s.mayCall then s.cancelSignalInLoop id else s
    | .leave => s.leave p
    | .sigCatch n => if s.leaving = none ∧ s.phase = .idle then s.sigCatch n else s
    | .dispatch => if s.leaving = none then s.dispatch else s
    | .callbackReturn => if s.leaving = none then s.callbackReturn else s

end Platform

/-- The node of the list that `sig_catch` stands at. -/
def Phase.node : Phase → Option (Nat × Nat)
  | .inCallback signo id _ => some (signo, id)
  | _ => none

/-- Bytes of a signal that have not been processed. -/
def Signaler.Awaits (s : Signaler) (signo : Nat) : Prop := ∃ b ∈ s.pending, b.toNat = signo

/-- The steps after which a byte has no entry in `sig_map`, or the loop over a list no node: a
signal goes out of `sig_map` while a byte of it is pending, a signal arrives between that and the
`sigaction` behind it, or a callback takes itself or the list it stands in away. -/
def Event.Strands (s : Signaler) : Event → Prop
  | .deliver signo => s.installed signo = true ∧ s.sigMap signo = none
  | .cancelSignal id =>
      ∃ signo ∈ s.idMap id,
        (s.sigMap signo = some [id] ∧ s.Awaits signo) ∨ s.phase.node = some (signo, id)
  | .ignoreSiganl signo => s.Awaits signo ∨ ∃ node ∈ s.phase.node, node.1 = signo
  | _ => False

instance (s : Signaler) (signo : Nat) : Decidable (s.Awaits signo) :=
  inferInstanceAs (Decidable (∃ b ∈ s.pending, b.toNat = signo))

instance (s : Signaler) : (e : Event) → Decidable (e.Strands s)
  | .deliver signo =>
      inferInstanceAs (Decidable (s.installed signo = true ∧ s.sigMap signo = none))
  | .cancelSignal id =>
      inferInstanceAs (Decidable (∃ signo ∈ s.idMap id,
        (s.sigMap signo = some [id] ∧ s.Awaits signo) ∨ s.phase.node = some (signo, id)))
  | .ignoreSiganl signo =>
      inferInstanceAs (Decidable (s.Awaits signo ∨ ∃ node ∈ s.phase.node, node.1 = signo))
  | .addSignal _ _ => inferInstanceAs (Decidable False)
  | .leave => inferInstanceAs (Decidable False)
  | .sigCatch _ => inferInstanceAs (Decidable False)
  | .dispatch => inferInstanceAs (Decidable False)
  | .callbackReturn => inferInstanceAs (Decidable False)

/-- `sig_map` and `id_map` hold the same callbacks. -/
structure Paired (s : Signaler) : Prop where
  listed : ∀ id signo, s.idMap id = some signo ↔ id ∈ (s.sigMap signo).getD []
  nonempty : ∀ signo, s.sigMap signo ≠ some []
  nodup : ∀ signo, ((s.sigMap signo).getD []).Nodup
  used : ∀ id signo, s.idMap id = some signo → id ∈ s.used

/-- Every byte that is still to be processed has its entry, and so has the node of the loop. -/
structure Served (p : Platform) (s : Signaler) : Prop where
  paired : Paired s
  accepted : ∀ signo, s.installed signo = true → p.accepts signo = true
  entry : ∀ b ∈ s.pending, s.sigMap b.toNat ≠ none
  node : ∀ signo id, s.phase.node = some (signo, id) → s.idMap id = some signo
  noFault : s.fault = none

theorem Paired.unique {s : Signaler} (h : Paired s) {id signo signo' : Nat}
    (hid : id ∈ (s.sigMap signo).getD []) (hid' : id ∈ (s.sigMap signo').getD []) :
    signo = signo' := by
  have hfirst := (h.listed id signo).mpr hid
  rw [(h.listed id signo').mpr hid'] at hfirst
  exact (Option.some.inj hfirst).symm

theorem sigaction_eq (p : Platform) (s : Signaler) (signo : Nat) (handler : Bool) :
    ∃ installed, s.sigaction p signo handler = { s with installed := installed } ∧
      ∀ other, installed other = true →
        s.installed other = true ∨ p.accepts other = true := by
  unfold Signaler.sigaction
  split
  · next haccepts =>
      refine ⟨_, rfl, ?_⟩
      intro other hinstalled
      by_cases hother : other = signo
      · rw [hother]
        exact Or.inr haccepts
      · rw [Function.update_of_ne hother] at hinstalled
        exact Or.inl hinstalled
  · exact ⟨s.installed, rfl, fun _ h => Or.inl h⟩

theorem addSignalInLoop_eq (p : Platform) (s : Signaler) (signo id : Nat) :
    ∃ installed, s.addSignalInLoop p signo id =
        { s with
          installed := installed
          idMap := Function.update s.idMap id (some signo)
          sigMap := Function.update s.sigMap signo (some (id :: (s.sigMap signo).getD []))
          used := id :: s.used } ∧
      ∀ other, installed other = true →
        s.installed other = true ∨ p.accepts other = true := by
  unfold Signaler.addSignalInLoop
  dsimp only
  split
  · obtain ⟨installed, hsigaction, haccepted⟩ := sigaction_eq p s signo true
    rw [hsigaction]
    exact ⟨installed, rfl, haccepted⟩
  · exact ⟨s.installed, rfl, fun _ h => Or.inl h⟩

theorem getD_update (m : Nat → Option (List Nat)) (signo other : Nat) (entry : Option (List Nat)) :
    (Function.update m signo entry other).getD [] =
      if other = signo then entry.getD [] else (m other).getD [] := by
  by_cases h : other = signo
  · rw [h, Function.update_self, if_pos rfl]
  · rw [Function.update_of_ne h, if_neg h]

theorem Paired.add {p : Platform} {s : Signaler} (h : Paired s) (signo : Nat) {id : Nat}
    (hnew : id ∉ s.used) : Paired (s.addSignalInLoop p signo id) := by
  have hfree : ∀ other, id ∉ (s.sigMap other).getD [] := by
    intro other hmem
    exact hnew (h.used id other ((h.listed id other).mpr hmem))
  obtain ⟨installed, hadd, _⟩ := addSignalInLoop_eq p s signo id
  rw [hadd]
  refine ⟨?_, ?_, ?_, ?_⟩
  · intro i other
    dsimp only
    rw [getD_update]
    by_cases hid : i = id
    · rw [hid, Function.update_self]
      split
      · next hother => simp [hother]
      · next hother => simp [hfree other, Ne.symm hother]
    · rw [Function.update_of_ne hid, h.listed]
      split
      · next hother => simp [hother, hid]
      · rfl
  · intro other
    by_cases hother : other = signo
    · simp [hother]
    · simpa [hother] using h.nonempty other
  · intro other
    dsimp only
    rw [getD_update]
    split
    · exact List.nodup_cons.mpr ⟨hfree signo, h.nodup signo⟩
    · exact h.nodup other
  · intro i other hi
    dsimp only at hi
    by_cases hid : i = id
    · rw [hid]
      exact List.mem_cons_self
    · rw [Function.update_of_ne hid] at hi
      exact List.mem_cons_of_mem _ (h.used i other hi)

theorem Paired.ignore {s : Signaler} (h : Paired s) (signo : Nat) :
    Paired (s.ignoreSiganlInLoop signo) := by
  unfold Signaler.ignoreSiganlInLoop
  refine ⟨?_, ?_, ?_, ?_⟩
  · intro i other
    dsimp only
    rw [getD_update]
    by_cases hi : i ∈ (s.sigMap signo).getD []
    · rw [if_pos hi]
      split
      · simp
      · next hother =>
          simp only [reduceCtorEq, false_iff]
          intro hmem
          exact hother (h.unique hmem hi)
    · rw [if_neg hi, h.listed]
      split
      · next hother => simpa [hother] using hi
      · rfl
  · intro other
    by_cases hother : other = signo
    · simp [hother]
    · simpa [hother] using h.nonempty other
  · intro other
    dsimp only
    rw [getD_update]
    split
    · exact List.nodup_nil
    · exact h.nodup other
  · intro i other hi
    dsimp only at hi
    split at hi
    · cases hi
    · exact h.used i other hi

theorem getD_unless_empty (sl : List Nat) : (if sl = [] then none else some sl).getD [] = sl := by
  split
  · next hnil => rw [hnil, Option.getD_none]
  · rfl

/-- A cancel of an id that is there: `cancel_signal_in_loop` finds the list. -/
theorem cancelSignalInLoop_eq {s : Signaler} (h : Paired s) {id signo : Nat}
    (hid : s.idMap id = some signo) :
    s.cancelSignalInLoop id =
      { s with
        idMap := Function.update s.idMap id none
        sigMap := Function.update s.sigMap signo
          (if ((s.sigMap signo).getD []).erase id = [] then none
            else some (((s.sigMap signo).getD []).erase id))
        leaving :=
          if ((s.sigMap signo).getD []).erase id = [] then some signo else s.leaving } := by
  have hmem := (h.listed id signo).mp hid
  cases hentry : s.sigMap signo with
  | none =>
      rw [hentry] at hmem
      simp at hmem
  | some sl =>
      simp only [Signaler.cancelSignalInLoop, hid, hentry, Option.getD_some]
      split
      · next hempty =>
          have hnil := List.isEmpty_iff.mp hempty
          rw [if_pos hnil, if_pos hnil]
      · next hempty =>
          have hne : sl.erase id ≠ [] := fun hnil => hempty (List.isEmpty_iff.mpr hnil)
          rw [if_neg hne, if_neg hne]

theorem Paired.cancel {s : Signaler} (h : Paired s) (id : Nat) :
    Paired (s.cancelSignalInLoop id) := by
  cases hid : s.idMap id with
  | none =>
      simp only [Signaler.cancelSignalInLoop, hid]
      exact h
  | some signo =>
      rw [cancelSignalInLoop_eq h hid]
      have hmem := (h.listed id signo).mp hid
      refine ⟨?_, ?_, ?_, ?_⟩
      · intro i other
        dsimp only
        rw [getD_update, getD_unless_empty, (h.nodup signo).erase_eq_filter]
        by_cases hi : i = id
        · rw [hi, Function.update_self]
          simp only [reduceCtorEq, false_iff]
          split
          · simp
          · next hother =>
              intro hmem'
              exact hother (h.unique hmem' hmem)
        · rw [Function.update_of_ne hi, h.listed]
          split
          · next hother => simp [hother, hi]
          · rfl
      · intro other
        by_cases hother : other = signo
        · dsimp only
          rw [hother, Function.update_self]
          split
          · simp
          · next hne => simpa using hne
        · simpa [hother] using h.nonempty other
      · intro other
        dsimp only
        rw [getD_update, getD_unless_empty]
        split
        · exact (h.nodup signo).erase id
        · exact h.nodup other
      · intro i other hi
        dsimp only at hi
        by_cases hid' : i = id
        · rw [hid', Function.update_self] at hi
          cases hi
        · rw [Function.update_of_ne hid'] at hi
          exact h.used i other hi

variable {p : Platform} {s : Signaler}

theorem Served.deliver (h : Served p s) {signo : Nat} (hok : ¬ Event.Strands s (.deliver signo)) :
    Served p (s.deliver signo) := by
  unfold Signaler.deliver
  split
  · next hinstalled =>
      have hbyte : (UInt8.ofNat signo).toNat = signo := by
        have hfits := p.fits signo (h.accepted signo hinstalled)
        rw [UInt8.toNat_ofNat']
        exact Nat.mod_eq_of_lt hfits
      refine ⟨⟨h.paired.listed, h.paired.nonempty, h.paired.nodup, h.paired.used⟩,
        h.accepted, ?_, h.node, h.noFault⟩
      intro b hb
      change b ∈ s.phase.rest ++ (s.sigPair ++ [UInt8.ofNat signo]) at hb
      rw [← List.append_assoc, List.mem_append] at hb
      rcases hb with hold | hnew
      · exact h.entry b hold
      · rw [List.mem_singleton.mp hnew, hbyte]
        intro hnone
        exact hok ⟨hinstalled, hnone⟩
  · exact h

theorem Served.add (h : Served p s) (signo : Nat) {id : Nat} (hnew : id ∉ s.used) :
    Served p (s.addSignalInLoop p signo id) := by
  have hpaired := h.paired.add (p := p) signo hnew
  obtain ⟨installed, hadd, haccepted⟩ := addSignalInLoop_eq p s signo id
  rw [hadd] at hpaired ⊢
  refine ⟨hpaired, ?_, ?_, ?_, h.noFault⟩
  · intro other hinstalled
    rcases haccepted other hinstalled with hold | hnew
    · exact h.accepted other hold
    · exact hnew
  · intro b hb
    by_cases hother : b.toNat = signo
    · simp [hother]
    · simpa [hother] using h.entry b hb
  · intro other i hnode
    have hi := h.node other i hnode
    have hne : i ≠ id := by
      rintro rfl
      exact hnew (h.paired.used i other hi)
    simpa [hne] using hi

theorem Served.ignore (h : Served p s) {signo : Nat}
    (hok : ¬ Event.Strands s (.ignoreSiganl signo)) : Served p (s.ignoreSiganlInLoop signo) := by
  refine ⟨h.paired.ignore signo, h.accepted, ?_, ?_, h.noFault⟩
  · intro b hb
    have hother : b.toNat ≠ signo := fun heq => hok (Or.inl ⟨b, hb, heq⟩)
    simpa [Signaler.ignoreSiganlInLoop, hother] using h.entry b hb
  · intro other i hnode
    have hi := h.node other i hnode
    have hfree : i ∉ (s.sigMap signo).getD [] := by
      intro hmem
      have hsame := h.paired.unique ((h.paired.listed i other).mp hi) hmem
      subst hsame
      exact hok (Or.inr ⟨(other, i), hnode, rfl⟩)
    simpa [Signaler.ignoreSiganlInLoop, hfree] using hi

theorem Served.cancel (h : Served p s) {id : Nat}
    (hok : ¬ Event.Strands s (.cancelSignal id)) : Served p (s.cancelSignalInLoop id) := by
  cases hid : s.idMap id with
  | none =>
      simp only [Signaler.cancelSignalInLoop, hid]
      exact h
  | some signo =>
      have hpaired := h.paired.cancel id
      have hmem := (h.paired.listed id signo).mp hid
      rw [cancelSignalInLoop_eq h.paired hid] at hpaired ⊢
      refine ⟨hpaired, h.accepted, ?_, ?_, h.noFault⟩
      · intro b hb
        by_cases hother : b.toNat = signo
        · -- a byte of the signal is pending, so this was not its last callback
          have hmore : ((s.sigMap signo).getD []).erase id ≠ [] := by
            intro hnil
            have hlast : (s.sigMap signo).getD [] = [id] := by
              rcases List.erase_eq_nil_iff.mp hnil with hempty | hone
              · rw [hempty] at hmem
                cases hmem
              · exact hone
            have hentry : s.sigMap signo = some [id] := by
              cases hsl : s.sigMap signo with
              | none =>
                  rw [hsl] at hlast
                  cases hlast
              | some sl =>
                  rw [hsl, Option.getD_some] at hlast
                  rw [hlast]
            exact hok ⟨signo, hid, Or.inl ⟨hentry, b, hb, hother⟩⟩
          rw [hother, if_neg hmore]
          simp
        · simpa [hother] using h.entry b hb
      · intro other i hnode
        have hi := h.node other i hnode
        have hne : i ≠ id := by
          rintro rfl
          exact hok ⟨other, hi, Or.inr hnode⟩
        simpa [hne] using hi

theorem Served.leave (h : Served p s) : Served p (s.leave p) := by
  unfold Signaler.leave
  split
  · exact h
  · next signo hleaving =>
      obtain ⟨installed, hsigaction, haccepted⟩ := sigaction_eq p s signo false
      rw [hsigaction]
      refine ⟨⟨h.paired.listed, h.paired.nonempty, h.paired.nodup, h.paired.used⟩,
        ?_, h.entry, h.node, h.noFault⟩
      intro other hinstalled
      rcases haccepted other hinstalled with hold | hnew
      · exact h.accepted other hold
      · exact hnew

/-- The loop thread goes on in `sig_catch`, with no byte that was not there before. -/
theorem Served.move (h : Served p s) {phase : Phase} {sigPair : Bytes}
    (hrest : ∀ b ∈ phase.rest ++ sigPair, b ∈ s.pending)
    (hnode : ∀ signo id, phase.node = some (signo, id) → s.idMap id = some signo) :
    Served p { s with phase := phase, sigPair := sigPair } :=
  ⟨⟨h.paired.listed, h.paired.nonempty, h.paired.nodup, h.paired.used⟩, h.accepted,
    fun b hb => h.entry b (hrest b hb), hnode, h.noFault⟩

theorem Served.sigCatch (h : Served p s) (n : Nat) : Served p (s.sigCatch n) := by
  apply h.move
  · intro b hb
    rw [Phase.rest, List.take_append_drop] at hb
    exact List.mem_append_right _ hb
  · intro signo id hnode
    cases hnode

theorem Served.dispatch (h : Served p s) : Served p s.dispatch := by
  unfold Signaler.dispatch
  split
  · next hphase =>
      apply h.move
      · intro b hb
        exact List.mem_append_right _ hb
      · intro signo id hnode
        cases hnode
  · next b rest hphase =>
      have hpending : s.pending = b :: rest ++ s.sigPair := by
        rw [Signaler.pending, hphase]
        rfl
      have hrest : ∀ x ∈ rest ++ s.sigPair, x ∈ s.pending := by
        intro x hx
        rw [hpending]
        exact List.mem_cons_of_mem b hx
      split
      · next hnone =>
          apply absurd hnone
          apply h.entry
          rw [hpending]
          exact List.mem_cons_self
      · next hnil => exact absurd hnil (h.paired.nonempty b.toNat)
      · next id more hentry =>
          apply h.move hrest
          intro signo i hnode
          simp only [Phase.node, Option.some.injEq, Prod.mk.injEq] at hnode
          obtain ⟨rfl, rfl⟩ := hnode
          rw [h.paired.listed, hentry]
          exact List.mem_cons_self
  · exact h

theorem Served.callbackReturn (h : Served p s) : Served p s.callbackReturn := by
  unfold Signaler.callbackReturn
  split
  · next signo id rest hphase =>
      have hrest : ∀ b ∈ rest ++ s.sigPair, b ∈ s.pending := by
        intro b hb
        rw [Signaler.pending, hphase]
        exact hb
      have hid : s.idMap id = some signo := by
        apply h.node
        rw [hphase]
        rfl
      have hmem := (h.paired.listed id signo).mp hid
      have hsuffix := List.dropWhile_suffix (l := (s.sigMap signo).getD []) (fun i => decide (i ≠ id))
      split
      · next hnil =>
          -- the node of the loop is still in its list
          have hall := List.dropWhile_eq_nil_iff.mp hnil id hmem
          simp at hall
      · apply h.move hrest
        intro other i hnode
        cases hnode
      · next first next more hdrop =>
          apply h.move hrest
          intro other i hnode
          simp only [Phase.node, Option.some.injEq, Prod.mk.injEq] at hnode
          obtain ⟨rfl, rfl⟩ := hnode
          rw [h.paired.listed]
          apply hsuffix.subset
          rw [hdrop]
          exact List.mem_cons_of_mem _ List.mem_cons_self
  · exact h

theorem served_step {e : Event} (h : Served p s) (hok : ¬ e.Strands s) :
    Served p (s.step p e) := by
  unfold Signaler.step
  rw [h.noFault, if_neg (by simp)]
  cases e with
  | deliver signo => exact h.deliver hok
  | addSignal signo id =>
      dsimp only
      split
      · next hcall => exact h.add signo hcall.2
      · exact h
  | ignoreSiganl signo =>
      dsimp only
      split
      · exact h.ignore hok
      · exact h
  | cancelSignal id =>
      dsimp only
      split
      · exact h.cancel hok
      · exact h
  | leave => exact h.leave
  | sigCatch n =>
      dsimp only
      split
      · exact h.sigCatch n
      · exact h
  | dispatch =>
      dsimp only
      split
      · exact h.dispatch
      · exact h
  | callbackReturn =>
      dsimp only
      split
      · exact h.callbackReturn
      · exact h

/-- What the assertion of `sig_catch` counts on, in one state: it has not failed, the loop over
a list has not lost its node, and each byte to come finds the callbacks of its signal. -/
def Dispatchable (s : Signaler) : Prop :=
  s.fault = none ∧ ∀ b ∈ s.pending, ∃ id sl, s.sigMap b.toNat = some (id :: sl)

theorem Served.dispatchable (h : Served p s) : Dispatchable s := by
  refine ⟨h.noFault, ?_⟩
  intro b hb
  rcases hentry : s.sigMap b.toNat with _ | _ | ⟨id, sl⟩
  · exact absurd hentry (h.entry b hb)
  · exact absurd hentry (h.paired.nonempty b.toNat)
  · exact ⟨id, sl, rfl⟩

theorem Served.init (p : Platform) : Served p Signaler.init where
  paired :=
    { listed := by simp [Signaler.init]
      nonempty := by simp [Signaler.init]
      nodup := by simp [Signaler.init]
      used := by simp [Signaler.init] }
  accepted := by simp [Signaler.init]
  entry := by simp [Signaler.init, Signaler.pending, Phase.rest]
  node := by simp [Signaler.init, Phase.node]
  noFault := rfl

/-- In every run that strands no byte and no loop over a list, `sig_catch` finds the signal of
every byte in `sig_map`. -/
theorem sig_catch_finds_signals (p : Platform) (events : List Event)
    (hrun : Admissible (Signaler.step p) (fun s e => ¬ Event.Strands s e) Signaler.init events) :
    Dispatchable (run (Signaler.step p) Signaler.init events) := by
  have hstep : ∀ (s : Signaler) (e : Event), Served p s → ¬ e.Strands s →
      Served p (s.step p e) := fun _ _ h hok => served_step h hok
  exact (run_invariant hstep (Served.init p) hrun).dispatchable

/-- The standard signals and the real-time signals of Linux, which handles all but two. -/
def linux : Platform where
  accepts := fun signo => 1 ≤ signo && signo ≤ 64 && signo != 9 && signo != 19
  fits := by
    intro signo haccepts
    simp only [Bool.and_eq_true, decide_eq_true_eq] at haccepts
    omega

/-- A callback cancels the other one of its signal, and is cancelled after its return. -/
theorem sig_catch_finds_cancelled :
    Dispatchable (run (Signaler.step linux) Signaler.init
      [.addSignal 2 0, .addSignal 2 1, .deliver 2, .deliver 15, .sigCatch 1024, .dispatch,
        .cancelSignal 0, .callbackReturn, .dispatch, .cancelSignal 1, .leave, .deliver 2,
        .sigCatch 1024, .dispatch]) := by
  apply sig_catch_finds_signals
  refine ⟨?_, ?_, ?_, ?_, ?_, ?_, ?_, ?_, ?_, ?_, ?_, ?_, ?_, ?_, trivial⟩
  all_goals decide

/-- A signal that is cancelled before its byte is read, and a callback that cancels itself. -/
theorem cancelled_before_read :
    (run (Signaler.step linux) Signaler.init
      [.addSignal 2 0, .deliver 2, .cancelSignal 0, .leave, .sigCatch 1024, .dispatch]).fault =
        some .assertFailed ∧
    ¬ Dispatchable (run (Signaler.step linux) Signaler.init
      [.addSignal 2 0, .deliver 2, .cancelSignal 0, .leave, .sigCatch 1024, .dispatch]) ∧
    (run (Signaler.step linux) Signaler.init
      [.addSignal 2 0, .deliver 2, .sigCatch 1024, .dispatch, .cancelSignal 0, .leave,
        .callbackReturn]).fault = some .dangling := by
  refine ⟨by decide, ?_, by decide⟩
  rintro ⟨hfault, _⟩
  exact absurd hfault (by decide)

end Angel.Signal
