import Angel.Reactor.Registry
import Mathlib.Data.Int.CardIntervalMod
import Mathlib.Order.Interval.Finset.Nat

/-!
`evloop_group::get_next_loop` gives the loops out in turn, and nothing else in the server touches the
loop of a connection: after any run the io loops have the same number of connections, up to one.
-/

namespace Angel.Reactor

open Lib

namespace Server

variable {h : Handlers} {s s' : Server} {l : LoopId} {id : ConnId} {c c' : Conn}

structure Steady (s s' : Server) : Prop where
  groupSize : s'.groupSize = s.groupSize
  nextIndex : s'.nextIndex = s.nextIndex
  connId : s'.connId = s.connId
  loops : ∀ id, (s'.conns id).map (·.loop) = (s.conns id).map (·.loop)
  establishing : ∀ id stage, .establishing id stage ∈ s'.frames 0 ↔ .establishing id stage ∈ s.frames 0

theorem Steady.refl (s : Server) : Steady s s := ⟨rfl, rfl, rfl, fun _ => rfl, fun _ _ => Iff.rfl⟩

theorem Steady.trans {s'' : Server} (hs : Steady s s') (hs' : Steady s' s'') : Steady s s'' where
  groupSize := hs'.groupSize.trans hs.groupSize
  nextIndex := hs'.nextIndex.trans hs.nextIndex
  connId := hs'.connId.trans hs.connId
  loops id := (hs'.loops id).trans (hs.loops id)
  establishing id stage := (hs'.establishing id stage).trans (hs.establishing id stage)

theorem steady_set (hc : s.conns id = some c) (hloop : c'.loop = c.loop) :
    Steady s (s.set id c') := by
  refine ⟨rfl, rfl, rfl, fun other => ?_, fun _ _ => Iff.rfl⟩
  obtain rfl | hne := eq_or_ne other id
  · simp [hc, hloop]
  · simp [set, hne]

theorem steady_push (frame : Frame) (huser : frame.inUser) : Steady s (s.push l frame) := by
  refine ⟨rfl, rfl, rfl, fun _ => rfl, fun id stage => ?_⟩
  obtain rfl | hl := eq_or_ne l 0
  · have hne : Frame.establishing id stage ≠ frame := by
      rintro rfl
      simp [Frame.inUser] at huser
    simp [push, setFrames, hne]
  · simp [push, setFrames, hl.symm]

theorem steady_pop {frame : Frame} {frames : List Frame} (hframes : s.frames l = frame :: frames)
    (huser : frame.inUser) : Steady s (s.setFrames l frames) := by
  refine ⟨rfl, rfl, rfl, fun _ => rfl, fun id stage => ?_⟩
  obtain rfl | hl := eq_or_ne l 0
  · have hne : Frame.establishing id stage ≠ frame := by
      rintro rfl
      simp [Frame.inUser] at huser
    simp [setFrames, hframes, hne]
  · simp [setFrames, hl.symm]

theorem steady_notify (s : Server) (id : ConnId) (notice : Notice) :
    Steady s (s.notify id notice) :=
  ⟨rfl, rfl, rfl, fun _ => rfl, fun _ _ => Iff.rfl⟩

theorem steady_runErase (s : Server) (l : LoopId) (id : ConnId) : Steady s (s.runErase l id) := by
  unfold runErase
  split <;> exact ⟨rfl, rfl, rfl, fun _ => rfl, fun _ _ => Iff.rfl⟩

private theorem steady_give (s : Server) (walk : Nat) (id : ConnId) : Steady s (s.give walk id) :=
  ⟨rfl, rfl, rfl, fun _ => rfl, fun _ _ => Iff.rfl⟩

theorem steady_walk (s : Server) (walk : Nat) (rest : List ConnId) : Steady s (s.walk walk rest) := by
  unfold Server.walk
  split
  · exact .refl s
  · exact (steady_give ..).trans (steady_push _ rfl)

private theorem steady_forEach (s : Server) (order : List ConnId) : Steady s (s.forEach order) := by
  have hbegun : Steady s s.beginWalk := ⟨rfl, rfl, rfl, fun _ => rfl, fun _ _ => Iff.rfl⟩
  exact hbegun.trans (steady_walk ..)

theorem steady_enterClosed (hs : s.enterClosed h l id = some s') : Steady s s' := by
  unfold enterClosed at hs
  cases hc : s.conns id with
  | none => simp [hc] at hs
  | some c =>
      simp only [hc, Option.bind_eq_bind, Option.bind_some] at hs
      split at hs
      · exact Option.some.inj hs ▸ .refl s
      · obtain rfl := Option.some.inj hs
        have hset : Steady s (s.set id { c with closed := true, lost := !c.closeHandler }) :=
          steady_set hc rfl
        split
        · refine hset.trans ?_
          unfold removeConnection
          split
          · exact (steady_notify ..).trans (steady_push _ rfl)
          · exact steady_runErase ..
        · exact hset

theorem steady_exec {order : List ConnId} {task : Task} (hs : s.exec h l order task = some s') :
    Steady s s' := by
  cases task with
  | add id =>
      cases hc : s.conns id with
      | none => simp [exec, hc] at hs
      | some c =>
          simp only [exec, hc, Option.bind_eq_bind, Option.bind_some] at hs
          exact Option.some.inj hs ▸ steady_set hc rfl
  | connected id =>
      obtain rfl := Option.some.inj hs
      exact (steady_notify ..).trans (steady_push _ rfl)
  | close id drained =>
      cases drained with
      | false => exact Option.some.inj hs ▸ .refl s
      | true => exact steady_enterClosed hs
  | erase id => exact Option.some.inj hs ▸ ⟨rfl, rfl, rfl, fun _ => rfl, fun _ _ => Iff.rfl⟩
  | forOne id =>
      obtain rfl := Option.some.inj hs
      split
      · exact steady_push _ rfl
      · exact .refl s
  | forEach => exact Option.some.inj hs ▸ steady_forEach ..

theorem steady_runInLoop {thread : Option LoopId} {order : List ConnId} {task : Task}
    (hs : s.runInLoop h thread l order task = some s') : Steady s s' := by
  unfold runInLoop at hs
  split at hs
  · exact steady_exec hs
  · exact Option.some.inj hs ▸ ⟨rfl, rfl, rfl, fun _ => rfl, fun _ _ => Iff.rfl⟩

/-- The loop of the connection with this id. -/
def loopOf (size : Nat) (id : ConnId) : LoopId :=
  if 0 < size then (id - 1) % size + 1 else 0

/-- `next_index`, when this many connections have been made. -/
def turn (size made : Nat) : Nat :=
  if 0 < size ∧ 0 < made then (made - 1) % size + 1 else 0

/-- The connections have been made one after the other, each for the next loop. -/
structure Spread (size : Nat) (s : Server) : Prop where
  groupSize : s.groupSize = size
  positive : 0 < s.connId
  loops : ∀ id c, s.conns id = some c → 0 < id ∧ c.loop = loopOf size id
  complete : ∀ id, 0 < id → id < s.connId → ∃ c, s.conns id = some c
  made : ∀ id, .establishing id .made ∈ s.frames 0 → id = s.connId
  nextIndex : s.nextIndex = turn size (if (s.conns s.connId).isSome then s.connId else s.connId - 1)

variable {size : Nat}

theorem init_spread (size : Nat) : (init size).Spread size where
  groupSize := rfl
  positive := Nat.one_pos
  loops := nofun
  complete id hpos hlt := absurd hpos (Nat.not_lt.mpr (Nat.lt_succ_iff.mp hlt))
  made := nofun
  nextIndex := by simp [init, turn]

theorem Steady.spread (hs : Steady s s') (hspread : s.Spread size) : s'.Spread size where
  groupSize := hs.groupSize.trans hspread.groupSize
  positive := hs.connId ▸ hspread.positive
  loops id c' hc' := by
    have hloop := hs.loops id
    rw [hc', Option.map_some] at hloop
    obtain ⟨c, hc, hsame⟩ := Option.map_eq_some_iff.mp hloop.symm
    exact hsame ▸ hspread.loops id c hc
  complete id hpos hlt := by
    obtain ⟨c, hc⟩ := hspread.complete id hpos (hs.connId ▸ hlt)
    have hloop := hs.loops id
    rw [hc, Option.map_some] at hloop
    obtain ⟨c', hc', -⟩ := Option.map_eq_some_iff.mp hloop
    exact ⟨c', hc'⟩
  made id hmade := (hspread.made id ((hs.establishing id .made).mp hmade)).trans hs.connId.symm
  nextIndex := by
    have hsome : (s'.conns s.connId).isSome = (s.conns s.connId).isSome := by
      simpa using congrArg Option.isSome (hs.loops s.connId)
    rw [hs.nextIndex, hs.connId, hsome]
    exact hspread.nextIndex

private theorem turn_wraps (hpos : 0 < size) (k : Nat) :
    (if size ≤ turn size k then 0 else turn size k) = k % size := by
  cases k with
  | zero => simp [turn]
  | succ k =>
      have hturn : turn size (k + 1) = k % size + 1 := by simp [turn, hpos]
      have hlt := Nat.mod_lt k hpos
      rw [hturn, ← Nat.mod_add_mod]
      split
      · next hend =>
          have hall : k % size + 1 = size := by omega
          rw [hall, Nat.mod_self]
      · next hmore => exact (Nat.mod_eq_of_lt (Nat.not_le.mp hmore)).symm

private theorem accept_spread (hv : s.Valid h) (hidle : s.frames 0 = []) (hspread : s.Spread size)
    (hs : s.step h .accept = some s') : s'.Spread size := by
  have hnone : s.conns s.connId = none := by
    cases hconn : s.conns s.connId with
    | none => rfl
    | some c =>
        rcases hv.born _ c hconn with hlt | ⟨-, hmade⟩
        · exact absurd hlt (Nat.lt_irrefl _)
        · simp [hidle] at hmade
  have hindex := hspread.nextIndex
  simp only [hnone, Option.isSome_none, Bool.false_eq_true, if_false] at hindex
  -- what `get_next_loop` returns, and leaves
  have haccepted : ∀ nextIndex l, l = loopOf size s.connId → nextIndex = turn size s.connId →
      (s.accepted nextIndex l).Spread size := by
    rintro nextIndex l rfl rfl
    have hnew : (s.accepted (turn size s.connId) (loopOf size s.connId)).conns s.connId =
        some (.made (loopOf size s.connId)) := Function.update_self ..
    constructor
    case groupSize => exact hspread.groupSize
    case positive => exact hspread.positive
    case loops =>
      intro id c hc
      obtain rfl | hne := eq_or_ne id s.connId
      · obtain rfl := Option.some.inj (hnew.symm.trans hc)
        exact ⟨hspread.positive, rfl⟩
      · exact hspread.loops id c ((Function.update_of_ne hne _ _).symm.trans hc)
    case complete =>
      intro id hpos hlt
      obtain ⟨c, hc⟩ := hspread.complete id hpos hlt
      exact ⟨c, (Function.update_of_ne (Nat.ne_of_lt hlt) _ _).trans hc⟩
    case made =>
      intro id hmade
      simpa [accepted, push, setFrames, Server.set, hidle] using hmade
    case nextIndex =>
      change turn size s.connId = turn size (if ((s.accepted _ _).conns s.connId).isSome then _ else _)
      rw [hnew]
      rfl
  have hsize := hspread.groupSize
  simp only [step, getNextLoop] at hs
  split at hs
  · next hpos =>
      rw [hsize] at hpos
      refine (steady_runInLoop hs).spread (haccepted _ _ ?_ ?_)
      · rw [hsize, hindex, turn_wraps hpos, loopOf, if_pos hpos]
      · rw [hsize, hindex, turn_wraps hpos, turn, if_pos ⟨hpos, hspread.positive⟩]
  · next hnone =>
      rw [hsize] at hnone
      refine (steady_runInLoop hs).spread (haccepted s.nextIndex 0 ?_ ?_)
      · rw [loopOf, if_neg hnone]
      · rw [hindex]
        simp [turn, hnone]

private theorem establish_spread {stage : Stage} (hv : s.Valid h)
    (hmain : s.frames 0 = [.establishing id stage])
    (hspread : s.Spread size) (hs : s.establish h id stage = some s') : s'.Spread size := by
  obtain ⟨-, -, c, hc⟩ : s.FrameFits 0 (.establishing id stage) :=
    hv.frames 0 _ (hmain ▸ List.mem_cons_self)
  -- behind `create_connection` no step is about a number
  have hlater : ∀ (map : Finset ConnId) (c' : Conn) (next : Stage), c'.loop = c.loop →
      next ≠ .made →
      ({ s.set id c' with connectionMap := map }.setFrames 0
        [.establishing id next]).Spread size := by
    intro map c' next hloop hnext
    obtain ⟨hsize, hpositive, hloops, hcomplete, -, hindex⟩ := (steady_set hc hloop).spread hspread
    refine ⟨hsize, hpositive, hloops, hcomplete, fun other hmade => ?_, hindex⟩
    simp [setFrames, hnext.symm] at hmade
  cases stage with
  | made =>
      obtain rfl : id = s.connId := hspread.made id (hmain ▸ List.mem_cons_self)
      simp only [establish, hc, Option.bind_eq_bind, Option.bind_some] at hs
      obtain rfl := Option.some.inj hs
      obtain ⟨hsize, hpositive, hloops, hcomplete, -, hindex⟩ :=
        (steady_set hc (rfl : { c with handled := true }.loop = c.loop)).spread hspread
      constructor
      case groupSize => exact hsize
      case positive => exact Nat.succ_pos _
      case loops => exact hloops
      case complete =>
        intro id hpos hlt
        rcases Nat.lt_succ_iff_lt_or_eq.mp hlt with hless | rfl
        · exact hcomplete id hpos hless
        · exact ⟨_, conns_set ..⟩
      case made =>
        intro other hmade
        simp [setFrames] at hmade
      case nextIndex =>
        have hnone : s.conns (s.connId + 1) = none := by
          cases hconn : s.conns (s.connId + 1) with
          | none => rfl
          | some d =>
              rcases hv.born _ d hconn with hlt | ⟨heq, -⟩
              · exact absurd hlt (Nat.not_lt_of_gt (Nat.lt_succ_self _))
              · exact absurd heq (Nat.succ_ne_self _)
        have hset : (s.set s.connId { c with handled := true }).conns (s.connId + 1) = none :=
          (Function.update_of_ne (Nat.succ_ne_self _) _ _).trans hnone
        have hindex' : s.nextIndex = turn size s.connId := by
          rw [hspread.nextIndex, hc]
          rfl
        change s.nextIndex = turn size (if ((s.set _ _).conns (s.connId + 1)).isSome then _ else _)
        rw [hset, hindex']
        rfl
  | handled | constructed | messageSet =>
      simp only [establish, hc, Option.bind_eq_bind, Option.bind_some] at hs
      exact Option.some.inj hs ▸ hlater _ _ _ rfl (by simp)
  | closeSet =>
      have hlisted := hlater (insert id s.connectionMap) c .listed rfl (by simp)
      rw [set_self hc] at hlisted
      exact Option.some.inj hs ▸ hlisted
  | listed =>
      simp only [establish, hc, Option.bind_eq_bind, Option.bind_some] at hs
      have hdone : (s.setFrames 0 []).Spread size := by
        obtain ⟨hsize, hpositive, hloops, hcomplete, -, hindex⟩ := hspread
        exact ⟨hsize, hpositive, hloops, hcomplete, by simp [setFrames], hindex⟩
      split at hs
      · exact (steady_runInLoop hs).spread hdone
      · exact Option.some.inj hs ▸ hdone

private theorem step_spread {e : Event} (hv : s.Valid h) (hok : s.Allowed e)
    (hspread : s.Spread size)
    (hs : s.step h e = some s') : s'.Spread size := by
  cases e with
  | accept => exact accept_spread hv hok hspread hs
  | establish =>
      obtain ⟨id, stage, frames, hframes⟩ := hok
      obtain ⟨-, hmain, -⟩ : s.FrameFits 0 (.establishing id stage) :=
        hv.frames 0 _ (hframes ▸ List.mem_cons_self)
      simp only [step, hframes] at hs
      exact establish_spread hv hmain hspread hs
  | message id =>
      obtain ⟨c, hc, -⟩ := hok
      simp only [step, hc, Option.bind_eq_bind, Option.bind_some] at hs
      refine Steady.spread ?_ hspread
      split at hs <;> obtain rfl := Option.some.inj hs
      · exact (steady_notify ..).trans (steady_push _ rfl)
      · exact steady_notify ..
  | terminate id =>
      obtain ⟨c, hc, -⟩ := hok
      simp only [step, hc, Option.bind_eq_bind, Option.bind_some] at hs
      exact (steady_enterClosed hs).spread hspread
  | close thread id drained =>
      obtain ⟨-, c, hc, -⟩ := hok
      simp only [step, hc, Option.bind_eq_bind, Option.bind_some] at hs
      exact (steady_runInLoop hs).spread hspread
  | forOne thread id => exact (steady_runInLoop hs).spread hspread
  | forEach thread order => exact (steady_runInLoop hs).spread hspread
  | run l order =>
      cases htasks : s.tasks l with
      | nil =>
          simp only [step, htasks] at hs
          exact Option.some.inj hs ▸ hspread
      | cons task tasks =>
          simp only [step, htasks] at hs
          refine (Steady.trans ?_ (steady_exec hs)).spread hspread
          exact ⟨rfl, rfl, rfl, fun _ => rfl, fun _ _ => Iff.rfl⟩
  | ret l =>
      obtain ⟨frame, frames, hframes, huser⟩ := hok
      have hpopped := steady_pop hframes huser
      simp only [step, hframes] at hs
      refine Steady.spread ?_ hspread
      cases frame with
      | establishing id stage => simp [Frame.inUser] at huser
      | user => exact Option.some.inj hs ▸ hpopped
      | removing id => exact Option.some.inj hs ▸ hpopped.trans (steady_runErase ..)
      | visiting walk cur rest =>
          simp only at hs
          split at hs
          · exact Option.some.inj hs ▸ hpopped.trans (steady_walk ..)
          · cases hs

private theorem run_spreads {events : List Event}
    (hrun : AdmissibleM (step h) Allowed (init size) events) :
    ∃ s, events.foldlM (step h) (init size) = some s ∧ s.Valid h ∧ s.Spread size := by
  have hstep : ∀ (s : Server) (e : Event), s.Valid h ∧ s.Spread size → s.Allowed e →
      ∃ s', s.step h e = some s' ∧ s'.Valid h ∧ s'.Spread size := by
    rintro s e ⟨hv, hspread⟩ hok
    obtain ⟨s', hs', hv'⟩ := step_valid s e hv hok
    exact ⟨s', hs', hv', step_spread hv hok hspread hs'⟩
  exact foldlM_invariant hstep ⟨init_valid h size, init_spread size⟩ hrun

/-- After any run the connections have the ids up to their number, and each io loop has been given its
part of them: no two differ by more than one. -/
theorem loops_balanced {events : List Event}
    (hrun : AdmissibleM (step h) Allowed (init size) events) :
    ∃ s made, events.foldlM (step h) (init size) = some s ∧
      (∀ id, (∃ c, s.conns id = some c) ↔ 0 < id ∧ id ≤ made) ∧
      ∀ i < size, Nat.count (fun k => (s.conns (k + 1)).map (·.loop) = some (i + 1)) made =
        made / size + if i < made % size then 1 else 0 := by
  obtain ⟨s, hs, hv, hspread⟩ := run_spreads hrun
  obtain ⟨made, hmade⟩ : ∃ made, ∀ id, (∃ c, s.conns id = some c) ↔ 0 < id ∧ id ≤ made := by
    by_cases hcurrent : ∃ c, s.conns s.connId = some c
    · refine ⟨s.connId, fun id => ⟨?_, ?_⟩⟩
      · rintro ⟨c, hc⟩
        refine ⟨(hspread.loops id c hc).1, ?_⟩
        rcases hv.born id c hc with hlt | ⟨rfl, -⟩
        · exact Nat.le_of_lt hlt
        · exact Nat.le_refl _
      · rintro ⟨hpos, hle⟩
        obtain hlt | rfl := Nat.lt_or_eq_of_le hle
        · exact hspread.complete id hpos hlt
        · exact hcurrent
    · refine ⟨s.connId - 1, fun id => ⟨?_, ?_⟩⟩
      · rintro ⟨c, hc⟩
        refine ⟨(hspread.loops id c hc).1, ?_⟩
        rcases hv.born id c hc with hlt | ⟨rfl, -⟩
        · exact Nat.le_sub_one_of_lt hlt
        · exact absurd ⟨c, hc⟩ hcurrent
      · rintro ⟨hpos, hle⟩
        exact hspread.complete id hpos (Nat.lt_of_le_sub_one hspread.positive hle)
  refine ⟨s, made, hs, hmade, ?_⟩
  intro i hi
  have hpos : 0 < size := Nat.lt_of_le_of_lt (Nat.zero_le i) hi
  have hgiven : ∀ k < made, (s.conns (k + 1)).map (·.loop) = some (i + 1) ↔ k ≡ i [MOD size] := by
    intro k hk
    obtain ⟨c, hc⟩ := (hmade (k + 1)).mpr ⟨Nat.succ_pos k, hk⟩
    rw [hc, Option.map_some, (hspread.loops _ c hc).2, loopOf, if_pos hpos, Nat.ModEq,
      Nat.mod_eq_of_lt hi]
    simp
  have hcount := Nat.count_modEq_card made hpos i
  rw [Nat.mod_eq_of_lt hi, Nat.count_eq_card_filter_range] at hcount
  rw [Nat.count_eq_card_filter_range, ← hcount]
  congr 1
  exact Finset.filter_congr fun k hk => hgiven k (Finset.mem_range.mp hk)

/-- Two io loops and three connections. -/
def threeMade : List Event :=
  [.accept, .establish, .establish, .establish, .establish, .establish, .establish,
    .accept, .establish, .establish, .establish, .establish, .establish, .establish,
    .accept, .establish, .establish, .establish, .establish, .establish, .establish]

private theorem threeMade_admissible : AdmissibleM (step allHandlers) Allowed (init 2) threeMade :=
  .cons rfl rfl (.cons ⟨_, _, _, rfl⟩ rfl (.cons ⟨_, _, _, rfl⟩ rfl (.cons ⟨_, _, _, rfl⟩ rfl
    (.cons ⟨_, _, _, rfl⟩ rfl (.cons ⟨_, _, _, rfl⟩ rfl (.cons ⟨_, _, _, rfl⟩ rfl
    (.cons rfl rfl (.cons ⟨_, _, _, rfl⟩ rfl (.cons ⟨_, _, _, rfl⟩ rfl (.cons ⟨_, _, _, rfl⟩ rfl
    (.cons ⟨_, _, _, rfl⟩ rfl (.cons ⟨_, _, _, rfl⟩ rfl (.cons ⟨_, _, _, rfl⟩ rfl
    (.cons rfl rfl (.cons ⟨_, _, _, rfl⟩ rfl (.cons ⟨_, _, _, rfl⟩ rfl (.cons ⟨_, _, _, rfl⟩ rfl
    (.cons ⟨_, _, _, rfl⟩ rfl (.cons ⟨_, _, _, rfl⟩ rfl (.cons ⟨_, _, _, rfl⟩ rfl
    trivial))))))))))))))))))))

theorem loops_balanced_three :
    ∃ s made, threeMade.foldlM (step allHandlers) (init 2) = some s ∧
      (∀ id, (∃ c, s.conns id = some c) ↔ 0 < id ∧ id ≤ made) ∧
      ∀ i < 2, Nat.count (fun k => (s.conns (k + 1)).map (·.loop) = some (i + 1)) made =
        made / 2 + if i < made % 2 then 1 else 0 :=
  loops_balanced threeMade_admissible

/-- The first loop has two of the three. -/
example : (threeMade.foldlM (step allHandlers) (init 2)).map (fun s =>
    [1, 2, 3, 4].map fun id => (s.conns id).map (·.loop)) =
      some [some 1, some 2, some 1, none] := rfl

end Server

end Angel.Reactor
