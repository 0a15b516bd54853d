import Angel.Reactor.Model
import Mathlib.Data.List.TakeWhile

/-!
What `connection_map` holds, over every interleaving of the loops. What carries it is, for one
connection, how far `establish` has come with it, whether the map has it, and how often its erasure
is still to come.
-/

namespace Angel.Reactor

open Lib

/-- One connection, at a stage of `establish` (`listed` when that is behind it). `erasures`
counts those of it that are to come. -/
structure Conn.Fits (h : Handlers) (c : Conn) (stage : Stage) (mapped : Prop) (erasures : Nat) : Prop where
  handled : c.handled = true ↔ stage ≠ .made
  constructed : c.constructed = true ↔ stage ≠ .made ∧ stage ≠ .handled
  messageHandler : stage = .messageSet ∨ stage = .closeSet ∨ stage = .listed →
    c.messageHandler = h.message
  closeHandler : c.closeHandler = true ↔ stage = .closeSet ∨ stage = .listed
  mapped : mapped ↔ stage = .listed ∧ (c.closed = true → c.lost = true ∨ erasures ≠ 0)
  single : erasures ≤ 1
  erasing : erasures ≠ 0 → c.closed = true ∧ c.lost = false
  unlisted : stage ≠ .listed → c.closed = true → c.lost = false → erasures ≠ 0
  lost : c.lost = true → c.closed = true ∧ c.loop ≠ 0
  main : c.loop = 0 → stage ≠ .listed → c.closed = false
  built : c.closed = true → c.handled = true

namespace Conn

variable {h : Handlers} {c : Conn} {stage : Stage} {mapped : Prop} {erasures : Nat}

theorem Fits.quiet (hf : c.Fits h stage mapped erasures) (hopen : c.closed = false) :
    erasures = 0 ∧ c.lost = false := by
  constructor
  · by_contra hsome
    simpa [hopen] using hf.erasing hsome
  · by_contra hlost
    simpa [hopen] using hf.lost (Bool.eq_true_of_not_eq_false hlost)

theorem Fits.handled_of_constructed (hf : c.Fits h stage mapped erasures) (hbuilt : c.constructed = true) :
    c.handled = true :=
  hf.handled.mpr (hf.constructed.mp hbuilt).1

/-- Closed without its handler: nothing will take it out of the map, which it is not in yet. -/
theorem Fits.lose (hf : c.Fits h stage mapped erasures) (hopen : c.closed = false)
    (hbuilt : c.handled = true) (hloop : c.loop ≠ 0) :
    Conn.Fits h { c with closed := true, lost := true } stage mapped erasures where
  handled := hf.handled
  constructed := hf.constructed
  messageHandler := hf.messageHandler
  closeHandler := hf.closeHandler
  mapped := by simpa [hopen] using hf.mapped
  single := hf.single
  erasing hsome := absurd (hf.quiet hopen).1 hsome
  unlisted _ _ := nofun
  lost _ := ⟨rfl, hloop⟩
  main hmain := absurd hmain hloop
  built _ := hbuilt

theorem Fits.close (hf : c.Fits h stage mapped erasures) (hopen : c.closed = false)
    (hbuilt : c.handled = true) (hloop : c.loop = 0 → stage = .listed) :
    Conn.Fits h { c with closed := true, lost := false } stage mapped 1 where
  handled := hf.handled
  constructed := hf.constructed
  messageHandler := hf.messageHandler
  closeHandler := hf.closeHandler
  mapped := by simpa [hopen] using hf.mapped
  single := le_rfl
  erasing _ := ⟨rfl, rfl⟩
  unlisted _ _ _ := Nat.one_ne_zero
  lost := nofun
  main hmain hstage := absurd (hloop hmain) hstage
  built _ := hbuilt

theorem Fits.erase {now : Prop} (hf : c.Fits h .listed mapped 1) (hnow : ¬ now) :
    c.Fits h .listed now 0 where
  handled := hf.handled
  constructed := hf.constructed
  messageHandler := hf.messageHandler
  closeHandler := hf.closeHandler
  mapped := by simp [hnow, (hf.erasing Nat.one_ne_zero).1, (hf.erasing Nat.one_ne_zero).2]
  single := Nat.zero_le 1
  erasing := nofun
  unlisted := nofun
  lost := hf.lost
  main := hf.main
  built := hf.built

theorem Fits.handle (hf : c.Fits h .made mapped erasures) :
    Conn.Fits h { c with handled := true } .handled mapped erasures := by
  obtain ⟨-, hbuilt, -, hclose, hmapped, hsingle, herasing, hunlisted, hlost, hmain, -⟩ := hf
  constructor <;> simp_all

theorem Fits.construct (hf : c.Fits h .handled mapped erasures) :
    Conn.Fits h { c with constructed := true } .constructed mapped erasures := by
  obtain ⟨hhandled, -, -, hclose, hmapped, hsingle, herasing, hunlisted, hlost, hmain, -⟩ := hf
  constructor <;> simp_all

theorem Fits.setMessage (hf : c.Fits h .constructed mapped erasures) :
    Conn.Fits h { c with messageHandler := h.message } .messageSet mapped erasures := by
  obtain ⟨hhandled, hbuilt, -, hclose, hmapped, hsingle, herasing, hunlisted, hlost, hmain, -⟩ := hf
  constructor <;> simp_all

theorem Fits.setClose (hf : c.Fits h .messageSet mapped erasures) :
    Conn.Fits h { c with closeHandler := true } .closeSet mapped erasures := by
  obtain ⟨hhandled, hbuilt, hmessage, -, hmapped, hsingle, herasing, hunlisted, hlost, hmain, -⟩ := hf
  constructor <;> simp_all

theorem Fits.list {now : Prop} (hf : c.Fits h .closeSet mapped erasures) (hnow : now) :
    c.Fits h .listed now erasures := by
  obtain ⟨hhandled, hbuilt, hmessage, hclose, -, hsingle, herasing, hunlisted, hlost, -, -⟩ := hf
  have hcomes : c.closed = true → c.lost = true ∨ erasures ≠ 0 := by
    intro hclosed
    cases hl : c.lost with
    | true => exact .inl rfl
    | false => exact .inr (hunlisted nofun hclosed hl)
  constructor <;> simp_all

end Conn

/-- The frames of the main loop, innermost first, where `bound` calls of `for_each` have been begun. A
functor visits an element that the map still has, and that it keeps when the calls inside have
returned; no element comes twice, and none of the map is left out. -/
def Stacked (map : Finset ConnId) (given : Nat → List ConnId) : Nat → List Frame → Prop
  | _, [] => True
  | bound, .visiting walk cur rest :: frames =>
      walk < bound ∧ cur ∈ map ∧ (given walk ++ rest).Nodup ∧ (∀ id ∈ map, id ∈ given walk ++ rest) ∧
        Stacked map given walk frames
  | bound, .removing id :: frames => Stacked (map.erase id) given bound frames
  | bound, _ :: frames => Stacked map given bound frames

section Stacked

variable {map : Finset ConnId} {given given' : Nat → List ConnId} {bound : Nat} {frames : List Frame}

theorem Stacked.erase {id : ConnId} (hs : Stacked map given bound frames)
    (hvisits : ∀ walk rest, .visiting walk id rest ∉ frames) :
    Stacked (map.erase id) given bound frames := by
  induction frames generalizing map bound with
  | nil => trivial
  | cons frame frames ih =>
      have hrest : ∀ walk rest, .visiting walk id rest ∉ frames :=
        fun walk rest hmem => hvisits walk rest (List.mem_cons_of_mem _ hmem)
      cases frame with
      | establishing other stage => exact ih hs hrest
      | user => exact ih hs hrest
      | removing other =>
          have hout : Stacked ((map.erase other).erase id) given bound frames := ih hs hrest
          rwa [Finset.erase_right_comm] at hout
      | visiting walk cur rest =>
          obtain ⟨hbound, hcur, hnodup, hall, hframes⟩ := hs
          have hne : cur ≠ id := by
            rintro rfl
            exact hvisits walk rest List.mem_cons_self
          exact ⟨hbound, Finset.mem_erase.mpr ⟨hne, hcur⟩, hnodup,
            fun other hother => hall other (Finset.mem_of_mem_erase hother), ih hframes hrest⟩

theorem Stacked.later {later : Nat} (hs : Stacked map given bound frames) (hbound : bound ≤ later)
    (hsame : ∀ walk < bound, given' walk = given walk) : Stacked map given' later frames := by
  induction frames generalizing map bound later with
  | nil => trivial
  | cons frame frames ih =>
      cases frame with
      | establishing other stage => exact ih hs hbound hsame
      | user => exact ih hs hbound hsame
      | removing other => exact ih hs hbound hsame
      | visiting walk cur rest =>
          obtain ⟨hwalk, hcur, hnodup, hall, hframes⟩ := hs
          rw [← hsame walk hwalk] at hnodup hall
          exact ⟨hwalk.trans_le hbound, hcur, hnodup, hall,
            ih hframes le_rfl fun other hother => hsame other (hother.trans hwalk)⟩

theorem Stacked.visited {walk : Nat} {cur : ConnId} {rest : List ConnId}
    (hs : Stacked map given bound frames) (hmem : .visiting walk cur rest ∈ frames) :
    walk < bound ∧ (given walk).Nodup := by
  induction frames generalizing map bound with
  | nil => exact absurd hmem List.not_mem_nil
  | cons frame frames ih =>
      cases frame with
      | establishing other stage => exact ih hs ((List.mem_cons.mp hmem).resolve_left nofun)
      | user => exact ih hs ((List.mem_cons.mp hmem).resolve_left nofun)
      | removing other => exact ih hs ((List.mem_cons.mp hmem).resolve_left nofun)
      | visiting other cur' rest' =>
          obtain ⟨hother, -, hnodup, -, hframes⟩ := hs
          rcases List.mem_cons.mp hmem with hsame | hrest
          · cases hsame
            exact ⟨hother, hnodup.of_append_left⟩
          · obtain ⟨hwalk, hgiven⟩ := ih hframes hrest
            exact ⟨hwalk.trans hother, hgiven⟩

end Stacked

namespace Server

variable {h : Handlers} {s s' : Server} {l : LoopId} {id : ConnId} {c c' : Conn}

/-- What `establish` has done last with a connection. -/
def stageOf (s : Server) (id : ConnId) : Stage :=
  match s.frames 0 with
  | .establishing current stage :: _ => if current = id then stage else .listed
  | _ => .listed

/-- The erasures of a connection of `l` that are to come. -/
def erasing (s : Server) (l : LoopId) (id : ConnId) : Nat :=
  (s.frames l).count (.removing id) + (s.tasks 0).count (.erase id)

/-- The thread is not in `establish`. -/
def Free (s : Server) (l : LoopId) : Prop := ∀ frame ∈ s.frames l, frame.inUser

/-- What holds of a frame of `l`. -/
def FrameFits (s : Server) (l : LoopId) : Frame → Prop
  | .establishing id stage => l = 0 ∧ s.frames 0 = [.establishing id stage] ∧ ∃ c, s.conns id = some c
  | .user => True
  | .removing id => ∃ c, s.conns id = some c ∧ c.loop = l
  | .visiting _ _ _ => l = 0

/-- What holds of a functor that is queued in `l`. -/
def TaskFits (s : Server) (l : LoopId) : Task → Prop
  | .add id => ∃ c, s.conns id = some c ∧ c.loop = l
  | .connected id => ∃ c, s.conns id = some c ∧ c.loop = l
  | .close id _ => ∃ c, s.conns id = some c ∧ c.loop = l ∧ c.handled = true
  | .erase id => l = 0 ∧ ∃ c, s.conns id = some c
  | .forOne _ => l = 0
  | .forEach => l = 0

structure Valid (h : Handlers) (s : Server) : Prop where
  fits : ∀ id c, s.conns id = some c →
    c.Fits h (s.stageOf id) (id ∈ s.connectionMap) (s.erasing c.loop id)
  born : ∀ id c, s.conns id = some c →
    id < s.connId ∨ id = s.connId ∧ s.frames 0 = [.establishing id .made]
  known : ∀ id ∈ s.connectionMap, ∃ c, s.conns id = some c
  frames : ∀ l, ∀ frame ∈ s.frames l, s.FrameFits l frame
  tasks : ∀ l, ∀ task ∈ s.tasks l, s.TaskFits l task
  stacked : Stacked s.connectionMap s.given s.walks (s.frames 0)

theorem init_valid (h : Handlers) (groupSize : Nat) : (init groupSize).Valid h where
  fits := nofun
  born := nofun
  known := nofun
  frames := nofun
  tasks := nofun
  stacked := trivial

theorem stageOf_free (hfree : s.Free 0) (id : ConnId) : s.stageOf id = .listed := by
  unfold stageOf
  split
  · next hframes =>
      have hhead := hfree _ (hframes ▸ List.mem_cons_self)
      simp [Frame.inUser] at hhead
  · rfl

theorem Valid.free_of_calls (hv : s.Valid h) (hcalls : s.Calls (some l)) : s.Free l := by
  obtain ⟨top, htop, huser⟩ := hcalls
  intro frame hframe
  cases frame with
  | establishing id stage =>
      obtain ⟨rfl, hframes, -⟩ := hv.frames l _ hframe
      rw [hframes, List.head?_cons, Option.mem_some_iff] at htop
      exact htop ▸ huser
  | user | removing id | visiting walk cur rest => rfl

theorem stageOf_setFrames {frames : List Frame} (hfree : s.Free l)
    (hframes : ∀ frame ∈ frames, frame.inUser) (id : ConnId) :
    (s.setFrames l frames).stageOf id = s.stageOf id := by
  obtain rfl | hl := eq_or_ne l 0
  · rw [stageOf_free hfree, stageOf_free]
    simpa [Free, setFrames] using hframes
  · simp [stageOf, setFrames, hl.symm]

theorem Valid.setFrames {frames : List Frame} (hv : s.Valid h) (hfree : s.Free l)
    (hframes : ∀ frame ∈ frames, frame.inUser ∧ s.FrameFits l frame)
    (hcount : ∀ id, frames.count (.removing id) = (s.frames l).count (.removing id))
    (hstack : l = 0 → Stacked s.connectionMap s.given s.walks frames) : (s.setFrames l frames).Valid h where
  fits id c hc := by
    have herasing : (s.setFrames l frames).erasing c.loop id = s.erasing c.loop id := by
      obtain rfl | hne := eq_or_ne l c.loop
      · simp [erasing, Server.setFrames, hcount]
      · simp [erasing, Server.setFrames, hne.symm]
    rw [stageOf_setFrames hfree (fun frame hf => (hframes frame hf).1), herasing]
    exact hv.fits id c hc
  born id c hc := by
    refine (hv.born id c hc).imp_right (fun ⟨hid, hmade⟩ => ⟨hid, ?_⟩)
    obtain rfl | hl := eq_or_ne l 0
    · have hhead := hfree _ (hmade ▸ List.mem_cons_self)
      simp [Frame.inUser] at hhead
    · simp [Server.setFrames, hl.symm, hmade]
  known := hv.known
  frames l' frame hframe := by
    obtain rfl | hl := eq_or_ne l' l
    · have hnew : frame ∈ frames := by simpa [Server.setFrames] using hframe
      obtain ⟨huser, hfits⟩ := hframes frame hnew
      cases frame with
      | establishing id stage => simp [Frame.inUser] at huser
      | user => trivial
      | removing id => exact hfits
      | visiting walk cur rest => exact hfits
    · have hfits := hv.frames l' frame (by simpa [Server.setFrames, hl] using hframe)
      cases frame with
      | establishing id stage =>
          obtain ⟨rfl, hmain, hc⟩ := hfits
          exact ⟨rfl, by simpa [Server.setFrames, hl] using hmain, hc⟩
      | user => trivial
      | removing id => exact hfits
      | visiting walk cur rest => exact hfits
  tasks := hv.tasks
  stacked := by
    obtain rfl | hl := eq_or_ne l 0
    · simpa [Server.setFrames] using hstack rfl
    · simpa [Server.setFrames, hl.symm] using hv.stacked

theorem Valid.push_user (hv : s.Valid h) (hfree : s.Free l) : (s.push l .user).Valid h := by
  refine hv.setFrames hfree ?_ (by simp) (fun hl => ?_)
  · intro frame hframe
    rcases List.mem_cons.mp hframe with rfl | hold
    · exact ⟨rfl, trivial⟩
    · exact ⟨hfree frame hold, hv.frames l frame hold⟩
  · exact hl ▸ hv.stacked

theorem Valid.setTasks {tasks : LoopId → List Task} (hv : s.Valid h)
    (hfits : ∀ l, ∀ task ∈ tasks l, s.TaskFits l task)
    (hcount : ∀ id, (tasks 0).count (.erase id) = (s.tasks 0).count (.erase id)) :
    Valid h { s with tasks := tasks } where
  fits id c hc := by
    have herasing : ({ s with tasks := tasks } : Server).erasing c.loop id = s.erasing c.loop id := by
      simp [erasing, hcount]
    rw [herasing]
    exact hv.fits id c hc
  born := hv.born
  known := hv.known
  frames := hv.frames
  tasks := hfits
  stacked := hv.stacked

theorem Valid.dequeue {task : Task} {tasks : List Task} (hv : s.Valid h)
    (htasks : s.tasks l = task :: tasks) (herase : ∀ id, task ≠ .erase id) :
    Valid h { s with tasks := Function.update s.tasks l tasks } := by
  refine hv.setTasks ?_ (fun id => ?_)
  · intro l' other hother
    obtain rfl | hl := eq_or_ne l' l
    · refine hv.tasks l' other (htasks ▸ List.mem_cons_of_mem _ ?_)
      simpa using hother
    · exact hv.tasks l' other (by simpa [hl] using hother)
  · obtain rfl | hl := eq_or_ne l 0
    · simp [htasks, herase id]
    · simp [hl.symm]

@[simp] theorem conns_set (s : Server) (id : ConnId) (c : Conn) : (s.set id c).conns id = some c :=
  Function.update_self ..

/-- The connections stay in their loops, and the handlers of their channels set. -/
def Grows (s s' : Server) : Prop :=
  ∀ id c, s.conns id = some c →
    ∃ c', s'.conns id = some c' ∧ c'.loop = c.loop ∧ (c.handled = true → c'.handled = true)

theorem Grows.refl (s : Server) : Grows s s := fun _ c hc => ⟨c, hc, rfl, fun hb => hb⟩

theorem grows_set (hc : s.conns id = some c) (hloop : c'.loop = c.loop)
    (hbuilt : c.handled = true → c'.handled = true) : Grows s (s.set id c') := by
  intro other d hd
  obtain rfl | hne := eq_or_ne other id
  · obtain rfl := Option.some.inj (hc.symm.trans hd)
    exact ⟨c', conns_set .., hloop, hbuilt⟩
  · exact ⟨d, (Function.update_of_ne hne _ _).trans hd, rfl, fun hb => hb⟩

theorem FrameFits.grow {frame : Frame} (hfits : s.FrameFits l frame) (hgrows : Grows s s')
    (hsame : frame.inUser = true ∨ s'.frames 0 = s.frames 0) : s'.FrameFits l frame := by
  cases frame with
  | establishing id stage =>
      obtain ⟨hl, hmain, c, hc⟩ := hfits
      obtain ⟨c', hc', -⟩ := hgrows id c hc
      exact ⟨hl, (hsame.resolve_left nofun).trans hmain, c', hc'⟩
  | user => trivial
  | removing id =>
      obtain ⟨c, hc, hl⟩ := hfits
      obtain ⟨c', hc', hloop, -⟩ := hgrows id c hc
      exact ⟨c', hc', hloop.trans hl⟩
  | visiting walk cur rest => exact hfits

theorem TaskFits.grow {task : Task} (hfits : s.TaskFits l task) (hgrows : Grows s s') :
    s'.TaskFits l task := by
  cases task with
  | add id | connected id =>
      obtain ⟨c, hc, hl⟩ := hfits
      obtain ⟨c', hc', hloop, -⟩ := hgrows id c hc
      exact ⟨c', hc', hloop.trans hl⟩
  | close id drained =>
      obtain ⟨c, hc, hl, hbuilt⟩ := hfits
      obtain ⟨c', hc', hloop, hkeeps⟩ := hgrows id c hc
      exact ⟨c', hc', hloop.trans hl, hkeeps hbuilt⟩
  | erase id =>
      obtain ⟨hl, c, hc⟩ := hfits
      obtain ⟨c', hc', -⟩ := hgrows id c hc
      exact ⟨hl, c', hc'⟩
  | forOne id => exact hfits
  | forEach => exact hfits

/-- The step is about one connection. -/
structure Apart (s s' : Server) (id : ConnId) : Prop where
  conns : ∀ other, other ≠ id → s'.conns other = s.conns other
  stage : ∀ other, other ≠ id → s'.stageOf other = s.stageOf other
  mapped : ∀ other, other ≠ id → (other ∈ s'.connectionMap ↔ other ∈ s.connectionMap)
  erasing : ∀ other, other ≠ id → ∀ l, s'.erasing l other = s.erasing l other

theorem Apart.fits (hapart : Apart s s' id) (hv : s.Valid h) (hc' : s'.conns id = some c')
    (hfits : c'.Fits h (s'.stageOf id) (id ∈ s'.connectionMap) (s'.erasing c'.loop id)) :
    ∀ other d, s'.conns other = some d →
      d.Fits h (s'.stageOf other) (other ∈ s'.connectionMap) (s'.erasing d.loop other) := by
  intro other d hd
  obtain rfl | hne := eq_or_ne other id
  · obtain rfl := Option.some.inj (hc'.symm.trans hd)
    exact hfits
  · rw [hapart.stage other hne, hapart.mapped other hne, hapart.erasing other hne]
    exact hv.fits other d ((hapart.conns other hne).symm.trans hd)

theorem Apart.known (hapart : Apart s s' id) (hv : s.Valid h) (hc' : s'.conns id = some c') :
    ∀ other ∈ s'.connectionMap, ∃ d, s'.conns other = some d := by
  intro other hother
  obtain rfl | hne := eq_or_ne other id
  · exact ⟨c', hc'⟩
  · rw [hapart.conns other hne]
    exact hv.known other ((hapart.mapped other hne).mp hother)

theorem Apart.born (hapart : Apart s s' id) (hv : s.Valid h) (hc : s.conns id = some c)
    (hconnId : s'.connId = s.connId)
    (hmain : ∀ other, s.frames 0 = [.establishing other .made] → s'.frames 0 = s.frames 0) :
    ∀ other d, s'.conns other = some d →
      other < s'.connId ∨ other = s'.connId ∧ s'.frames 0 = [.establishing other .made] := by
  intro other d hd
  have hold : ∃ d', s.conns other = some d' := by
    obtain rfl | hne := eq_or_ne other id
    · exact ⟨c, hc⟩
    · exact ⟨d, (hapart.conns other hne).symm.trans hd⟩
  obtain ⟨d', hd'⟩ := hold
  rw [hconnId]
  exact (hv.born other d' hd').imp_right fun ⟨heq, hmade⟩ => ⟨heq, (hmain other hmade).trans hmade⟩

theorem Valid.set (hv : s.Valid h) (hc : s.conns id = some c) (hloop : c'.loop = c.loop)
    (hbuilt : c.handled = true → c'.handled = true)
    (hfits : c'.Fits h (s.stageOf id) (id ∈ s.connectionMap) (s.erasing c.loop id)) :
    (s.set id c').Valid h := by
  have hapart : Apart s (s.set id c') id :=
    ⟨fun _ hne => Function.update_of_ne hne _ _, fun _ _ => rfl, fun _ _ => Iff.rfl, fun _ _ _ => rfl⟩
  have hgrows := grows_set hc hloop hbuilt
  refine ⟨hapart.fits hv (conns_set ..) (hloop ▸ hfits), hapart.born hv hc rfl fun _ _ => rfl,
    hapart.known hv (conns_set ..), ?_, ?_, hv.stacked⟩
  · exact fun l frame hframe => (hv.frames l frame hframe).grow hgrows (.inr rfl)
  · exact fun l task htask => (hv.tasks l task htask).grow hgrows

theorem Valid.frames_push {frame : Frame} (hv : s.Valid h) (hfree : s.Free l) (hgrows : Grows s s')
    (hframes : s'.frames = Function.update s.frames l (frame :: s.frames l))
    (hnew : s'.FrameFits l frame) : ∀ l', ∀ other ∈ s'.frames l', s'.FrameFits l' other := by
  intro l' other hother
  rw [hframes] at hother
  obtain rfl | hl := eq_or_ne l' l
  · simp only [Function.update_self, List.mem_cons] at hother
    rcases hother with rfl | hold
    · exact hnew
    · exact (hv.frames l' other hold).grow hgrows (.inl (hfree other hold))
  · rw [Function.update_of_ne hl] at hother
    have hfits := hv.frames l' other hother
    cases other with
    | establishing id stage =>
        refine hfits.grow hgrows (.inr ?_)
        rw [hframes, Function.update_of_ne (hfits.1 ▸ hl)]
    | user | removing id | visiting walk cur rest => exact hfits.grow hgrows (.inl rfl)

theorem Valid.tasks_queue {task : Task} (hv : s.Valid h) (hgrows : Grows s s')
    (htasks : s'.tasks = Function.update s.tasks l (s.tasks l ++ [task]))
    (hnew : s'.TaskFits l task) :
    ∀ l', ∀ other ∈ s'.tasks l', s'.TaskFits l' other := by
  intro l' other hother
  rw [htasks] at hother
  obtain rfl | hl := eq_or_ne l' l
  · simp only [Function.update_self, List.mem_append, List.mem_singleton] at hother
    rcases hother with hold | rfl
    · exact (hv.tasks l' other hold).grow hgrows
    · exact hnew
  · exact (hv.tasks l' other (by simpa [hl] using hother)).grow hgrows

theorem Valid.queue {task : Task} (hv : s.Valid h) (hfits : s.TaskFits l task)
    (herase : ∀ id, task ≠ .erase id) : (s.queue l task).Valid h := by
  have hgrows : Grows s (s.queue l task) := .refl s
  refine hv.setTasks (hv.tasks_queue hgrows rfl ?_) (fun id => ?_)
  · exact hfits.grow hgrows
  · obtain rfl | hl := eq_or_ne l 0
    · simp [List.count_append, herase id]
    · simp [hl.symm]

theorem Valid.close (hv : s.Valid h) (hc : s.conns id = some c) (hopen : c.closed = false)
    (hbuilt : c.handled = true) (hlisted : c.loop = 0 → s.stageOf id = .listed)
    (hapart : Apart s s' id) (hconns : s'.conns id = some { c with closed := true, lost := false })
    (hstage : s'.stageOf id = s.stageOf id) (hconnId : s'.connId = s.connId)
    (hfits : Conn.Fits h { c with closed := true, lost := false } (s.stageOf id)
      (id ∈ s.connectionMap) 1 →
      Conn.Fits h { c with closed := true, lost := false } (s.stageOf id) (id ∈ s'.connectionMap)
        (s'.erasing c.loop id))
    (hmain : ∀ other, s.frames 0 = [.establishing other .made] → s'.frames 0 = s.frames 0)
    (hframes : Grows s s' → ∀ l, ∀ frame ∈ s'.frames l, s'.FrameFits l frame)
    (htasks : Grows s s' → ∀ l, ∀ task ∈ s'.tasks l, s'.TaskFits l task)
    (hstacked : Stacked s'.connectionMap s'.given s'.walks (s'.frames 0)) : s'.Valid h := by
  have hgrows : Grows s s' := by
    intro other d hd
    obtain rfl | hne := eq_or_ne other id
    · obtain rfl := Option.some.inj (hc.symm.trans hd)
      exact ⟨_, hconns, rfl, fun hb => hb⟩
    · exact ⟨d, (hapart.conns other hne).trans hd, rfl, fun hb => hb⟩
  refine ⟨hapart.fits hv hconns ?_, hapart.born hv hc hconnId hmain, hapart.known hv hconns,
    hframes hgrows, htasks hgrows, hstacked⟩
  rw [hstage]
  exact hfits ((hv.fits id c hc).close hopen hbuilt hlisted)

private theorem removeConnection_valid (hv : s.Valid h) (hfree : s.Free c.loop)
    (hc : s.conns id = some c)
    (hopen : c.closed = false) (hbuilt : c.handled = true)
    (hvisits : c.loop = 0 → ¬ s.Visits id) :
    ((s.set id { c with closed := true, lost := false }).removeConnection h c.loop id).Valid h := by
  have hlisted : c.loop = 0 → s.stageOf id = .listed := fun hmain => stageOf_free (hmain ▸ hfree) id
  have hquiet := ((hv.fits id c hc).quiet hopen).1
  have hstacked : c.loop = 0 → Stacked (s.connectionMap.erase id) s.given s.walks (s.frames 0) :=
    fun hmain => hv.stacked.erase fun walk rest hmem => hvisits hmain ⟨walk, rest, hmem⟩
  unfold removeConnection
  split
  · -- the close handler is called, and the erasure follows when it returns
    have hpushed : ∀ frame ∈ Frame.removing id :: s.frames c.loop, frame.inUser :=
      fun frame hframe => (List.mem_cons.mp hframe).elim (fun heq => heq ▸ rfl) (hfree frame)
    have hstage := stageOf_setFrames hfree hpushed
    refine hv.close hc hopen hbuilt hlisted ⟨?_, fun other _ => hstage other, fun _ _ => Iff.rfl, ?_⟩
      (conns_set ..) (hstage id) rfl ?_ ?_ ?_ ?_ ?_
    · exact fun other hne => Function.update_of_ne hne _ _
    · intro other hne l
      obtain rfl | hl := eq_or_ne l c.loop
      · simp [erasing, push, Server.setFrames, Server.set, notify, hne.symm]
      · simp [erasing, push, Server.setFrames, Server.set, notify, hl]
    · intro hfits
      have hone : (((s.set id { c with closed := true, lost := false }).notify id .closed).push c.loop
          (.removing id)).erasing c.loop id = 1 := by
        simp only [erasing] at hquiet
        simp [erasing, push, Server.setFrames, Server.set, notify]
        omega
      rw [hone]
      exact hfits
    · intro other hmade
      obtain hmain | hmain := eq_or_ne c.loop 0
      · have hhead := (hmain ▸ hfree) _ (hmade ▸ List.mem_cons_self)
        simp [Frame.inUser] at hhead
      · simp [push, Server.setFrames, Server.set, notify, hmain.symm]
    · exact fun hgrows => hv.frames_push hfree hgrows rfl ⟨_, conns_set .., rfl⟩
    · exact fun hgrows l task htask => (hv.tasks l task htask).grow hgrows
    · obtain hmain | hmain := eq_or_ne c.loop 0
      · simpa [push, Server.setFrames, Server.set, notify, hmain, Stacked] using hstacked hmain
      · simpa [push, Server.setFrames, Server.set, notify, hmain.symm] using hv.stacked
  · unfold runErase
    split
    · next hmain =>
        have hlisted := hlisted hmain
        refine hv.close hc hopen hbuilt (fun _ => hlisted) ⟨?_, fun _ _ => rfl, ?_, fun _ _ _ => rfl⟩
          (conns_set ..) rfl rfl ?_ (fun _ _ => rfl) ?_ ?_ (hstacked hmain)
        · exact fun other hne => Function.update_of_ne hne _ _
        · exact fun other hne => by simp [Server.set, hne]
        · intro hfits
          have hnone : id ∉ s.connectionMap.erase id := Finset.notMem_erase _ _
          rw [hlisted] at hfits ⊢
          exact (hquiet ▸ hfits.erase hnone :)
        · exact fun hgrows l frame hframe => (hv.frames l frame hframe).grow hgrows (.inr rfl)
        · exact fun hgrows l task htask => (hv.tasks l task htask).grow hgrows
    · next hmain =>
        refine hv.close hc hopen hbuilt hlisted ⟨?_, fun _ _ => rfl, fun _ _ => Iff.rfl, ?_⟩
          (conns_set ..) rfl rfl ?_ (fun _ _ => rfl) ?_ ?_ hv.stacked
        · exact fun other hne => Function.update_of_ne hne _ _
        · exact fun other hne l => by simp [erasing, Server.queue, Server.set, hne.symm]
        · intro hfits
          have hone : ((s.set id { c with closed := true, lost := false }).queue 0 (.erase id)).erasing
              c.loop id = 1 := by
            simp only [erasing] at hquiet
            simp [erasing, Server.queue, Server.set]
            omega
          rw [hone]
          exact hfits
        · exact fun hgrows l frame hframe => (hv.frames l frame hframe).grow hgrows (.inr rfl)
        · exact fun hgrows => hv.tasks_queue hgrows rfl ⟨rfl, _, conns_set ..⟩

theorem enterClosed_valid (hv : s.Valid h) (hfree : s.Free c.loop) (hc : s.conns id = some c)
    (hbuilt : c.handled = true) (hvisits : c.loop = 0 → ¬ s.Visits id) :
    ∃ s', s.enterClosed h c.loop id = some s' ∧ s'.Valid h := by
  simp only [enterClosed, hc, Option.bind_eq_bind, Option.bind_some]
  split
  · exact ⟨s, rfl, hv⟩
  · next hclosed =>
      have hopen : c.closed = false := Bool.eq_false_of_not_eq_true hclosed
      have hfits := hv.fits id c hc
      refine ⟨_, rfl, ?_⟩
      split
      · next hhandler =>
          simpa only [hhandler, Bool.not_true] using
            removeConnection_valid hv hfree hc hopen hbuilt hvisits
      · next hhandler =>
          -- where the main loop is out of `establish`, the connection has its handler
          have hloop : c.loop ≠ 0 := by
            intro hmain
            refine hhandler (hfits.closeHandler.mpr (.inr ?_))
            exact stageOf_free (hmain ▸ hfree) id
          have hlost : (s.set id { c with closed := true, lost := true }).Valid h :=
            hv.set hc rfl (fun hb => hb) (hfits.lose hopen hbuilt hloop)
          simpa only [Bool.eq_false_of_not_eq_true hhandler, Bool.not_false] using hlost

theorem Valid.erased (hv : s.Valid h) (hfree : s.Free 0) (hc : s.conns id = some c)
    (hconns : s'.conns = s.conns) (hconnId : s'.connId = s.connId)
    (hmap : s'.connectionMap = s.connectionMap.erase id)
    (hone : s'.erasing c.loop id + 1 = s.erasing c.loop id)
    (hothers : ∀ other, other ≠ id → ∀ l, s'.erasing l other = s.erasing l other)
    (hframes : ∀ l, ∀ frame ∈ s'.frames l, frame ∈ s.frames l)
    (htasks : ∀ l, ∀ task ∈ s'.tasks l, task ∈ s.tasks l)
    (hstacked : Stacked s'.connectionMap s'.given s'.walks (s'.frames 0)) : s'.Valid h := by
  have hfree' : s'.Free 0 := fun frame hframe => hfree frame (hframes 0 frame hframe)
  have hsame : ∀ other, s'.stageOf other = s.stageOf other :=
    fun other => (stageOf_free hfree' other).trans (stageOf_free hfree other).symm
  have hgrows : Grows s s' := fun other d hd => ⟨d, hconns ▸ hd, rfl, fun hb => hb⟩
  have hapart : Apart s s' id := by
    refine ⟨fun other _ => hconns ▸ rfl, fun other _ => hsame other, fun other hne => ?_, hothers⟩
    simp [hmap, hne]
  have hc' : s'.conns id = some c := hconns ▸ hc
  have hfits := hv.fits id c hc
  rw [stageOf_free hfree] at hfits
  have hbefore : s.erasing c.loop id = 1 := by
    have := hfits.single
    omega
  have hafter : s'.erasing c.loop id = 0 := by omega
  refine ⟨hapart.fits hv hc' ?_, hapart.born hv hc hconnId ?_, hapart.known hv hc', ?_, ?_, hstacked⟩
  · rw [stageOf_free hfree', hafter]
    refine (hbefore ▸ hfits).erase ?_
    simp [hmap]
  · intro other hmade
    have hhead := hfree _ (hmade ▸ List.mem_cons_self)
    simp [Frame.inUser] at hhead
  · intro l frame hframe
    refine (hv.frames l frame (hframes l frame hframe)).grow hgrows (.inl ?_)
    cases frame with
    | establishing other stage =>
        obtain ⟨-, hmain, -⟩ := hv.frames l _ (hframes l _ hframe)
        exact hfree _ (hmain ▸ List.mem_cons_self)
    | user | removing other | visiting walk cur rest => rfl
  · exact fun l task htask => (hv.tasks l task (htasks l task htask)).grow hgrows

theorem runErase_valid {frames : List Frame} (hv : s.Valid h) (hfree : s.Free l)
    (hframes : s.frames l = .removing id :: frames) :
    ((s.setFrames l frames).runErase l id).Valid h := by
  have hremoving : s.FrameFits l (.removing id) := hv.frames l _ (hframes ▸ List.mem_cons_self)
  obtain ⟨c, hc, rfl⟩ := hremoving
  have hrest : ∀ frame ∈ frames, frame ∈ s.frames c.loop :=
    fun frame hframe => hframes ▸ List.mem_cons_of_mem _ hframe
  unfold runErase
  split
  · next hmain =>
      rw [hmain] at hfree hframes hrest ⊢
      refine hv.erased hfree hc rfl rfl rfl ?_ ?_ ?_ (fun _ _ htask => htask) ?_
      · simp [erasing, Server.setFrames, hmain, hframes]
        omega
      · intro other hne l
        obtain rfl | hl := eq_or_ne l 0
        · simp [erasing, Server.setFrames, hframes, hne.symm]
        · simp [erasing, Server.setFrames, hl]
      · intro l frame hframe
        obtain rfl | hl := eq_or_ne l 0
        · exact hrest frame (by simpa [Server.setFrames] using hframe)
        · simpa [Server.setFrames, hl] using hframe
      · have hstacked := hv.stacked
        rw [hframes] at hstacked
        simpa [Server.setFrames, Stacked] using hstacked
  · next hmain =>
      -- the erasure is queued instead
      have hmained : c.loop ≠ 0 := hmain
      have hzero : (s.setFrames c.loop frames).frames 0 = s.frames 0 := by
        simp [Server.setFrames, hmained.symm]
      have hsame : ∀ other, ((s.setFrames c.loop frames).queue 0 (.erase id)).stageOf other =
          s.stageOf other := by
        intro other
        simp only [stageOf, Server.queue, hzero]
      have hapart : Apart s ((s.setFrames c.loop frames).queue 0 (.erase id)) id := by
        refine ⟨fun _ _ => rfl, fun other _ => hsame other, fun _ _ => Iff.rfl, fun other hne l => ?_⟩
        obtain rfl | hl := eq_or_ne l c.loop
        · simp [erasing, Server.setFrames, Server.queue, hframes, hne.symm]
        · simp [erasing, Server.setFrames, Server.queue, hl, hne.symm]
      have hone : ((s.setFrames c.loop frames).queue 0 (.erase id)).erasing c.loop id =
          s.erasing c.loop id := by
        simp [erasing, Server.setFrames, Server.queue, hframes]
        omega
      have hgrows : Grows s ((s.setFrames c.loop frames).queue 0 (.erase id)) := .refl s
      refine ⟨hapart.fits hv hc ?_, hapart.born hv hc rfl fun _ _ => hzero, hv.known, ?_, ?_, ?_⟩
      · rw [hsame, hone]
        exact hv.fits id c hc
      · intro l frame hframe
        refine FrameFits.grow ?_ hgrows (.inr hzero)
        obtain rfl | hl := eq_or_ne l c.loop
        · exact hv.frames _ frame (hrest frame (by simpa [Server.setFrames, Server.queue] using hframe))
        · exact hv.frames l frame (by simpa [Server.setFrames, Server.queue, hl] using hframe)
      · exact hv.tasks_queue hgrows rfl ⟨rfl, c, hc⟩
      · change Stacked s.connectionMap s.given s.walks ((s.setFrames c.loop frames).frames 0)
        exact hzero ▸ hv.stacked

theorem erase_valid {tasks : List Task} (hv : s.Valid h) (hidle : s.frames 0 = [])
    (htasks : s.tasks 0 = .erase id :: tasks) :
    Valid h { s with
      tasks := Function.update s.tasks 0 tasks, connectionMap := s.connectionMap.erase id } := by
  have hfree : s.Free 0 := by simp [Free, hidle]
  obtain ⟨-, c, hc⟩ : s.TaskFits 0 (.erase id) := hv.tasks 0 _ (htasks ▸ List.mem_cons_self)
  refine hv.erased hfree hc rfl rfl rfl ?_ ?_ (fun _ _ hframe => hframe) ?_ ?_
  · simp [erasing, htasks]
    omega
  · intro other hne l
    simp [erasing, htasks, hne.symm]
  · intro l task htask
    obtain rfl | hl := eq_or_ne l 0
    · refine htasks ▸ List.mem_cons_of_mem _ ?_
      simpa using htask
    · simpa [hl] using htask
  · simp [hidle, Stacked]

private theorem dropWhile_eq_cons {α : Type*} {p : α → Bool} {xs ys : List α} {y : α}
    (hdrop : xs.dropWhile p = y :: ys) :
    ∃ skipped, xs = skipped ++ y :: ys ∧ (∀ x ∈ skipped, p x = true) ∧ p y = false := by
  induction xs with
  | nil => cases hdrop
  | cons x xs ih =>
      cases hx : p x with
      | false =>
          rw [List.dropWhile_cons_of_neg (by simp [hx])] at hdrop
          obtain ⟨rfl, rfl⟩ := List.cons.inj hdrop
          exact ⟨[], rfl, nofun, hx⟩
      | true =>
          rw [List.dropWhile_cons_of_pos hx] at hdrop
          obtain ⟨skipped, rfl, hall, hy⟩ := ih hdrop
          exact ⟨x :: skipped, rfl, List.forall_mem_cons.mpr ⟨hx, hall⟩, hy⟩

/-- The loop comes to the next element that the map has, or it has left out none of it. -/
theorem walk_cases (s : Server) (walk : Nat) (rest : List ConnId) :
    (s.walk walk rest = s ∧ ∀ id ∈ rest, id ∉ s.connectionMap) ∨
    ∃ skipped cur rest', rest = skipped ++ cur :: rest' ∧ (∀ id ∈ skipped, id ∉ s.connectionMap) ∧
      cur ∈ s.connectionMap ∧ s.walk walk rest = (s.give walk cur).push 0 (.visiting walk cur rest') := by
  unfold Server.walk
  split
  · next hdrop =>
      refine .inl ⟨rfl, fun id hid => ?_⟩
      simpa using List.dropWhile_eq_nil_iff.mp hdrop id hid
  · next cur rest' hdrop =>
      obtain ⟨skipped, hrest, hskipped, hcur⟩ := dropWhile_eq_cons hdrop
      simp only [decide_eq_true_eq, decide_eq_false_iff_not, not_not] at hskipped hcur
      exact .inr ⟨skipped, cur, rest', hrest, hskipped, hcur, rfl⟩

theorem walk_valid {walk : Nat} {rest : List ConnId} (hv : s.Valid h) (hfree : s.Free 0)
    (hwalk : walk < s.walks) (hbelow : Stacked s.connectionMap s.given walk (s.frames 0))
    (hnodup : (s.given walk ++ rest).Nodup) (hall : ∀ id ∈ s.connectionMap, id ∈ s.given walk ++ rest) :
    (s.walk walk rest).Valid h := by
  rcases s.walk_cases walk rest with ⟨hend, -⟩ | ⟨skipped, cur, rest', rfl, hskipped, hcur, hnext⟩
  · rw [hend]
    exact hv
  rw [hnext]
  have hgiven : (s.give walk cur).Valid h :=
    ⟨hv.fits, hv.born, hv.known, hv.frames, hv.tasks, hbelow.later hwalk.le fun other hother =>
      Function.update_of_ne hother.ne _ _⟩
  have hself : (s.give walk cur).given walk = s.given walk ++ [cur] := Function.update_self ..
  refine hgiven.setFrames hfree ?_ (by simp) (fun _ => ⟨hwalk, hcur, ?_, ?_, ?_⟩)
  · intro frame hframe
    rcases List.mem_cons.mp hframe with rfl | hold
    · exact ⟨rfl, rfl⟩
    · exact ⟨hfree frame hold, hv.frames 0 frame hold⟩
  · rw [hself, List.append_assoc]
    refine hnodup.sublist ((List.Sublist.refl _).append ?_)
    exact List.sublist_append_right _ _
  · intro id hid
    have hmem := hall id hid
    rw [hself, List.append_assoc]
    rw [List.mem_append, List.mem_append] at hmem
    rcases hmem with hseen | hgone | hrest
    · exact List.mem_append_left _ hseen
    · exact absurd hid (hskipped id hgone)
    · exact List.mem_append_right _ hrest
  · exact hbelow.later le_rfl fun other hother => Function.update_of_ne hother.ne _ _

private theorem forEach_valid {order : List ConnId} (hv : s.Valid h) (hfree : s.Free 0)
    (hlists : s.Lists order) :
    (s.forEach order).Valid h := by
  obtain ⟨hnodup, hmap⟩ := hlists
  have hbelow : Stacked s.connectionMap (Function.update s.given s.walks []) s.walks (s.frames 0) :=
    hv.stacked.later le_rfl fun other hother => Function.update_of_ne hother.ne _ _
  have hbegun : s.beginWalk.Valid h :=
    ⟨hv.fits, hv.born, hv.known, hv.frames, hv.tasks,
      hbelow.later (Nat.le_succ _) fun _ _ => rfl⟩
  refine walk_valid hbegun hfree (Nat.lt_succ_self _) hbelow ?_ ?_
  · simpa [beginWalk] using hnodup
  · intro id hid
    simpa [beginWalk] using List.mem_toFinset.mp (hmap ▸ hid)

theorem add_valid {order : List ConnId} (hv : s.Valid h) (hc : s.conns id = some c) :
    ∃ s', s.exec h l order (.add id) = some s' ∧ s'.Valid h := by
  simp only [exec, hc, Option.bind_eq_bind, Option.bind_some]
  obtain ⟨hhandled, hbuilt, hmessage, hclose, hmapped, hsingle, herasing, hunlisted, hlost, hmain,
    hclosed⟩ := hv.fits id c hc
  exact ⟨_, rfl, hv.set hc rfl (fun hb => hb) ⟨hhandled, hbuilt, hmessage, hclose, hmapped, hsingle,
    herasing, hunlisted, hlost, hmain, hclosed⟩⟩

theorem exec_valid {order : List ConnId} {task : Task} (hv : s.Valid h) (hfree : s.Free l)
    (hfits : s.TaskFits l task) (herase : ∀ id, task ≠ .erase id)
    (horder : task = .forEach → s.Lists order)
    (hvisits : ∀ id drained, task = .close id drained → l = 0 → ¬ s.Visits id) :
    ∃ s', s.exec h l order task = some s' ∧ s'.Valid h := by
  cases task with
  | add id =>
      obtain ⟨c, hc, rfl⟩ := hfits
      exact add_valid hv hc
  | connected id =>
      have hnotified : (s.notify id .connected).Valid h :=
        ⟨hv.fits, hv.born, hv.known, hv.frames, hv.tasks, hv.stacked⟩
      exact ⟨_, rfl, hnotified.push_user hfree⟩
  | close id drained =>
      obtain ⟨c, hc, rfl, hbuilt⟩ := hfits
      cases drained with
      | false => exact ⟨s, rfl, hv⟩
      | true => exact enterClosed_valid hv hfree hc hbuilt (hvisits id true rfl)
  | erase id => exact absurd rfl (herase id)
  | forOne id =>
      refine ⟨_, rfl, ?_⟩
      split
      · exact hv.push_user hfree
      · exact hv
  | forEach =>
      obtain rfl : l = 0 := hfits
      exact ⟨_, rfl, forEach_valid hv hfree (horder rfl)⟩

theorem runInLoop_valid {thread : Option LoopId} {order : List ConnId} {task : Task}
    (hv : s.Valid h) (hfree : ∀ m, thread = some m → s.Free m) (hfits : s.TaskFits l task)
    (herase : ∀ id, task ≠ .erase id)
    (horder : thread = some l → task = .forEach → s.Lists order)
    (hvisits : thread = some l → ∀ id drained, task = .close id drained → l = 0 → ¬ s.Visits id) :
    ∃ s', s.runInLoop h thread l order task = some s' ∧ s'.Valid h := by
  unfold runInLoop
  split
  · next hthread =>
      subst hthread
      exact exec_valid hv (hfree l rfl) hfits herase (horder rfl) (hvisits rfl)
  · exact ⟨_, rfl, hv.queue hfits herase⟩

/-- A new channel, which `establish` has made. -/
def accepted (s : Server) (nextIndex : Nat) (l : LoopId) : Server :=
  ({ s with nextIndex := nextIndex }.set s.connId (.made l)).push 0
    (.establishing s.connId .made)

private theorem accepted_valid {nextIndex : Nat} (hv : s.Valid h) (hidle : s.frames 0 = []) :
    (s.accepted nextIndex l).Valid h := by
  have hfree : s.Free 0 := by simp [Free, hidle]
  have hless : ∀ id c, s.conns id = some c → id < s.connId :=
    fun id c hc => (hv.born id c hc).resolve_right fun hmade => by simp [hidle] at hmade
  have hgrows : Grows s (s.accepted nextIndex l) := by
    intro id c hc
    exact ⟨c, (Function.update_of_ne (hless id c hc).ne _ _).trans hc, rfl, fun hb => hb⟩
  have hnone : s.conns s.connId = none := by
    cases hconn : s.conns s.connId with
    | none => rfl
    | some c => exact absurd (hless _ c hconn) (Nat.lt_irrefl _)
  -- nothing is known yet of the connection that is to come
  have hnoframe : ∀ l', .removing s.connId ∉ s.frames l' := by
    intro l' hmem
    obtain ⟨c, hc, -⟩ : s.FrameFits l' (.removing s.connId) := hv.frames l' _ hmem
    exact absurd (hnone.symm.trans hc) nofun
  have hnotask : .erase s.connId ∉ s.tasks 0 := by
    intro hmem
    obtain ⟨-, c, hc⟩ : s.TaskFits 0 (.erase s.connId) := hv.tasks 0 _ hmem
    exact absurd (hnone.symm.trans hc) nofun
  have herasing : ∀ l' id, (s.accepted nextIndex l).erasing l' id = s.erasing l' id := by
    intro l' id
    obtain rfl | hl := eq_or_ne l' 0
    · simp [erasing, accepted, push, Server.setFrames, Server.set, hidle]
    · simp [erasing, accepted, push, Server.setFrames, Server.set, hl]
  have hstage : ∀ id, (s.accepted nextIndex l).stageOf id = if s.connId = id then .made else .listed := by
    intro id
    simp [stageOf, accepted, push, Server.setFrames]
  constructor
  case fits =>
    intro id c hc
    rw [hstage, herasing]
    obtain rfl | hne := eq_or_ne id s.connId
    · have hzero : ∀ l', s.erasing l' s.connId = 0 := by
        intro l'
        simp [erasing, List.count_eq_zero, hnoframe, hnotask]
      have hout : s.connId ∉ s.connectionMap := by
        intro hmem
        obtain ⟨c, hc⟩ := hv.known _ hmem
        exact absurd (hnone.symm.trans hc) nofun
      have hnew : (s.accepted nextIndex l).conns s.connId = some (.made l) := Function.update_self ..
      obtain rfl := Option.some.inj (hnew.symm.trans hc)
      rw [hzero, if_pos rfl]
      constructor <;> simp [Conn.made, accepted, push, Server.setFrames, Server.set, hout]
    · have hold : s.conns id = some c := (Function.update_of_ne hne _ _).symm.trans hc
      rw [if_neg hne.symm, ← stageOf_free hfree id]
      exact hv.fits id c hold
  case born =>
    intro id c hc
    obtain rfl | hne := eq_or_ne id s.connId
    · exact .inr ⟨rfl, by simp [accepted, push, Server.setFrames, Server.set, hidle]⟩
    · exact .inl (hless id c ((Function.update_of_ne hne _ _).symm.trans hc))
  case known =>
    intro id hid
    obtain ⟨c, hc⟩ := hv.known id hid
    obtain ⟨c', hc', -⟩ := hgrows id c hc
    exact ⟨c', hc'⟩
  case frames =>
    refine hv.frames_push hfree hgrows rfl ⟨rfl, ?_, ?_⟩
    · simp [accepted, push, Server.setFrames, Server.set, hidle]
    · exact ⟨_, Function.update_self ..⟩
  case tasks => exact fun l' task htask => (hv.tasks l' task htask).grow hgrows
  case stacked => simp [accepted, push, Server.setFrames, Server.set, hidle, Stacked]

theorem accept_valid (hv : s.Valid h) (hidle : s.frames 0 = []) :
    ∃ s', s.step h .accept = some s' ∧ s'.Valid h := by
  have hadd : ∀ nextIndex l, ∃ s', (s.accepted nextIndex l).runInLoop h (some 0) l [] (.add s.connId) =
      some s' ∧ s'.Valid h := by
    intro nextIndex l
    have hvalid : (s.accepted nextIndex l).Valid h := accepted_valid hv hidle
    have hc : (s.accepted nextIndex l).conns s.connId = some _ := Function.update_self ..
    unfold runInLoop
    split
    · exact add_valid hvalid hc
    · exact ⟨_, rfl, hvalid.queue ⟨_, hc, rfl⟩ nofun⟩
  simp only [step, getNextLoop]
  split
  · exact hadd _ _
  · exact hadd s.nextIndex 0

theorem advance_valid {stage next : Stage} {map : Finset ConnId} {connId : ConnId} (hv : s.Valid h)
    (hmain : s.frames 0 = [.establishing id stage]) (hc : s.conns id = some c)
    (hloop : c'.loop = c.loop) (hbuilt : c.handled = true → c'.handled = true)
    (hfits : c'.Fits h next (id ∈ map) (s.erasing c.loop id))
    (hmap : ∀ other, other ≠ id → (other ∈ map ↔ other ∈ s.connectionMap))
    (hborn : ∀ other, other < s.connId ∨ other = s.connId ∧ stage = .made → other < connId) :
    ({ s.set id c' with connId := connId, connectionMap := map }.setFrames 0
      [.establishing id next]).Valid h := by
  have hgrows : Grows s ({ s.set id c' with connId := connId, connectionMap := map }.setFrames 0
      [.establishing id next]) := grows_set hc hloop hbuilt
  have hstage : ∀ other, s.stageOf other = if id = other then stage else .listed := by
    intro other
    simp [stageOf, hmain]
  have hstage' : ∀ other, ({ s.set id c' with connId := connId, connectionMap := map }.setFrames 0
      [.establishing id next]).stageOf other = if id = other then next else .listed := by
    intro other
    simp [stageOf, Server.setFrames]
  have herasing : ∀ l other, ({ s.set id c' with connId := connId, connectionMap := map }.setFrames 0
      [.establishing id next]).erasing l other = s.erasing l other := by
    intro l other
    obtain rfl | hl := eq_or_ne l 0
    · simp [erasing, Server.setFrames, Server.set, hmain]
    · simp [erasing, Server.setFrames, Server.set, hl]
  have hapart : Apart s ({ s.set id c' with connId := connId, connectionMap := map }.setFrames 0
      [.establishing id next]) id := by
    refine ⟨fun other hne => Function.update_of_ne hne _ _, fun other hne => ?_, hmap,
      fun other _ l => herasing l other⟩
    rw [hstage, hstage', if_neg hne.symm, if_neg hne.symm]
  constructor
  case fits =>
    refine hapart.fits hv (conns_set ..) ?_
    rw [hstage', herasing, if_pos rfl, hloop]
    exact hfits
  case born =>
    intro other d hd
    have hold : ∃ d', s.conns other = some d' := by
      obtain rfl | hne := eq_or_ne other id
      · exact ⟨c, hc⟩
      · exact ⟨d, (Function.update_of_ne hne _ _).symm.trans hd⟩
    obtain ⟨d', hd'⟩ := hold
    refine .inl (hborn other ((hv.born other d' hd').imp_right fun ⟨heq, hmade⟩ => ⟨heq, ?_⟩))
    rw [hmain] at hmade
    simp_all
  case known => exact hapart.known hv (conns_set ..)
  case frames =>
    intro l frame hframe
    obtain rfl | hl := eq_or_ne l 0
    · obtain rfl : frame = .establishing id next := by simpa [Server.setFrames] using hframe
      exact ⟨rfl, by simp [Server.setFrames], c', conns_set ..⟩
    · have hfits := hv.frames l frame (by simpa [Server.setFrames, Server.set, hl] using hframe)
      refine hfits.grow hgrows (.inl ?_)
      cases frame with
      | establishing other stage => exact absurd hfits.1 hl
      | user | removing other | visiting walk cur rest => rfl
  case tasks => exact fun l task htask => (hv.tasks l task htask).grow hgrows
  case stacked => simp [Server.setFrames, Stacked]

theorem set_self (hc : s.conns id = some c) : s.set id c = s := by
  simp [Server.set, ← hc]

private theorem established_valid (hv : s.Valid h)
    (hmain : s.frames 0 = [.establishing id .listed]) :
    (s.setFrames 0 []).Valid h := by
  have hstage : ∀ other, (s.setFrames 0 []).stageOf other = s.stageOf other := by
    intro other
    simp [stageOf, Server.setFrames, hmain]
  have herasing : ∀ l other, (s.setFrames 0 []).erasing l other = s.erasing l other := by
    intro l other
    obtain rfl | hl := eq_or_ne l 0
    · simp [erasing, Server.setFrames, hmain]
    · simp [erasing, Server.setFrames, hl]
  constructor
  case fits =>
    intro other d hd
    rw [hstage, herasing]
    exact hv.fits other d hd
  case born => exact fun other d hd => .inl ((hv.born other d hd).resolve_right (by simp [hmain]))
  case known => exact hv.known
  case frames =>
    intro l frame hframe
    obtain rfl | hl := eq_or_ne l 0
    · simp [Server.setFrames] at hframe
    · have hfits := hv.frames l frame (by simpa [Server.setFrames, hl] using hframe)
      refine hfits.grow (.refl s) (.inl ?_)
      cases frame with
      | establishing other stage => exact absurd hfits.1 hl
      | user | removing other | visiting walk cur rest => rfl
  case tasks => exact hv.tasks
  case stacked => simp [Server.setFrames, Stacked]

theorem establish_valid {stage : Stage} {frames : List Frame} (hv : s.Valid h)
    (hframes : s.frames 0 = .establishing id stage :: frames) :
    ∃ s', s.establish h id stage = some s' ∧ s'.Valid h := by
  obtain ⟨-, hmain, c, hc⟩ : s.FrameFits 0 (.establishing id stage) :=
    hv.frames 0 _ (hframes ▸ List.mem_cons_self)
  have hfits := hv.fits id c hc
  have hstage : s.stageOf id = stage := by simp [stageOf, hmain]
  rw [hstage] at hfits
  cases stage with
  | made =>
      simp only [establish, hc, Option.bind_eq_bind, Option.bind_some]
      refine ⟨_, rfl, advance_valid hv hmain hc rfl (fun _ => rfl) hfits.handle (fun _ _ => Iff.rfl) ?_⟩
      intro other hother
      rcases hother with hless | ⟨rfl, -⟩
      · exact Nat.lt_succ_of_lt hless
      · exact Nat.lt_succ_self _
  | handled =>
      simp only [establish, hc, Option.bind_eq_bind, Option.bind_some]
      refine ⟨_, rfl, advance_valid hv hmain hc rfl (fun hb => hb) hfits.construct (fun _ _ => Iff.rfl) ?_⟩
      exact fun other hother => hother.resolve_right nofun
  | constructed =>
      simp only [establish, hc, Option.bind_eq_bind, Option.bind_some]
      refine ⟨_, rfl, advance_valid hv hmain hc rfl (fun hb => hb) hfits.setMessage (fun _ _ => Iff.rfl) ?_⟩
      exact fun other hother => hother.resolve_right nofun
  | messageSet =>
      simp only [establish, hc, Option.bind_eq_bind, Option.bind_some]
      refine ⟨_, rfl, advance_valid hv hmain hc rfl (fun hb => hb) hfits.setClose (fun _ _ => Iff.rfl) ?_⟩
      exact fun other hother => hother.resolve_right nofun
  | closeSet =>
      have hlist := hfits.list (Finset.mem_insert_self id s.connectionMap)
      have hadvance := advance_valid hv hmain hc rfl (fun hb => hb) hlist (fun other hne => by simp [hne])
        (fun other hother => hother.resolve_right nofun)
      rw [set_self hc] at hadvance
      exact ⟨_, rfl, hadvance⟩
  | listed =>
      simp only [establish, hc, Option.bind_eq_bind, Option.bind_some]
      have hdone := established_valid hv hmain
      split
      · refine runInLoop_valid hdone ?_ ⟨c, hc, rfl⟩ nofun nofun nofun
        intro l hl
        obtain rfl := Option.some.inj hl
        simp [Free, Server.setFrames]
      · exact ⟨_, rfl, hdone⟩

private theorem run_valid {task : Task} {tasks : List Task} {order : List ConnId} (hv : s.Valid h)
    (hidle : s.frames l = []) (htasks : s.tasks l = task :: tasks)
    (horder : l = 0 → s.Lists order) :
    ∃ s', s.step h (.run l order) = some s' ∧ s'.Valid h := by
  have hfits : s.TaskFits l task := hv.tasks l task (htasks ▸ List.mem_cons_self)
  simp only [step, htasks]
  by_cases herase : ∃ id, task = .erase id
  · obtain ⟨id, rfl⟩ := herase
    obtain ⟨rfl, -⟩ := hfits
    exact ⟨_, rfl, erase_valid hv hidle htasks⟩
  · have hother : ∀ id, task ≠ .erase id := fun id heq => herase ⟨id, heq⟩
    refine exec_valid (hv.dequeue htasks hother) ?_ hfits hother ?_ ?_
    · simp [Free, hidle]
    · rintro rfl
      exact horder hfits
    · rintro id drained - rfl ⟨seen, rest, hmem⟩
      simp [hidle] at hmem

private theorem ret_valid {frame : Frame} {frames : List Frame} (hv : s.Valid h)
    (hframes : s.frames l = frame :: frames) (huser : frame.inUser) :
    ∃ s', s.step h (.ret l) = some s' ∧ s'.Valid h := by
  have hfree : s.Free l := hv.free_of_calls ⟨frame, by simp [hframes], huser⟩
  have hrest : ∀ other ∈ frames, other.inUser ∧ s.FrameFits l other := by
    intro other hother
    have hmem : other ∈ s.frames l := hframes ▸ List.mem_cons_of_mem _ hother
    exact ⟨hfree other hmem, hv.frames l other hmem⟩
  have hstacked : l = 0 → Stacked s.connectionMap s.given s.walks (frame :: frames) := by
    rintro rfl
    exact hframes ▸ hv.stacked
  simp only [step, hframes]
  cases frame with
  | establishing id stage => exact absurd huser nofun
  | user => exact ⟨_, rfl, hv.setFrames hfree hrest (by simp [hframes]) hstacked⟩
  | removing id => exact ⟨_, rfl, runErase_valid hv hfree hframes⟩
  | visiting walk cur rest =>
      obtain rfl : l = 0 := hv.frames l (.visiting walk cur rest) (hframes ▸ List.mem_cons_self)
      obtain ⟨hwalk, hcur, hnodup, hall, hbelow⟩ := hstacked rfl
      have hpopped : (s.setFrames 0 frames).Valid h :=
        hv.setFrames hfree hrest (by simp [hframes]) fun _ => hbelow.later hwalk.le fun _ _ => rfl
      simp only [hcur, if_true]
      refine ⟨_, rfl, walk_valid hpopped ?_ hwalk ?_ hnodup hall⟩
      · exact fun other hother => (hrest other (by simpa [Server.setFrames] using hother)).1
      · simpa [Server.setFrames] using hbelow

theorem step_valid (s : Server) (e : Event) (hv : s.Valid h) (hok : s.Allowed e) :
    ∃ s', s.step h e = some s' ∧ s'.Valid h := by
  -- the thread of a call is in code of the user
  have hfree : ∀ {thread : Option LoopId}, s.Calls thread → ∀ m, thread = some m → s.Free m := by
    rintro _ hcalls m rfl
    exact hv.free_of_calls hcalls
  cases e with
  | accept => exact accept_valid hv hok
  | establish =>
      obtain ⟨id, stage, frames, hframes⟩ := hok
      simp only [step, hframes]
      exact establish_valid hv hframes
  | message id =>
      obtain ⟨c, hc, hidle, -⟩ := hok
      have hnotified : ∀ notice, (s.notify id notice).Valid h := fun notice =>
        ⟨hv.fits, hv.born, hv.known, hv.frames, hv.tasks, hv.stacked⟩
      simp only [step, hc, Option.bind_eq_bind, Option.bind_some]
      split
      · refine ⟨_, rfl, (hnotified .message).push_user ?_⟩
        simp [Free, notify, hidle]
      · exact ⟨_, rfl, hnotified .discarded⟩
  | terminate id =>
      obtain ⟨c, hc, hidle, -, hbuilt, -⟩ := hok
      simp only [step, hc, Option.bind_eq_bind, Option.bind_some]
      refine enterClosed_valid hv (by simp [Free, hidle]) hc hbuilt ?_
      rintro hmain ⟨walk, rest, hmem⟩
      simp [hmain ▸ hidle] at hmem
  | close thread id drained =>
      obtain ⟨hcalls, c, hc, hbuilt, hvisits⟩ := hok
      simp only [step, hc, Option.bind_eq_bind, Option.bind_some]
      have hhandled := (hv.fits id c hc).handled_of_constructed hbuilt
      refine runInLoop_valid hv (hfree hcalls) ⟨c, hc, rfl, hhandled⟩ nofun nofun ?_
      rintro rfl other _ heq hmain
      obtain ⟨rfl, -⟩ := Task.close.inj heq
      exact hvisits (hmain ▸ rfl) hmain
  | forOne thread id => exact runInLoop_valid hv (hfree hok) rfl nofun nofun nofun
  | forEach thread order =>
      exact runInLoop_valid hv (hfree hok.1) rfl nofun (fun hmain _ => hok.2 hmain) nofun
  | run l order =>
      obtain ⟨hidle, horder⟩ := hok
      cases htasks : s.tasks l with
      | nil => exact ⟨s, by simp only [step, htasks], hv⟩
      | cons task tasks => exact run_valid hv hidle htasks horder
  | ret l =>
      obtain ⟨frame, frames, hframes, huser⟩ := hok
      exact ret_valid hv hframes huser

theorem run_reaches {events : List Event} {groupSize : Nat}
    (hrun : AdmissibleM (step h) Allowed (init groupSize) events) :
    ∃ s, events.foldlM (step h) (init groupSize) = some s ∧ s.Valid h :=
  foldlM_invariant step_valid (init_valid h groupSize) hrun

/-- Nothing is being established, and nothing is on its way out of the map. -/
def Settled (s : Server) : Prop :=
  s.frames 0 = [] ∧ (∀ l id, .removing id ∉ s.frames l) ∧ ∀ id, .erase id ∉ s.tasks 0

/-- In every interleaving the map has connections only that are constructed, and one that has left it
is closed, as its destructor asserts. Between two changes the map is exact: it has the connections
that are not closed, and those of io loops that were closed before they had their close handler. -/
theorem registry_exact {events : List Event} {groupSize : Nat}
    (hrun : AdmissibleM (step h) Allowed (init groupSize) events) :
    ∃ s, events.foldlM (step h) (init groupSize) = some s ∧
      (∀ id ∈ s.connectionMap, ∃ c, s.conns id = some c ∧ c.constructed = true) ∧
      (∀ id c, s.conns id = some c → (∀ stage, s.frames 0 ≠ [.establishing id stage]) →
        id ∉ s.connectionMap → c.closed = true) ∧
      (s.Settled → ∀ id c, s.conns id = some c →
        (id ∈ s.connectionMap ↔ c.closed = false ∨ c.lost = true)) ∧
      ∀ id c, s.conns id = some c → c.lost = true → c.loop ≠ 0 := by
  obtain ⟨s, hs, hv⟩ := run_reaches hrun
  refine ⟨s, hs, ?_, ?_, ?_, fun id c hc hlost => ((hv.fits id c hc).lost hlost).2⟩
  · intro id hid
    obtain ⟨c, hc⟩ := hv.known id hid
    have hfits := hv.fits id c hc
    refine ⟨c, hc, hfits.constructed.mpr ?_⟩
    simp [(hfits.mapped.mp hid).1]
  · intro id c hc hdone hout
    have hlisted : s.stageOf id = .listed := by
      unfold stageOf
      split
      · next current stage frames hframes =>
          obtain ⟨-, hmain, -⟩ : s.FrameFits 0 (.establishing current stage) :=
            hv.frames 0 _ (hframes ▸ List.mem_cons_self)
          refine if_neg ?_
          rintro rfl
          exact hdone stage hmain
      · rfl
    have hmapped := (hv.fits id c hc).mapped.not.mp hout
    by_contra hopen
    exact hmapped ⟨hlisted, fun hclosed => absurd hclosed hopen⟩
  · rintro ⟨hidle, hframes, htasks⟩ id c hc
    have hlisted := stageOf_free (s := s) (by simp [Free, hidle]) id
    have hzero : s.erasing c.loop id = 0 := by simp [erasing, List.count_eq_zero, hframes, htasks]
    rw [(hv.fits id c hc).mapped, hlisted, hzero]
    cases c.closed <;> simp

/-- A server whose user has given all handlers. -/
def allHandlers : Handlers := ⟨true, true, true⟩

/-- One io loop. A connection is established, visited by another thread's `for_each`, and closed by
its message handler. -/
def closedByHandler : List Event :=
  [.accept, .establish, .establish, .establish, .establish, .establish, .establish, .run 1 [], .run 1 [],
    .ret 1, .forEach none [], .run 0 [1], .message 1, .close (some 1) 1 true, .ret 0, .ret 1, .ret 1,
    .run 0 [1]]

theorem closedByHandler_admissible :
    AdmissibleM (step allHandlers) Allowed (init 1) closedByHandler := by
  refine .cons rfl rfl (.cons ⟨_, _, _, rfl⟩ rfl (.cons ⟨_, _, _, rfl⟩ rfl (.cons ⟨_, _, _, rfl⟩ rfl
    (.cons ⟨_, _, _, rfl⟩ rfl (.cons ⟨_, _, _, rfl⟩ rfl (.cons ⟨_, _, _, rfl⟩ rfl (.cons ⟨rfl, nofun⟩ rfl
    (.cons ⟨rfl, nofun⟩ rfl (.cons ⟨_, _, rfl, rfl⟩ rfl (.cons ⟨trivial, nofun⟩ rfl
    (.cons ⟨rfl, fun _ => ⟨by decide, rfl⟩⟩ rfl (.cons ⟨_, rfl, rfl, rfl, rfl, rfl⟩ rfl
    (.cons ⟨⟨_, rfl, rfl⟩, _, rfl, rfl, nofun⟩ rfl (.cons ⟨_, _, rfl, rfl⟩ rfl
    (.cons ⟨_, _, rfl, rfl⟩ rfl (.cons ⟨_, _, rfl, rfl⟩ rfl
    (.cons ⟨rfl, fun _ => ⟨by decide, rfl⟩⟩ rfl trivial)))))))))))))))))

theorem registry_exact_closed :
    ∃ s, closedByHandler.foldlM (step allHandlers) (init 1) = some s ∧
      (∀ id ∈ s.connectionMap, ∃ c, s.conns id = some c ∧ c.constructed = true) ∧
      (∀ id c, s.conns id = some c → (∀ stage, s.frames 0 ≠ [.establishing id stage]) →
        id ∉ s.connectionMap → c.closed = true) ∧
      (s.Settled → ∀ id c, s.conns id = some c →
        (id ∈ s.connectionMap ↔ c.closed = false ∨ c.lost = true)) ∧
      ∀ id c, s.conns id = some c → c.lost = true → c.loop ≠ 0 :=
  registry_exact closedByHandler_admissible

/-- An io loop closes a connection while the main loop is still in `establish`: it stays in the map. -/
example : ([.accept, .run 1 [], .establish, .terminate 1, .establish, .establish, .establish, .establish,
    .establish, .run 1 [], .ret 1].foldlM (step allHandlers) (init 1)).map (·.connectionMap) = some {1} := rfl

/-- With no io loops, a functor of `for_each` that closes its connection takes the element from under
the iterator. -/
example : [.accept, .establish, .establish, .establish, .establish, .establish, .establish, .ret 0,
    .forEach none [], .run 0 [1], .close (some 0) 1 true, .ret 0, .ret 0].foldlM (step allHandlers)
    (init 0) = none := rfl

end Server

end Angel.Reactor
