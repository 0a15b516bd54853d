import Angel.Reactor.Balance

/-!
What the user is told about a connection, and in which order. In the main loop nothing comes between
the steps of `establish`, and so its connections are told as they should be: the connection handler,
then the messages, then the close handler, and no data is dropped. Of the io loops only the end of
that holds.
-/

namespace Angel.Reactor

open Lib

/-- What is made of data in a connection that has its message handler. -/
def Handlers.reads (h : Handlers) : Notice := if h.message then .message else .discarded

/-- What the user has heard of one connection, which is still in `establish` or not, when data has come
on it `reads` times. -/
structure Conn.Told (h : Handlers) (c : Conn) (establishing : Prop) (reads : Nat)
    (heard : List Notice) : Prop where
  last : ∃ before, (∀ notice ∈ before, notice = .message ∨ notice = .discarded) ∧
    heard.filter (· ≠ .connected) =
      before ++ if c.closed = true ∧ c.lost = false ∧ h.close = true then [.closed] else []
  silent : c.loop = 0 → establishing → heard = [] ∧ reads = 0 ∧ c.closed = false
  inOrder : c.loop = 0 → ¬ establishing → heard =
    (if h.connection then [.connected] else []) ++ List.replicate reads h.reads ++
      if c.closed = true ∧ h.close = true then [.closed] else []

namespace Conn

variable {h : Handlers} {c c' : Conn} {establishing : Prop} {reads : Nat} {heard : List Notice}

theorem Told.same (ht : c.Told h establishing reads heard) (hloop : c'.loop = c.loop)
    (hclosed : c'.closed = c.closed) (hlost : c'.lost = c.lost) :
    c'.Told h establishing reads heard := by
  obtain ⟨hlast, hsilent, horder⟩ := ht
  refine ⟨?_, ?_, ?_⟩
  · rwa [hclosed, hlost]
  · rwa [hloop, hclosed]
  · rwa [hloop, hclosed]

theorem Told.fresh (hopen : c.closed = false) (hnew : c.loop = 0 → establishing) :
    c.Told h establishing 0 [] where
  last := ⟨[], nofun, by simp [hopen]⟩
  silent _ _ := ⟨rfl, rfl, hopen⟩
  inOrder hmain hdone := absurd (hnew hmain) hdone

theorem Told.read {notice : Notice} (ht : c.Told h establishing reads heard) (hopen : c.closed = false)
    (hnotice : notice = .message ∨ notice = .discarded)
    (hmain : c.loop = 0 → ¬ establishing ∧ notice = h.reads) :
    c.Told h establishing (reads + 1) (heard ++ [notice]) where
  last := by
    obtain ⟨before, hbefore, hheard⟩ := ht.last
    refine ⟨before ++ [notice], ?_, ?_⟩
    · intro other hother
      rcases List.mem_append.mp hother with hold | hnew
      · exact hbefore other hold
      · exact List.mem_singleton.mp hnew ▸ hnotice
    · have hkept : notice ≠ .connected := by rcases hnotice with rfl | rfl <;> nofun
      rw [List.filter_append, hheard]
      simp [hopen, hkept]
  silent hloop hest := absurd hest (hmain hloop).1
  inOrder hloop hdone := by
    obtain rfl := (hmain hloop).2
    rw [ht.inOrder hloop hdone, List.replicate_succ']
    simp [hopen]

theorem Told.lose (ht : c.Told h establishing reads heard) (hopen : c.closed = false)
    (hhandler : c.closeHandler = false) (hloop : c.loop ≠ 0) :
    Conn.Told h { c with closed := true, lost := !c.closeHandler } establishing reads heard where
  last := by simpa [hopen, hhandler] using ht.last
  silent hmain := absurd hmain hloop
  inOrder hmain := absurd hmain hloop

theorem Told.close (ht : c.Told h establishing reads heard) (hopen : c.closed = false)
    (hhandler : c.closeHandler = true) (hdone : c.loop = 0 → ¬ establishing) :
    Conn.Told h { c with closed := true, lost := !c.closeHandler } establishing reads
      (heard ++ if h.close then [.closed] else []) where
  last := by
    obtain ⟨before, hbefore, hheard⟩ := ht.last
    refine ⟨before, hbefore, ?_⟩
    rw [List.filter_append, hheard]
    cases h.close <;> simp [hopen, hhandler]
  silent hmain hest := absurd hest (hdone hmain)
  inOrder hmain hestablished := by
    rw [ht.inOrder hmain hestablished]
    cases h.close <;> simp [hopen]

theorem Told.connect (ht : c.Told h establishing reads heard) (hloop : c.loop ≠ 0) :
    c.Told h establishing reads (heard ++ [.connected]) where
  last := by simpa [List.filter_append] using ht.last
  silent hmain := absurd hmain hloop
  inOrder hmain := absurd hmain hloop

/-- The end of `establish`, with the call of the connection handler in the main loop. -/
theorem Told.establish (ht : c.Told h establishing reads heard) (hest : establishing) :
    c.Told h False reads (heard ++ if c.loop = 0 ∧ h.connection = true then [.connected] else []) where
  last := by
    obtain ⟨before, hbefore, hheard⟩ := ht.last
    refine ⟨before, hbefore, ?_⟩
    rw [List.filter_append, hheard]
    split <;> simp
  silent _ := False.elim
  inOrder hmain _ := by
    obtain ⟨rfl, rfl, hopen⟩ := ht.silent hmain hest
    simp [hmain, hopen]

end Conn

namespace Server

variable {h : Handlers} {s s' : Server} {l : LoopId} {id : ConnId} {c c' : Conn} {reads : ConnId → Nat}

/-- What the user has heard of a connection so far. -/
def heard (s : Server) (id : ConnId) : List Notice :=
  (s.notices.filter (·.1 = id)).map (·.2)

def Establishing (s : Server) (id : ConnId) : Prop := ∃ stage, .establishing id stage ∈ s.frames 0

/-- Data has come on the connections this many times. -/
structure Tells (h : Handlers) (reads : ConnId → Nat) (s : Server) : Prop where
  told : ∀ id c, s.conns id = some c → c.Told h (s.Establishing id) (reads id) (s.heard id)
  unheard : ∀ id, s.conns id = none → s.heard id = [] ∧ reads id = 0
  direct : ∀ id, .connected id ∉ s.tasks 0

@[simp] theorem heard_notify (s : Server) (id : ConnId) (notice : Notice) :
    (s.notify id notice).heard id = s.heard id ++ [notice] := by
  simp [heard, notify]

theorem heard_notify_other {other : ConnId} (s : Server) (notice : Notice) (hne : other ≠ id) :
    (s.notify id notice).heard other = s.heard other := by
  simp [heard, notify, hne.symm]

/-- Nothing is told, and no connection is opened or closed. -/
structure Mute (s s' : Server) : Prop where
  notices : s'.notices = s.notices
  conns : ∀ id, (s'.conns id).map (fun c => (c.loop, c.closed, c.lost)) =
    (s.conns id).map fun c => (c.loop, c.closed, c.lost)
  establishing : ∀ id, s'.Establishing id ↔ s.Establishing id
  tasks : ∀ id, .connected id ∈ s'.tasks 0 → .connected id ∈ s.tasks 0

theorem Mute.refl (s : Server) : Mute s s := ⟨rfl, fun _ => rfl, fun _ => Iff.rfl, fun _ ht => ht⟩

theorem Mute.trans {s'' : Server} (hs : Mute s s') (hs' : Mute s' s'') : Mute s s'' where
  notices := hs'.notices.trans hs.notices
  conns id := (hs'.conns id).trans (hs.conns id)
  establishing id := (hs'.establishing id).trans (hs.establishing id)
  tasks id ht := hs.tasks id (hs'.tasks id ht)

theorem Mute.tells (hs : Mute s s') (ht : s.Tells h reads) : s'.Tells h reads where
  told id c' hc' := by
    have hconns := hs.conns id
    rw [hc', Option.map_some] at hconns
    obtain ⟨c, hc, hsame⟩ := Option.map_eq_some_iff.mp hconns.symm
    obtain ⟨hloop, hclosed, hlost⟩ : c.loop = c'.loop ∧ c.closed = c'.closed ∧ c.lost = c'.lost := by
      simpa using hsame
    have hheard : s'.heard id = s.heard id := by simp only [heard, hs.notices]
    rw [hheard, hs.establishing]
    exact (ht.told id c hc).same hloop.symm hclosed.symm hlost.symm
  unheard id hnone := by
    have hconns := hs.conns id
    rw [hnone, Option.map_none] at hconns
    have hheard : s'.heard id = s.heard id := by simp only [heard, hs.notices]
    rw [hheard]
    exact ht.unheard id (Option.map_eq_none_iff.mp hconns.symm)
  direct id hmem := ht.direct id (hs.tasks id hmem)

theorem mute_set (hc : s.conns id = some c) (hloop : c'.loop = c.loop)
    (hclosed : c'.closed = c.closed) (hlost : c'.lost = c.lost) : Mute s (s.set id c') := by
  refine ⟨rfl, fun other => ?_, fun _ => Iff.rfl, fun _ ht => ht⟩
  obtain rfl | hne := eq_or_ne other id
  · simp [hc, hloop, hclosed, hlost]
  · simp [set, hne]

theorem mute_push (frame : Frame) (huser : frame.inUser) : Mute s (s.push l frame) :=
  ⟨rfl, fun _ => rfl, fun id => exists_congr ((steady_push frame huser).establishing id), fun _ ht => ht⟩

theorem mute_pop {frame : Frame} {frames : List Frame} (hframes : s.frames l = frame :: frames)
    (huser : frame.inUser) : Mute s (s.setFrames l frames) :=
  ⟨rfl, fun _ => rfl, fun id => exists_congr ((steady_pop hframes huser).establishing id), fun _ ht => ht⟩

theorem mute_queue {task : Task} (hother : l = 0 → ∀ id, task ≠ .connected id) :
    Mute s (s.queue l task) := by
  refine ⟨rfl, fun _ => rfl, fun _ => Iff.rfl, fun id ht => ?_⟩
  obtain rfl | hl := eq_or_ne l 0
  · have hne : Task.connected id ≠ task := (hother rfl id).symm
    simpa [queue, hne] using ht
  · simpa [queue, hl.symm] using ht

theorem mute_runErase (s : Server) (l : LoopId) (id : ConnId) : Mute s (s.runErase l id) := by
  unfold runErase
  split
  · exact ⟨rfl, fun _ => rfl, fun _ => Iff.rfl, fun _ ht => ht⟩
  · exact mute_queue nofun

theorem mute_walk (s : Server) (walk : Nat) (rest : List ConnId) : Mute s (s.walk walk rest) := by
  unfold Server.walk
  split
  · exact .refl s
  · next cur rest _ =>
      have hgiven : Mute s (s.give walk cur) :=
        ⟨rfl, fun _ => rfl, fun _ => Iff.rfl, fun _ ht => ht⟩
      exact hgiven.trans (mute_push _ rfl)

theorem mute_forEach (s : Server) (order : List ConnId) : Mute s (s.forEach order) := by
  have hbegun : Mute s s.beginWalk := ⟨rfl, fun _ => rfl, fun _ => Iff.rfl, fun _ ht => ht⟩
  exact hbegun.trans (mute_walk ..)

theorem Tells.change {reads' : ConnId → Nat} (ht : s.Tells h reads) (hc : s.conns id = some c)
    (hconns : s'.conns = (s.set id c').conns) (hframes : s'.frames = s.frames)
    (htasks : s'.tasks = s.tasks)
    (hothers : ∀ other, other ≠ id → s'.heard other = s.heard other ∧ reads' other = reads other)
    (htold : c'.Told h (s.Establishing id) (reads' id) (s'.heard id)) : s'.Tells h reads' where
  told other d hd := by
    have hest : s'.Establishing other ↔ s.Establishing other := by simp only [Establishing, hframes]
    rw [hconns] at hd
    rw [hest]
    obtain rfl | hne := eq_or_ne other id
    · obtain rfl := Option.some.inj ((conns_set ..).symm.trans hd)
      exact htold
    · rw [(hothers other hne).1, (hothers other hne).2]
      exact ht.told other d ((Function.update_of_ne hne _ _).symm.trans hd)
  unheard other hnone := by
    rw [hconns] at hnone
    obtain rfl | hne := eq_or_ne other id
    · exact absurd ((conns_set ..).symm.trans hnone) nofun
    · rw [(hothers other hne).1, (hothers other hne).2]
      exact ht.unheard other ((Function.update_of_ne hne _ _).symm.trans hnone)
  direct other := htasks ▸ ht.direct other

theorem not_establishing (hfree : s.Free 0) (id : ConnId) : ¬ s.Establishing id := by
  rintro ⟨stage, hmem⟩
  exact absurd (hfree _ hmem) nofun

theorem enterClosed_tells (hv : s.Valid h) (ht : s.Tells h reads) (hfree : s.Free c.loop)
    (hc : s.conns id = some c) (hs : s.enterClosed h c.loop id = some s') : s'.Tells h reads := by
  have hdone : c.loop = 0 → ¬ s.Establishing id := fun hmain => not_establishing (hmain ▸ hfree) id
  simp only [enterClosed, hc, Option.bind_eq_bind, Option.bind_some] at hs
  split at hs
  · exact Option.some.inj hs ▸ ht
  · next hclosed =>
      have hopen : c.closed = false := Bool.eq_false_of_not_eq_true hclosed
      have htold := ht.told id c hc
      obtain rfl := Option.some.inj hs
      split
      · next hhandler =>
          have hclose := htold.close hopen hhandler hdone
          unfold removeConnection
          split
          · next hgiven =>
              simp only [hgiven, if_true] at hclose
              refine (mute_push _ rfl).tells (ht.change hc rfl rfl rfl ?_ ?_)
              · exact fun other hne => ⟨heard_notify_other _ _ hne, rfl⟩
              · rw [heard_notify]
                exact hclose
          · next hgiven =>
              simp only [hgiven, Bool.false_eq_true, if_false, List.append_nil] at hclose
              exact (mute_runErase ..).tells (ht.change hc rfl rfl rfl (fun _ _ => ⟨rfl, rfl⟩) hclose)
      · next hhandler =>
          have hnone : c.closeHandler = false := Bool.eq_false_of_not_eq_true hhandler
          have hloop : c.loop ≠ 0 := by
            intro hmain
            refine hhandler ((hv.fits id c hc).closeHandler.mpr (.inr ?_))
            exact stageOf_free (hmain ▸ hfree) id
          exact ht.change hc rfl rfl rfl (fun _ _ => ⟨rfl, rfl⟩) (htold.lose hopen hnone hloop)

theorem exec_tells {order : List ConnId} {task : Task} (hv : s.Valid h) (ht : s.Tells h reads)
    (hfree : s.Free l) (hfits : s.TaskFits l task) (hdirect : l = 0 → ∀ id, task ≠ .connected id)
    (hs : s.exec h l order task = some s') : s'.Tells h reads := by
  cases task with
  | add id =>
      obtain ⟨c, hc, -⟩ := hfits
      simp only [exec, hc, Option.bind_eq_bind, Option.bind_some] at hs
      have hset : Mute s (s.set id { c with added := true }) := mute_set hc rfl rfl rfl
      exact Option.some.inj hs ▸ hset.tells ht
  | connected id =>
      obtain ⟨c, hc, rfl⟩ := hfits
      have hloop : c.loop ≠ 0 := fun hmain => hdirect hmain id rfl
      obtain rfl := Option.some.inj hs
      have hsame : (s.notify id .connected).conns = (s.set id c).conns := by
        rw [set_self hc]
        rfl
      refine (mute_push _ rfl).tells (ht.change hc hsame rfl rfl ?_ ?_)
      · exact fun other hne => ⟨heard_notify_other _ _ hne, rfl⟩
      · rw [heard_notify]
        exact (ht.told id c hc).connect hloop
  | close id drained =>
      obtain ⟨c, hc, rfl, -⟩ := hfits
      cases drained with
      | false => exact Option.some.inj hs ▸ ht
      | true => exact enterClosed_tells hv ht hfree hc hs
  | erase id =>
      obtain rfl := Option.some.inj hs
      have herase : Mute s { s with connectionMap := s.connectionMap.erase id } :=
        ⟨rfl, fun _ => rfl, fun _ => Iff.rfl, fun _ hmem => hmem⟩
      exact herase.tells ht
  | forOne id =>
      obtain rfl := Option.some.inj hs
      split
      · exact (mute_push _ rfl).tells ht
      · exact ht
  | forEach => exact Option.some.inj hs ▸ (mute_forEach ..).tells ht

theorem runInLoop_tells {thread : Option LoopId} {order : List ConnId} {task : Task}
    (hv : s.Valid h) (ht : s.Tells h reads) (hs : s.runInLoop h thread l order task = some s')
    (hfree : ∀ m, thread = some m → s.Free m) (hfits : s.TaskFits l task)
    (hdirect : l = 0 → ∀ id, task ≠ .connected id) : s'.Tells h reads := by
  unfold runInLoop at hs
  split at hs
  · next hthread => exact exec_tells hv ht (hfree l hthread) hfits hdirect hs
  · exact Option.some.inj hs ▸ (mute_queue hdirect).tells ht

theorem accept_tells (hv : s.Valid h) (hidle : s.frames 0 = []) (ht : s.Tells h reads)
    (hs : s.step h .accept = some s') : s'.Tells h reads := by
  have hnone : s.conns s.connId = none := by
    cases hconn : s.conns s.connId with
    | none => rfl
    | some c =>
        rcases hv.born _ c hconn with hlt | ⟨-, hmade⟩
        · exact absurd hlt (Nat.lt_irrefl _)
        · simp [hidle] at hmade
  have haccepted : ∀ nextIndex l, (s.accepted nextIndex l).Tells h reads := by
    intro nextIndex l
    have hest : ∀ id, (s.accepted nextIndex l).Establishing id ↔ id = s.connId := by
      intro id
      simp [Establishing, accepted, push, setFrames, Server.set, hidle]
    constructor
    case told =>
      intro id c hc
      rw [hest]
      change c.Told h (id = s.connId) (reads id) (s.heard id)
      obtain rfl | hne := eq_or_ne id s.connId
      · have hnew : (s.accepted nextIndex l).conns s.connId = some (.made l) := Function.update_self ..
        obtain rfl := Option.some.inj (hnew.symm.trans hc)
        rw [(ht.unheard _ hnone).1, (ht.unheard _ hnone).2]
        exact .fresh rfl fun _ => rfl
      · have hold := ht.told id c ((Function.update_of_ne hne _ _).symm.trans hc)
        have hout : s.Establishing id ↔ id = s.connId :=
          iff_of_false (not_establishing (by simp [Free, hidle]) id) hne
        rw [← hout]
        exact hold
    case unheard =>
      intro id hid
      obtain rfl | hne := eq_or_ne id s.connId
      · exact ht.unheard _ hnone
      · exact ht.unheard id ((Function.update_of_ne hne _ _).symm.trans hid)
    case direct => exact ht.direct
  have hadd : ∀ nextIndex l,
      (s.accepted nextIndex l).runInLoop h (some 0) l [] (.add s.connId) = some s' →
      s'.Tells h reads := by
    intro nextIndex l hs
    have hnew : (s.accepted nextIndex l).conns s.connId = some (.made l) := Function.update_self ..
    have hset : Mute (s.accepted nextIndex l)
        ((s.accepted nextIndex l).set s.connId { Conn.made l with added := true }) :=
      mute_set hnew rfl rfl rfl
    unfold runInLoop at hs
    split at hs
    · simp only [exec, hnew, Option.bind_eq_bind, Option.bind_some] at hs
      exact Option.some.inj hs ▸ hset.tells (haccepted nextIndex l)
    · have hqueue : Mute (s.accepted nextIndex l)
          ((s.accepted nextIndex l).queue l (.add s.connId)) := mute_queue (by simp)
      exact Option.some.inj hs ▸ hqueue.tells (haccepted nextIndex l)
  simp only [step, getNextLoop] at hs
  split at hs
  · exact hadd _ _ hs
  · exact hadd s.nextIndex 0 hs

private theorem mute_advance {stage next : Stage} {map : Finset ConnId} {connId : ConnId}
    (hmain : s.frames 0 = [.establishing id stage]) (hc : s.conns id = some c)
    (hloop : c'.loop = c.loop) (hclosed : c'.closed = c.closed) (hlost : c'.lost = c.lost) :
    Mute s ({ s.set id c' with connId := connId, connectionMap := map }.setFrames 0
      [.establishing id next]) := by
  refine ⟨rfl, (mute_set hc hloop hclosed hlost).conns, fun other => ?_, fun _ hmem => hmem⟩
  simp [Establishing, setFrames, hmain]

theorem establish_tells {stage : Stage} (hv : s.Valid h) (ht : s.Tells h reads)
    (hmain : s.frames 0 = [.establishing id stage]) (hs : s.establish h id stage = some s') :
    s'.Tells h reads := by
  obtain ⟨-, -, c, hc⟩ : s.FrameFits 0 (.establishing id stage) :=
    hv.frames 0 _ (hmain ▸ List.mem_cons_self)
  cases stage with
  | made | handled | constructed | messageSet =>
      simp only [establish, hc, Option.bind_eq_bind, Option.bind_some] at hs
      obtain rfl := Option.some.inj hs
      refine Mute.tells ?_ ht
      exact mute_advance hmain hc rfl rfl rfl
  | closeSet =>
      obtain rfl := Option.some.inj hs
      refine Mute.tells (s := s) ⟨rfl, fun _ => rfl, fun other => ?_, fun _ hmem => hmem⟩ ht
      simp [Establishing, setFrames, hmain]
  | listed =>
      have hdone : ∀ t : Server, t.conns = s.conns → t.frames 0 = [] → t.tasks = s.tasks →
          (∀ other, other ≠ id → t.heard other = s.heard other) →
          t.heard id = s.heard id ++ (if c.loop = 0 ∧ h.connection = true then [.connected] else []) →
            t.Tells h reads := by
        intro t hconns hframes htasks hothers hheard
        have hnone : ∀ other, ¬ t.Establishing other := not_establishing (by simp [Free, hframes])
        constructor
        case told =>
          intro other d hd
          rw [hconns] at hd
          rw [iff_false_intro (hnone other)]
          obtain rfl | hne := eq_or_ne other id
          · obtain rfl := Option.some.inj (hc.symm.trans hd)
            rw [hheard]
            exact (ht.told other c hc).establish ⟨.listed, hmain ▸ List.mem_cons_self⟩
          · have hout : ¬ s.Establishing other := by
              rintro ⟨stage, hmem⟩
              simp [hmain, hne] at hmem
            rw [hothers other hne, ← iff_false_intro hout]
            exact ht.told other d hd
        case unheard =>
          intro other hother
          have hne : other ≠ id := by
            rintro rfl
            simp [hconns, hc] at hother
          rw [hothers other hne]
          exact ht.unheard other (hconns ▸ hother)
        case direct => exact htasks ▸ ht.direct
      simp only [establish, hc, Option.bind_eq_bind, Option.bind_some] at hs
      split at hs
      · next hgiven =>
          unfold runInLoop at hs
          split at hs
          · next hloop =>
              obtain hmainLoop : 0 = c.loop := Option.some.inj hloop
              obtain rfl := Option.some.inj hs
              refine (mute_push _ rfl).tells (hdone _ rfl ?_ rfl ?_ ?_)
              · simp [notify, setFrames]
              · exact fun other hne => heard_notify_other _ _ hne
              · rw [heard_notify, if_pos ⟨hmainLoop.symm, hgiven⟩]
                rfl
          · next hloop =>
              have hio : c.loop ≠ 0 := fun hmainLoop => hloop (congrArg some hmainLoop.symm)
              obtain rfl := Option.some.inj hs
              refine (mute_queue fun hl => absurd hl hio).tells (hdone _ rfl ?_ rfl (fun _ _ => rfl) ?_)
              · simp [setFrames]
              · rw [if_neg fun hboth => hio hboth.1, List.append_nil]
                rfl
      · next hgiven =>
          obtain rfl := Option.some.inj hs
          refine hdone _ rfl (by simp [setFrames]) rfl (fun _ _ => rfl) ?_
          rw [if_neg fun hboth => hgiven hboth.2, List.append_nil]
          rfl

theorem message_tells (hv : s.Valid h) (ht : s.Tells h reads) (hok : s.Allowed (.message id))
    (hs : s.step h (.message id) = some s') :
    s'.Tells h (Function.update reads id (reads id + 1)) := by
  obtain ⟨c, hc, hidle, -, -, hopen⟩ := hok
  have hfree : s.Free c.loop := by simp [Free, hidle]
  have hmain : c.loop = 0 → ¬ s.Establishing id ∧ c.messageHandler = h.message := by
    intro hmain
    have hlisted := stageOf_free (hmain ▸ hfree) id
    exact ⟨not_establishing (hmain ▸ hfree) id,
      (hv.fits id c hc).messageHandler (.inr (.inr hlisted))⟩
  have hread : ∀ notice, notice = .message ∨ notice = .discarded →
      (c.loop = 0 → notice = h.reads) →
        (s.notify id notice).Tells h (Function.update reads id (reads id + 1)) := by
    intro notice hnotice hreads
    have hsame : (s.notify id notice).conns = (s.set id c).conns := by
      rw [set_self hc]
      rfl
    refine ht.change hc hsame rfl rfl ?_ ?_
    · exact fun other hne => ⟨heard_notify_other _ _ hne, Function.update_of_ne hne _ _⟩
    · rw [heard_notify, Function.update_self]
      exact (ht.told id c hc).read (by simpa using hopen) hnotice
        fun hloop => ⟨(hmain hloop).1, hreads hloop⟩
  simp only [step, hc, Option.bind_eq_bind, Option.bind_some] at hs
  split at hs <;> obtain rfl := Option.some.inj hs
  · next hhandler =>
      refine (mute_push _ rfl).tells (hread .message (.inl rfl) fun hloop => ?_)
      simp [Handlers.reads, ← (hmain hloop).2, hhandler]
  · next hhandler =>
      refine hread .discarded (.inr rfl) fun hloop => ?_
      simp [Handlers.reads, ← (hmain hloop).2, hhandler]

private theorem run_tells {order : List ConnId} (hv : s.Valid h) (ht : s.Tells h reads)
    (hidle : s.frames l = []) (hs : s.step h (.run l order) = some s') : s'.Tells h reads := by
  cases htasks : s.tasks l with
  | nil =>
      simp only [step, htasks] at hs
      exact Option.some.inj hs ▸ ht
  | cons task tasks =>
      simp only [step, htasks] at hs
      have hfits : s.TaskFits l task := hv.tasks l task (htasks ▸ List.mem_cons_self)
      have hdequeue : Mute s { s with tasks := Function.update s.tasks l tasks } := by
        refine ⟨rfl, fun _ => rfl, fun _ => Iff.rfl, fun id hmem => ?_⟩
        obtain rfl | hl := eq_or_ne l 0
        · refine htasks ▸ List.mem_cons_of_mem _ ?_
          simpa using hmem
        · simpa [hl.symm] using hmem
      by_cases herase : ∃ id, task = .erase id
      · obtain ⟨id, rfl⟩ := herase
        refine Mute.tells (hdequeue.trans ?_) ht
        exact Option.some.inj hs ▸ ⟨rfl, fun _ => rfl, fun _ => Iff.rfl, fun _ hmem => hmem⟩
      · have hother : ∀ id, task ≠ .erase id := fun id heq => herase ⟨id, heq⟩
        refine exec_tells (hv.dequeue htasks hother) (hdequeue.tells ht) ?_ hfits ?_ hs
        · simp [Free, hidle]
        · rintro rfl id rfl
          exact ht.direct id (htasks ▸ List.mem_cons_self)

private theorem ret_tells (ht : s.Tells h reads) (hok : s.Allowed (.ret l))
    (hs : s.step h (.ret l) = some s') : s'.Tells h reads := by
  obtain ⟨frame, frames, hframes, huser⟩ := hok
  have hpopped := mute_pop hframes huser
  simp only [step, hframes] at hs
  refine Mute.tells ?_ ht
  cases frame with
  | establishing id stage => simp [Frame.inUser] at huser
  | user => exact Option.some.inj hs ▸ hpopped
  | removing id => exact Option.some.inj hs ▸ hpopped.trans (mute_runErase ..)
  | visiting walk cur rest =>
      simp only at hs
      split at hs
      · exact Option.some.inj hs ▸ hpopped.trans (mute_walk ..)
      · cases hs

private theorem step_tells {e : Event} (hv : s.Valid h) (ht : s.Tells h reads) (hok : s.Allowed e)
    (hs : s.step h e = some s') : s'.Tells h (fun id => reads id + [e].count (.message id)) := by
  -- the thread of a call is in code of the user
  have hfree : ∀ {thread : Option LoopId}, s.Calls thread → ∀ m, thread = some m → s.Free m := by
    rintro _ hcalls m rfl
    exact hv.free_of_calls hcalls
  have hnone : (∀ id, e ≠ .message id) → (fun id => reads id + [e].count (.message id)) = reads := by
    intro hother
    funext id
    rw [List.count_eq_zero.mpr (by simpa using (hother id).symm), Nat.add_zero]
  cases e with
  | message id =>
      have hone : (fun other => reads other + [Event.message id].count (.message other)) =
          Function.update reads id (reads id + 1) := by
        funext other
        obtain rfl | hne := eq_or_ne other id
        · simp
        · simp [hne, hne.symm]
      rw [hone]
      exact message_tells hv ht hok hs
  | accept =>
      rw [hnone (by simp)]
      exact accept_tells hv hok ht hs
  | establish =>
      obtain ⟨id, stage, frames, hframes⟩ := hok
      obtain ⟨-, hmain, -⟩ : s.FrameFits 0 (.establishing id stage) :=
        hv.frames 0 _ (hframes ▸ List.mem_cons_self)
      simp only [step, hframes] at hs
      rw [hnone (by simp)]
      exact establish_tells hv ht hmain hs
  | terminate id =>
      obtain ⟨c, hc, hidle, -⟩ := hok
      simp only [step, hc, Option.bind_eq_bind, Option.bind_some] at hs
      rw [hnone (by simp)]
      exact enterClosed_tells hv ht (by simp [Free, hidle]) hc hs
  | close thread id drained =>
      obtain ⟨hcalls, c, hc, hbuilt, -⟩ := hok
      simp only [step, hc, Option.bind_eq_bind, Option.bind_some] at hs
      have hhandled := (hv.fits id c hc).handled_of_constructed hbuilt
      rw [hnone (by simp)]
      exact runInLoop_tells hv ht hs (hfree hcalls) ⟨c, hc, rfl, hhandled⟩ (by simp)
  | forOne thread id =>
      rw [hnone (by simp)]
      exact runInLoop_tells hv ht hs (hfree hok) rfl (by simp)
  | forEach thread order =>
      rw [hnone (by simp)]
      exact runInLoop_tells hv ht hs (hfree hok.1) rfl (by simp)
  | run l order =>
      rw [hnone (by simp)]
      exact run_tells hv ht hok.1 hs
  | ret l =>
      rw [hnone (by simp)]
      exact ret_tells ht hok hs

private theorem events_tell {events : List Event} (hv : s.Valid h) (ht : s.Tells h reads)
    (hrun : AdmissibleM (step h) Allowed s events) :
    ∃ s', events.foldlM (step h) s = some s' ∧
      s'.Tells h (fun id => reads id + events.count (.message id)) := by
  induction events generalizing s reads with
  | nil => exact ⟨s, rfl, ht⟩
  | cons e events ih =>
      obtain ⟨hok, hrest⟩ := hrun
      obtain ⟨next, hnext, hvalid⟩ := step_valid s e hv hok
      obtain ⟨s', hs', hend⟩ := ih hvalid (step_tells hv ht hok hnext) (hrest next hnext)
      refine ⟨s', by simpa [hnext] using hs', ?_⟩
      have hcount : (fun id => reads id + (e :: events).count (.message id)) =
          fun id => reads id + [e].count (.message id) + events.count (.message id) := by
        funext id
        rw [← List.singleton_append, List.count_append, Nat.add_assoc]
      exact hcount ▸ hend

theorem run_told {events : List Event} {size : Nat}
    (hrun : AdmissibleM (step h) Allowed (init size) events) :
    ∃ s, events.foldlM (step h) (init size) = some s ∧
      s.Tells h (fun id => 0 + events.count (.message id)) :=
  events_tell (init_valid h size) ⟨nofun, fun _ _ => ⟨rfl, rfl⟩, nofun⟩ hrun

/-- A connection of the main loop is told in order: the connection handler, then one message for each
time that data came, and the close handler once it is closed. No data is dropped for want of a handler
that the user has given. -/
theorem main_loop_order {events : List Event} {size : Nat}
    (hrun : AdmissibleM (step h) Allowed (init size) events) :
    ∃ s, events.foldlM (step h) (init size) = some s ∧
      ∀ id c, s.conns id = some c → c.loop = 0 → (∀ stage, .establishing id stage ∉ s.frames 0) →
        s.heard id = (if h.connection then [.connected] else []) ++
          List.replicate (events.count (.message id)) h.reads ++
          if c.closed = true ∧ h.close = true then [.closed] else [] := by
  obtain ⟨s, hs, ht⟩ := run_told hrun
  refine ⟨s, hs, ?_⟩
  intro id c hc hmain hdone
  rw [(ht.told id c hc).inOrder hmain fun ⟨stage, hmem⟩ => hdone stage hmem, Nat.zero_add]

/-- In every loop the close handler is called once, behind the last data. -/
theorem closed_last {events : List Event} {size : Nat}
    (hrun : AdmissibleM (step h) Allowed (init size) events) :
    ∃ s, events.foldlM (step h) (init size) = some s ∧
      ∀ id c, s.conns id = some c → ∃ before,
        (∀ notice ∈ before, notice = .message ∨ notice = .discarded) ∧
        (s.heard id).filter (· ≠ .connected) =
          before ++ if c.closed = true ∧ c.lost = false ∧ h.close = true then [.closed] else [] := by
  obtain ⟨s, hs, ht⟩ := run_told hrun
  exact ⟨s, hs, fun id c hc => (ht.told id c hc).last⟩

/-- A connection of the main loop, from its establishment to the peer's end. -/
def readThenReset : List Event :=
  [.accept, .establish, .establish, .establish, .establish, .establish, .establish, .ret 0, .message 1,
    .ret 0, .message 1, .ret 0, .terminate 1, .ret 0]

private theorem readThenReset_admissible :
    AdmissibleM (step allHandlers) Allowed (init 0) readThenReset :=
  .cons rfl rfl (.cons ⟨_, _, _, rfl⟩ rfl (.cons ⟨_, _, _, rfl⟩ rfl (.cons ⟨_, _, _, rfl⟩ rfl
    (.cons ⟨_, _, _, rfl⟩ rfl (.cons ⟨_, _, _, rfl⟩ rfl (.cons ⟨_, _, _, rfl⟩ rfl
    (.cons ⟨_, _, rfl, rfl⟩ rfl (.cons ⟨_, rfl, rfl, rfl, rfl, rfl⟩ rfl (.cons ⟨_, _, rfl, rfl⟩ rfl
    (.cons ⟨_, rfl, rfl, rfl, rfl, rfl⟩ rfl (.cons ⟨_, _, rfl, rfl⟩ rfl
    (.cons ⟨_, rfl, rfl, rfl, rfl, rfl⟩ rfl (.cons ⟨_, _, rfl, rfl⟩ rfl trivial)))))))))))))

theorem main_loop_order_reset :
    ∃ s, readThenReset.foldlM (step allHandlers) (init 0) = some s ∧
      ∀ id c, s.conns id = some c → c.loop = 0 → (∀ stage, .establishing id stage ∉ s.frames 0) →
        s.heard id = (if allHandlers.connection then [.connected] else []) ++
          List.replicate (readThenReset.count (.message id)) allHandlers.reads ++
          if c.closed = true ∧ allHandlers.close = true then [.closed] else [] :=
  main_loop_order readThenReset_admissible

theorem closed_last_handler :
    ∃ s, closedByHandler.foldlM (step allHandlers) (init 1) = some s ∧
      ∀ id c, s.conns id = some c → ∃ before,
        (∀ notice ∈ before, notice = .message ∨ notice = .discarded) ∧
        (s.heard id).filter (· ≠ .connected) = before ++
          if c.closed = true ∧ c.lost = false ∧ allHandlers.close = true then [.closed] else [] :=
  closed_last closedByHandler_admissible

/-- An io loop reads while the main loop is in `establish`: data is dropped, and a message comes before
the connection handler. -/
example : ([.accept, .run 1 [], .establish, .message 1, .establish, .establish, .message 1, .ret 1,
    .establish, .establish, .establish, .run 1 [], .ret 1].foldlM (step allHandlers) (init 1)).map (·.heard 1) =
      some [.discarded, .message, .connected] := rfl

end Server

end Angel.Reactor
