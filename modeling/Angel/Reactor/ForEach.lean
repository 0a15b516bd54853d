import Angel.Reactor.Registry

/-!
One call of `for_each`, from where the main loop begins it to its return. Other calls of it run inside
or behind, and the io loops close connections meanwhile. A step is of no concern to it, or it is the
one that begins it, or it comes to the next element of the map.
-/

namespace Angel.Reactor.Server

open Lib

variable {h : Handlers} {s s' : Server} {l : LoopId} {id : ConnId} {c c' : Conn} {i : Nat}

/-- No `for_each` is begun, and none goes on. -/
structure Unwalked (s s' : Server) : Prop where
  walks : s'.walks = s.walks
  given : s'.given = s.given
  visiting : ∀ i cur rest, .visiting i cur rest ∈ s'.frames 0 ↔ .visiting i cur rest ∈ s.frames 0

theorem Unwalked.refl (s : Server) : Unwalked s s := ⟨rfl, rfl, fun _ _ _ => Iff.rfl⟩

theorem Unwalked.trans {s'' : Server} (hs : Unwalked s s') (hs' : Unwalked s' s'') :
    Unwalked s s'' where
  walks := hs'.walks.trans hs.walks
  given := hs'.given.trans hs.given
  visiting i cur rest := (hs'.visiting i cur rest).trans (hs.visiting i cur rest)

theorem Unwalked.walks_iff (hs : Unwalked s s') (i : Nat) : s'.Walks i ↔ s.Walks i :=
  exists_congr fun cur => exists_congr fun rest => hs.visiting i cur rest

theorem unwalked_notify (s : Server) (id : ConnId) (notice : Notice) :
    Unwalked s (s.notify id notice) :=
  ⟨rfl, rfl, fun _ _ _ => Iff.rfl⟩

theorem unwalked_push {frame : Frame} (hother : ∀ i cur rest, frame ≠ .visiting i cur rest) :
    Unwalked s (s.push l frame) := by
  refine ⟨rfl, rfl, fun i cur rest => ?_⟩
  obtain rfl | hl := eq_or_ne l 0
  · simp [push, setFrames, (hother i cur rest).symm]
  · simp [push, setFrames, hl.symm]

theorem unwalked_pop {frame : Frame} {frames : List Frame} (hframes : s.frames l = frame :: frames)
    (hother : ∀ i cur rest, frame ≠ .visiting i cur rest) : Unwalked s (s.setFrames l frames) := by
  refine ⟨rfl, rfl, fun i cur rest => ?_⟩
  obtain rfl | hl := eq_or_ne l 0
  · simp [setFrames, hframes, (hother i cur rest).symm]
  · simp [setFrames, hl.symm]

theorem unwalked_runErase (s : Server) (l : LoopId) (id : ConnId) : Unwalked s (s.runErase l id) := by
  unfold runErase
  split <;> exact ⟨rfl, rfl, fun _ _ _ => Iff.rfl⟩

theorem unwalked_enterClosed (hs : s.enterClosed h l id = some s') : Unwalked s s' := by
  unfold enterClosed at hs
  obtain ⟨c, -, hbody⟩ := Option.bind_eq_some_iff.mp hs
  split at hbody
  · exact Option.some.inj hbody ▸ .refl s
  · obtain rfl := Option.some.inj hbody
    have hset : Unwalked s (s.set id { c with closed := true, lost := !c.closeHandler }) :=
      ⟨rfl, rfl, fun _ _ _ => Iff.rfl⟩
    split
    · refine hset.trans ?_
      unfold removeConnection
      split
      · exact (unwalked_notify ..).trans (unwalked_push (by simp))
      · exact unwalked_runErase ..
    · exact hset

theorem unwalked_exec {order : List ConnId} {task : Task} (hother : task ≠ .forEach)
    (hs : s.exec h l order task = some s') : Unwalked s s' := by
  cases task with
  | add id =>
      obtain ⟨c, -, hbody⟩ := Option.bind_eq_some_iff.mp hs
      exact Option.some.inj hbody ▸ ⟨rfl, rfl, fun _ _ _ => Iff.rfl⟩
  | connected id =>
      exact Option.some.inj hs ▸ (unwalked_notify ..).trans (unwalked_push (by simp))
  | close id drained =>
      cases drained with
      | false => exact Option.some.inj hs ▸ .refl s
      | true => exact unwalked_enterClosed hs
  | erase id => exact Option.some.inj hs ▸ ⟨rfl, rfl, fun _ _ _ => Iff.rfl⟩
  | forOne id =>
      obtain rfl := Option.some.inj hs
      split
      · exact unwalked_push (by simp)
      · exact .refl s
  | forEach => exact absurd rfl hother

theorem unwalked_runInLoop {thread : Option LoopId} {order : List ConnId} {task : Task}
    (hother : thread = some l → task ≠ .forEach)
    (hs : s.runInLoop h thread l order task = some s') : Unwalked s s' := by
  unfold runInLoop at hs
  split at hs
  · next hthread => exact unwalked_exec (hother hthread) hs
  · exact Option.some.inj hs ▸ ⟨rfl, rfl, fun _ _ _ => Iff.rfl⟩

theorem unwalked_establish {stage : Stage} {frames : List Frame} (hv : s.Valid h)
    (hframes : s.frames 0 = .establishing id stage :: frames)
    (hs : s.establish h id stage = some s') : Unwalked s s' := by
  obtain ⟨-, hmain, -⟩ : s.FrameFits 0 (.establishing id stage) :=
    hv.frames 0 _ (hframes ▸ List.mem_cons_self)
  -- the frame of `establish` is the only one, and stays so
  have hadvance : ∀ t : Server, t.walks = s.walks → t.given = s.given →
      (∀ frame ∈ t.frames 0, ∃ stage, frame = .establishing id stage) → Unwalked s t := by
    intro t hwalks hgiven honly
    refine ⟨hwalks, hgiven, fun i cur rest => iff_of_false ?_ (by simp [hmain])⟩
    intro hmem
    obtain ⟨stage, heq⟩ := honly _ hmem
    cases heq
  cases stage with
  | made | handled | constructed | messageSet =>
      obtain ⟨c, -, hbody⟩ := Option.bind_eq_some_iff.mp hs
      obtain rfl := Option.some.inj hbody
      exact hadvance _ rfl rfl (by simp [setFrames])
  | closeSet =>
      obtain rfl := Option.some.inj hs
      exact hadvance _ rfl rfl (by simp [setFrames])
  | listed =>
      obtain ⟨c, -, hbody⟩ := Option.bind_eq_some_iff.mp hs
      have hdone : Unwalked s (s.setFrames 0 []) := hadvance _ rfl rfl (by simp [setFrames])
      split at hbody
      · exact hdone.trans (unwalked_runInLoop (by simp) hbody)
      · exact Option.some.inj hbody ▸ hdone

/-- What a step is to the calls of `for_each`. -/
inductive WalkStep (s : Server) (e : Event) (s' : Server) : Prop where
  | apart (hnone : ¬ s.BeginsForEach e) (hs : Unwalked s s')
  | begun (t : Server) (order : List ConnId) (hbegins : s.BeginsForEach e) (ht : Unwalked s t)
      (hmap : ∀ id ∈ t.connectionMap, id ∈ order) (hnodup : order.Nodup) (hs : s' = t.forEach order)
  | next (i : Nat) (cur : ConnId) (rest : List ConnId) (frames : List Frame)
      (hnone : ¬ s.BeginsForEach e) (hframes : s.frames 0 = .visiting i cur rest :: frames)
      (hs : s' = (s.setFrames 0 frames).walk i rest)

private theorem ret_walkStep (hv : s.Valid h) (hok : s.Allowed (.ret l))
    (hs : s.step h (.ret l) = some s') :
    WalkStep s (.ret l) s' := by
  obtain ⟨frame, frames, hframes, huser⟩ := hok
  simp only [step, hframes] at hs
  cases frame with
  | establishing id stage => cases huser
  | user => exact .apart not_false (Option.some.inj hs ▸ unwalked_pop hframes (by simp))
  | removing id =>
      exact .apart not_false
        (Option.some.inj hs ▸ (unwalked_pop hframes (by simp)).trans (unwalked_runErase ..))
  | visiting i cur rest =>
      obtain rfl : l = 0 := hv.frames l (.visiting i cur rest) (hframes ▸ List.mem_cons_self)
      simp only at hs
      split at hs
      · exact .next i cur rest frames not_false hframes (Option.some.inj hs).symm
      · cases hs

theorem step_walkStep {e : Event} (hv : s.Valid h) (hok : s.Allowed e)
    (hs : s.step h e = some s') : WalkStep s e s' := by
  have hlists : ∀ {order}, s.Lists order → ∀ id ∈ s.connectionMap, id ∈ order :=
    fun hlists id hid => List.mem_toFinset.mp (hlists.2 ▸ hid)
  cases e with
  | accept =>
      have hadd : ∀ nextIndex l, (s.accepted nextIndex l).runInLoop h (some 0) l [] (.add s.connId) =
          some s' → WalkStep s .accept s' := by
        intro nextIndex l hrun
        have hmade : Unwalked s ({ s with nextIndex := nextIndex }.set s.connId (.made l)) :=
          ⟨rfl, rfl, fun _ _ _ => Iff.rfl⟩
        have haccepted : Unwalked s (s.accepted nextIndex l) := hmade.trans (unwalked_push (by simp))
        exact .apart not_false (haccepted.trans (unwalked_runInLoop (by simp) hrun))
      simp only [step, getNextLoop] at hs
      split at hs
      · exact hadd _ _ hs
      · exact hadd s.nextIndex 0 hs
  | establish =>
      obtain ⟨id, stage, frames, hframes⟩ := hok
      simp only [step, hframes] at hs
      exact .apart not_false (unwalked_establish hv hframes hs)
  | message id =>
      obtain ⟨c, -, hbody⟩ := Option.bind_eq_some_iff.mp hs
      refine .apart not_false ?_
      split at hbody <;> obtain rfl := Option.some.inj hbody
      · exact (unwalked_notify ..).trans (unwalked_push (by simp))
      · exact unwalked_notify ..
  | terminate id =>
      obtain ⟨c, -, hbody⟩ := Option.bind_eq_some_iff.mp hs
      exact .apart not_false (unwalked_enterClosed hbody)
  | close thread id drained =>
      obtain ⟨c, -, hbody⟩ := Option.bind_eq_some_iff.mp hs
      exact .apart not_false (unwalked_runInLoop (by simp) hbody)
  | forOne thread id => exact .apart not_false (unwalked_runInLoop (by simp) hs)
  | forEach thread order =>
      by_cases hmain : thread = some 0
      · obtain rfl := hmain
        refine .begun s order rfl (.refl s) (hlists (hok.2 rfl)) (hok.2 rfl).1 ?_
        simpa [step, runInLoop, exec, eq_comm] using hs
      · exact .apart hmain (unwalked_runInLoop (fun hthread => absurd hthread hmain) hs)
  | run l order =>
      cases htasks : s.tasks l with
      | nil =>
          simp only [step, htasks] at hs
          refine .apart ?_ (Option.some.inj hs ▸ .refl s)
          rintro ⟨rfl, hhead⟩
          simp [htasks] at hhead
      | cons task tasks =>
          simp only [step, htasks] at hs
          have hpopped : Unwalked s { s with tasks := Function.update s.tasks l tasks } :=
            ⟨rfl, rfl, fun _ _ _ => Iff.rfl⟩
          by_cases hforEach : task = .forEach
          · obtain rfl := hforEach
            obtain rfl : l = 0 := hv.tasks l .forEach (htasks ▸ List.mem_cons_self)
            exact .begun _ order ⟨rfl, by simp [htasks]⟩ hpopped (hlists (hok.2 rfl)) (hok.2 rfl).1
              (Option.some.inj hs).symm
          · refine .apart ?_ (hpopped.trans (unwalked_exec hforEach hs))
            rintro ⟨rfl, hhead⟩
            exact hforEach (by simpa [htasks] using hhead)
  | ret l => exact ret_walkStep hv hok hs

/-- A call has given nothing twice, and when it has returned it has given all that the map has. -/
structure Went (s : Server) (i : Nat) : Prop where
  once : (s.given i).Nodup
  all : s.Walks i ∨ ∀ id ∈ s.connectionMap, id ∈ s.given i

theorem Valid.walked (hv : s.Valid h) (hwalks : s.Walks i) : i < s.walks ∧ (s.given i).Nodup := by
  obtain ⟨cur, rest, hmem⟩ := hwalks
  exact hv.stacked.visited hmem

theorem walk_walks (s : Server) (i : Nat) (rest : List ConnId) : (s.walk i rest).walks = s.walks := by
  rcases s.walk_cases i rest with ⟨hend, -⟩ | ⟨_, _, _, -, -, -, hnext⟩
  · rw [hend]
  · rw [hnext]
    rfl

theorem walk_other (s : Server) {j : Nat} (rest : List ConnId) (hne : j ≠ i) :
    (s.walk i rest).given j = s.given j ∧ ((s.walk i rest).Walks j ↔ s.Walks j) := by
  rcases s.walk_cases i rest with ⟨hend, -⟩ | ⟨_, cur, rest', -, -, -, hnext⟩
  · rw [hend]
    exact ⟨rfl, Iff.rfl⟩
  · rw [hnext]
    refine ⟨Function.update_of_ne hne _ _, ?_⟩
    simp [Walks, push, setFrames, give, hne]

theorem walk_all {rest : List ConnId} (hall : ∀ id ∈ s.connectionMap, id ∈ s.given i ++ rest) :
    (s.walk i rest).Walks i ∨
      (s.walk i rest).given i = s.given i ∧ ∀ id ∈ (s.walk i rest).connectionMap, id ∈ s.given i := by
  rcases s.walk_cases i rest with ⟨hend, hgone⟩ | ⟨_, cur, rest', -, -, -, hnext⟩
  · rw [hend]
    refine .inr ⟨rfl, fun id hid => ?_⟩
    exact (List.mem_append.mp (hall id hid)).resolve_right fun hrest => hgone id hrest hid
  · rw [hnext]
    exact .inl ⟨cur, rest', by simp [push, setFrames]⟩

theorem WalkStep.begins {e : Event} (hstep : WalkStep s e s') (hv' : s'.Valid h)
    (hbegins : s.BeginsForEach e) : s'.Went s.walks := by
  cases hstep with
  | apart hnone => exact absurd hbegins hnone
  | next _ _ _ _ hnone => exact absurd hbegins hnone
  | begun t order _ ht hmap _ hs =>
      have hself : t.beginWalk.given s.walks = [] := ht.walks ▸ Function.update_self ..
      have hbegun : s' = t.beginWalk.walk s.walks order := by rw [hs, forEach, ht.walks]
      have hall : ∀ id ∈ t.beginWalk.connectionMap, id ∈ t.beginWalk.given s.walks ++ order := by
        rw [hself]
        exact hmap
      rw [hbegun] at hv' ⊢
      rcases walk_all hall with hwalks | ⟨hgiven, hcovered⟩
      · exact ⟨(hv'.walked hwalks).2, .inl hwalks⟩
      · rw [← hgiven] at hcovered
        exact ⟨by simp [hgiven, hself], .inr hcovered⟩

theorem WalkStep.goes_on {e : Event} (hstep : WalkStep s e s') (hv : s.Valid h) (hv' : s'.Valid h)
    (hwalks : s.Walks i) : s'.Went i := by
  have hgoes : s'.Walks i → s'.Went i := fun hon => ⟨(hv'.walked hon).2, .inl hon⟩
  cases hstep with
  | apart _ hs => exact hgoes ((hs.walks_iff i).mpr hwalks)
  | begun t order _ ht _ _ hs =>
      have hne : i ≠ t.walks := ht.walks ▸ (hv.walked hwalks).1.ne
      have hbelow : t.beginWalk.Walks i := (ht.walks_iff i).mpr hwalks
      exact hgoes (hs ▸ (walk_other _ _ hne).2.mpr hbelow)
  | next j cur rest frames _ hframes hs =>
      subst hs
      obtain rfl | hne := eq_or_ne i j
      · have hstacked := hv.stacked
        rw [hframes] at hstacked
        obtain ⟨-, -, hnodup, hall, -⟩ := hstacked
        rcases walk_all (s := s.setFrames 0 frames) hall with hon | ⟨hgiven, hcovered⟩
        · exact hgoes hon
        · rw [← hgiven] at hcovered
          exact ⟨hgiven ▸ hnodup.of_append_left, .inr hcovered⟩
      · refine hgoes ((walk_other _ _ hne).2.mpr ?_)
        obtain ⟨cur', rest', hmem⟩ := hwalks
        rw [hframes] at hmem
        exact ⟨cur', rest', by simpa [setFrames, hne] using hmem⟩

theorem WalkStep.over {e : Event} (hstep : WalkStep s e s') (hlt : i < s.walks)
    (hover : ¬ s.Walks i) : i < s'.walks ∧ ¬ s'.Walks i ∧ s'.given i = s.given i := by
  cases hstep with
  | apart _ hs => exact ⟨hs.walks ▸ hlt, (hs.walks_iff i).not.mpr hover, hs.given ▸ rfl⟩
  | begun t order _ ht _ _ hs =>
      have hne : i ≠ t.walks := ht.walks ▸ hlt.ne
      obtain ⟨hgiven, hwalks⟩ := walk_other t.beginWalk order hne
      rw [hs, forEach, walk_walks, hwalks, hgiven]
      refine ⟨(ht.walks ▸ hlt).trans (Nat.lt_succ_self _), (ht.walks_iff i).not.mpr hover, ?_⟩
      exact (Function.update_of_ne hne _ _).trans (congrFun ht.given i)
  | next j cur rest frames _ hframes hs =>
      have hne : i ≠ j := by
        rintro rfl
        exact hover ⟨cur, rest, hframes ▸ List.mem_cons_self⟩
      obtain ⟨hgiven, hwalks⟩ := walk_other (s.setFrames 0 frames) rest hne
      rw [hs, walk_walks, hwalks, hgiven]
      refine ⟨hlt, ?_, rfl⟩
      rintro ⟨cur', rest', hmem⟩
      refine hover ⟨cur', rest', ?_⟩
      rw [hframes]
      exact List.mem_cons_of_mem _ (by simpa [setFrames] using hmem)

theorem WalkStep.counted {e : Event} (hstep : WalkStep s e s') :
    s.walks ≤ s'.walks ∧ (s.BeginsForEach e → s.walks < s'.walks) := by
  cases hstep with
  | apart hnone hs => exact ⟨hs.walks.ge, fun hbegins => absurd hbegins hnone⟩
  | begun t order _ ht _ _ hs =>
      have hcount : s'.walks = s.walks + 1 := by
        rw [hs, forEach, walk_walks, ← ht.walks]
        rfl
      exact ⟨hcount ▸ Nat.le_succ _, fun _ => hcount ▸ Nat.lt_succ_self _⟩
  | next j cur rest frames hnone _ hs =>
      refine ⟨?_, fun hbegins => absurd hbegins hnone⟩
      rw [hs, walk_walks]
      exact le_rfl

theorem run_over {events : List Event} (hv : s.Valid h) (hlt : i < s.walks) (hover : ¬ s.Walks i)
    (hrun : AdmissibleM (step h) Allowed s events) :
    ∃ s', events.foldlM (step h) s = some s' ∧ s'.given i = s.given i := by
  induction events generalizing s with
  | nil => exact ⟨s, rfl, rfl⟩
  | cons e events ih =>
      obtain ⟨hok, hrest⟩ := hrun
      obtain ⟨next, hnext, hvalid⟩ := step_valid s e hv hok
      obtain ⟨hlater, hstays, hsame⟩ := (step_walkStep hv hok hnext).over hlt hover
      obtain ⟨s', hs', hgiven⟩ := ih hvalid hlater hstays (hrest next hnext)
      exact ⟨s', by simpa [hnext] using hs', hgiven.trans hsame⟩

/-- The call with the number `i` returns at the end of `inside`, having given what it has. -/
structure Returns (h : Handlers) (s : Server) (i : Nat) (inside : List Event) (given : List ConnId) :
    Prop where
  running : ∀ before last s', inside = before ++ [last] → before.foldlM (step h) s = some s' →
    s'.Walks i
  returned : ∃ s', inside.foldlM (step h) s = some s' ∧ ¬ s'.Walks i ∧ s'.given i = given ∧
    ∀ id ∈ s'.connectionMap, id ∈ given

theorem Returns.cons {e : Event} {inside : List Event} {given : List ConnId} (hwalks : s.Walks i)
    (hnext : s.step h e = some s') (hreturns : Returns h s' i inside given) :
    Returns h s i (e :: inside) given where
  running before last t heq ht := by
    cases before with
    | nil =>
        obtain rfl : s = t := Option.some.inj ht
        exact hwalks
    | cons e' before =>
        obtain ⟨rfl, hinside⟩ := List.cons.inj heq
        exact hreturns.running before last t hinside (by simpa [hnext] using ht)
  returned := by
    obtain ⟨t, ht, hend⟩ := hreturns.returned
    exact ⟨t, by simpa [hnext] using ht, hend⟩

private theorem run_went {events : List Event} (hv : s.Valid h) (hlt : i < s.walks)
    (hwent : s.Went i)
    (hrun : AdmissibleM (step h) Allowed s events) :
    ∃ s', events.foldlM (step h) s = some s' ∧ (s'.given i).Nodup ∧
      (s'.Walks i ∨ ∃ inside behind, events = inside ++ behind ∧ Returns h s i inside (s'.given i)) := by
  induction events generalizing s with
  | nil =>
      refine ⟨s, rfl, hwent.once, ?_⟩
      by_cases hwalks : s.Walks i
      · exact .inl hwalks
      · refine .inr ⟨[], [], rfl, ⟨by simp, s, rfl, hwalks, rfl, hwent.all.resolve_left hwalks⟩⟩
  | cons e events ih =>
      by_cases hwalks : s.Walks i
      · obtain ⟨hok, hrest⟩ := hrun
        obtain ⟨next, hnext, hvalid⟩ := step_valid s e hv hok
        have hstep := step_walkStep hv hok hnext
        obtain ⟨s', hs', honce, hend⟩ := ih hvalid (hlt.trans_le hstep.counted.1)
          (hstep.goes_on hv hvalid hwalks) (hrest next hnext)
        refine ⟨s', by simpa [hnext] using hs', honce, hend.imp_right ?_⟩
        rintro ⟨inside, behind, rfl, hreturns⟩
        exact ⟨e :: inside, behind, rfl, hreturns.cons hwalks hnext⟩
      · obtain ⟨s', hs', hgiven⟩ := run_over hv hlt hwalks hrun
        refine ⟨s', hs', hgiven ▸ hwent.once, .inr ⟨[], e :: events, rfl, ?_⟩⟩
        exact ⟨by simp, s, rfl, hwalks, hgiven.symm, hgiven ▸ hwent.all.resolve_left hwalks⟩

/-- A call of `for_each` whose functor does not close, on the main loop, what it is given, goes through
no iterator that has become invalid. It gives the functor no connection twice, and when it returns it
has given it every one that the map has. -/
theorem for_each_complete {before after : List Event} {e : Event} {groupSize : Nat}
    (hrun : AdmissibleM (step h) Allowed (init groupSize) (before ++ e :: after))
    (hs : before.foldlM (step h) (init groupSize) = some s) (hbegins : s.BeginsForEach e) :
    ∃ s₁ s', s.step h e = some s₁ ∧ after.foldlM (step h) s₁ = some s' ∧ (s'.given s.walks).Nodup ∧
      (s'.Walks s.walks ∨ ∃ inside behind, after = inside ++ behind ∧
        Returns h s₁ s.walks inside (s'.given s.walks)) := by
  obtain ⟨hbefore, hcall⟩ := admissibleM_append.mp hrun
  obtain ⟨reached, hreached, hv⟩ := run_reaches hbefore
  obtain rfl := Option.some.inj (hreached.symm.trans hs)
  obtain ⟨hok, hafter⟩ := hcall reached hs
  obtain ⟨s₁, hs₁, hv₁⟩ := step_valid reached e hv hok
  have hstep := step_walkStep hv hok hs₁
  obtain ⟨s', hs', honce, hend⟩ := run_went hv₁ (hstep.counted.2 hbegins) (hstep.begins hv₁ hbegins)
    (hafter s₁ hs₁)
  exact ⟨s₁, s', hs₁, hs', honce, hend⟩

/-- Two connections of an io loop, and a `for_each` of another thread. -/
def beforeWalk : List Event :=
  [.accept, .establish, .establish, .establish, .establish, .establish, .establish,
    .accept, .establish, .establish, .establish, .establish, .establish, .establish,
    .run 1 [], .run 1 [], .ret 1, .forEach none []]

/-- The io loop closes the connection that is to come. -/
def insideWalk : List Event := [.terminate 1, .ret 1, .ret 0, .ret 0, .run 0 [2, 1]]

private theorem walk_admissible :
    AdmissibleM (step allHandlers) Allowed (init 1) (beforeWalk ++ .run 0 [2, 1] :: insideWalk) :=
  .cons rfl rfl (.cons ⟨_, _, _, rfl⟩ rfl (.cons ⟨_, _, _, rfl⟩ rfl (.cons ⟨_, _, _, rfl⟩ rfl
    (.cons ⟨_, _, _, rfl⟩ rfl (.cons ⟨_, _, _, rfl⟩ rfl (.cons ⟨_, _, _, rfl⟩ rfl
    (.cons rfl rfl (.cons ⟨_, _, _, rfl⟩ rfl (.cons ⟨_, _, _, rfl⟩ rfl (.cons ⟨_, _, _, rfl⟩ rfl
    (.cons ⟨_, _, _, rfl⟩ rfl (.cons ⟨_, _, _, rfl⟩ rfl (.cons ⟨_, _, _, rfl⟩ rfl
    (.cons ⟨rfl, nofun⟩ rfl (.cons ⟨rfl, nofun⟩ rfl (.cons ⟨_, _, rfl, rfl⟩ rfl
    (.cons ⟨trivial, nofun⟩ rfl (.cons ⟨rfl, fun _ => ⟨by decide, rfl⟩⟩ rfl
    (.cons ⟨_, rfl, rfl, rfl, rfl, rfl⟩ rfl (.cons ⟨_, _, rfl, rfl⟩ rfl (.cons ⟨_, _, rfl, rfl⟩ rfl
    (.cons ⟨_, _, rfl, rfl⟩ rfl (.cons ⟨rfl, fun _ => ⟨by decide, rfl⟩⟩ rfl
    trivial)))))))))))))))))))))))

def walkStart : Server := (beforeWalk.foldlM (step allHandlers) (init 1)).getD (init 1)

theorem for_each_complete_closed :
    ∃ s₁ s', walkStart.step allHandlers (.run 0 [2, 1]) = some s₁ ∧
      insideWalk.foldlM (step allHandlers) s₁ = some s' ∧ (s'.given walkStart.walks).Nodup ∧
      (s'.Walks walkStart.walks ∨ ∃ inside behind, insideWalk = inside ++ behind ∧
        Returns allHandlers s₁ walkStart.walks inside (s'.given walkStart.walks)) :=
  for_each_complete walk_admissible (s := walkStart) rfl ⟨rfl, rfl⟩

/-- The functor has been given both. -/
example : ((beforeWalk ++ .run 0 [2, 1] :: insideWalk).foldlM (step allHandlers) (init 1)).map
    (fun s => (s.given 0, s.connectionMap)) = some ([2, 1], {2}) := rfl

end Angel.Reactor.Server
