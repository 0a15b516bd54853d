import Angel.Evloop.Lifetime

/-!
One pass over the active channels. `kqueue` reports the events of a descriptor one by one, so that
a channel becomes active several times; its events are gathered in `trigger`, which the first
`handle_event` takes as a whole. Whatever the handlers do meanwhile, none of them is called twice
for one `wait`, nor for an event that was not reported.
-/

namespace Angel.Channels

open Lib Dispatcher

/-- The test for this handler of the channel is behind the loop thread. -/
def Place.Tested (p : Place) (chl : Addr) (t : EventType) : Prop :=
  match p with
  | .triggered current left _ => current = chl ∧ t ∉ left
  | .inHandler current left _ => current = chl ∧ t ∉ left
  | _ => False

/-- The tests of `handle_event` that are still to come. -/
def Place.left : Place → List EventType
  | .triggered _ left _ => left
  | .inHandler _ left _ => left
  | _ => []

def LoopEvent.IsWait : LoopEvent → Prop
  | .wait _ => True
  | _ => False

namespace Loop

variable {s s' s₁ : Loop} {chl : Addr} {c : Channel} {ready : List (Int × Finset EventType)}
  {called : List (Channel × EventType)}

/-- The event has been reported for the descriptor. -/
def Reported (ready : List (Int × Finset EventType)) (fd : Int) (t : EventType) : Prop :=
  ∃ q ∈ ready, q.1 = fd ∧ t ∈ q.2

/-- How far a pass has come: `called` are the handlers that it has called. -/
structure Progress (ready : List (Int × Finset EventType)) (called : List (Channel × EventType))
    (s : Loop) : Prop where
  once : (called.map fun p => (p.1.evfd, p.2)).Nodup
  reported : ∀ p ∈ called, Reported ready p.1.evfd p.2
  triggers : ∀ chl c t, s.channels chl = some c → t ∈ c.trigger → Reported ready c.evfd t
  tested : ∀ chl c t, s.channels chl = some c → (c.evfd, t) ∈ called.map (fun p => (p.1.evfd, p.2)) →
    c.trigger = ∅ ∨ s.place.Tested chl t
  left : s.place.left.Nodup

/-- The channels keep their descriptors and triggers, but for new ones. -/
def Keeps (s s' : Loop) : Prop :=
  ∀ chl d, s'.channels chl = some d →
    d.trigger = ∅ ∨ ∃ c, s.channels chl = some c ∧ c.evfd = d.evfd ∧ c.trigger = d.trigger

theorem keeps_of_channels (h : s'.channels = s.channels) : Keeps s s' :=
  fun _ d hd => .inr ⟨d, h ▸ hd, rfl, rfl⟩

theorem Keeps.trans {s'' : Loop} (h : Keeps s s') (h' : Keeps s' s'') : Keeps s s'' := by
  intro chl e he
  rcases h' chl e he with hnone | ⟨d, hd, hfd, htrigger⟩
  · exact .inl hnone
  · rcases h chl d hd with hnone | ⟨c, hc, hcfd, hctrigger⟩
    · exact .inl (htrigger ▸ hnone)
    · exact .inr ⟨c, hc, hcfd.trans hfd, hctrigger.trans htrigger⟩

theorem keeps_set {c' : Channel} (hc : s.channels chl = some c) (hfd : c'.evfd = c.evfd)
    (htrigger : c'.trigger = c.trigger) : Keeps s (s.set chl c') := by
  intro other d hd
  obtain rfl | hne := eq_or_ne other chl
  · obtain rfl := Option.some.inj ((channels_set ..).symm.trans hd)
    exact .inr ⟨c, hc, hfd.symm, htrigger.symm⟩
  · exact .inr ⟨d, (Function.update_of_ne hne _ _).symm.trans hd, rfl, rfl⟩

theorem Progress.keep (h : Progress ready called s) (hkeeps : Keeps s s')
    (htested : ∀ chl t, s.place.Tested chl t → s'.place.Tested chl t)
    (hleft : s'.place.left.Nodup) :
    Progress ready called s' where
  once := h.once
  reported := h.reported
  triggers chl d t hd ht := by
    rcases hkeeps chl d hd with hnone | ⟨c, hc, hfd, htrigger⟩
    · simp [hnone] at ht
    · exact hfd ▸ h.triggers chl c t hc (htrigger ▸ ht)
  tested chl d t hd hcalled := by
    rcases hkeeps chl d hd with hnone | ⟨c, hc, hfd, htrigger⟩
    · exact .inl hnone
    · rcases h.tested chl c t hc (hfd ▸ hcalled) with hdone | hplace
      · exact .inl (htrigger ▸ hdone)
      · exact .inr (htested chl t hplace)
  left := hleft

/-- What a call on a channel leaves as it is. -/
structure Quiet (s s' : Loop) : Prop where
  keeps : Keeps s s'
  place : s'.place = s.place
  invoked : s'.invoked = s.invoked

theorem Quiet.trans {s'' : Loop} (h : Quiet s s') (h' : Quiet s' s'') : Quiet s s'' :=
  ⟨h.keeps.trans h'.keeps, h'.place.trans h.place, h'.invoked.trans h.invoked⟩

theorem enable_quiet {e : Event} (h : s.enable chl e = some s') : Quiet s s' := by
  unfold enable at h
  cases hc : s.channels chl with
  | none => simp [hc] at h
  | some c =>
      simp only [hc, Option.bind_eq_bind, Option.bind_some] at h
      split at h <;> obtain rfl := Option.some.inj h
      · exact ⟨keeps_of_channels rfl, rfl, rfl⟩
      · exact ⟨keeps_set hc rfl rfl, rfl, rfl⟩

theorem disable_quiet {e : Event} (h : s.disable chl e = some s') : Quiet s s' := by
  unfold disable at h
  cases hc : s.channels chl with
  | none => simp [hc] at h
  | some c =>
      simp only [hc, Option.bind_eq_bind, Option.bind_some] at h
      split at h <;> obtain rfl := Option.some.inj h
      · exact ⟨keeps_set hc rfl rfl, rfl, rfl⟩
      · exact ⟨keeps_of_channels rfl, rfl, rfl⟩

private theorem disabled_quiet (hc : s.channels chl = some c) : Quiet s (s.disabled chl c) := by
  unfold disabled
  split
  · exact ⟨keeps_set hc rfl rfl, rfl, rfl⟩
  · exact ⟨keeps_set hc rfl rfl, rfl, rfl⟩

theorem disableAll_quiet (h : s.disableAll chl = some s') : Quiet s s' := by
  cases hc : s.channels chl with
  | none => simp [disableAll, hc] at h
  | some c =>
      obtain rfl := Option.some.inj ((disableAll_eq hc).symm.trans h)
      exact disabled_quiet hc

theorem add_quiet (h : s.add chl = some s') : Quiet s s' := by
  unfold add at h
  cases hc : s.channels chl with
  | none => simp [hc] at h
  | some c =>
      simp only [hc, Option.bind_eq_bind, Option.bind_some] at h
      split at h
      · cases h
      · refine Quiet.trans ?_ (enable_quiet h)
        have hset : Keeps s (s.set chl { c with stage := c.stage.afterAdd }) := keeps_set hc rfl rfl
        exact ⟨hset, rfl, rfl⟩

theorem remove_quiet (h : s.remove chl = some s') : Quiet s s' := by
  obtain ⟨next, hnext, hqueue⟩ := Option.bind_eq_some_iff.mp h
  obtain rfl := Option.some.inj hqueue
  exact (disableAll_quiet hnext).trans ⟨keeps_of_channels rfl, rfl, rfl⟩

private theorem erase_quiet (h : s.erase chl = some s') : Quiet s s' := by
  unfold erase at h
  cases hc : s.channels chl with
  | none => simp [hc] at h
  | some c =>
      simp only [hc, Option.bind_eq_bind, Option.bind_some] at h
      split at h
      · obtain rfl := Option.some.inj h
        exact ⟨keeps_of_channels rfl, rfl, rfl⟩
      · next owned _ =>
          obtain rfl := Option.some.inj h
          refine ⟨?_, rfl, rfl⟩
          intro other d hd
          obtain rfl | hne := eq_or_ne other owned
          · exact absurd ((Function.update_self ..).symm.trans hd) nofun
          · exact .inr ⟨d, (Function.update_of_ne hne _ _).symm.trans hd, rfl, rfl⟩

theorem runTask_quiet {left : List Task} {task : Task} (h : s.runTask left task = some s') :
    Keeps s s' ∧ s'.invoked = s.invoked ∧ s'.place.left = [] := by
  -- the functor starts where the place has been moved on
  have hgo : ∀ {next : Loop}, Quiet { s with place := .running left } next →
      Keeps s next ∧ next.invoked = s.invoked ∧ next.place.left = [] := by
    intro next hquiet
    refine ⟨(keeps_of_channels rfl).trans hquiet.keeps, hquiet.invoked, ?_⟩
    simp [hquiet.place, Place.left]
  cases task with
  | add chl => exact hgo (add_quiet h)
  | disableAll chl => exact hgo (disableAll_quiet h)
  | erase chl => exact hgo (erase_quiet h)
  | user =>
      obtain rfl := Option.some.inj h
      exact ⟨keeps_of_channels rfl, rfl, rfl⟩

theorem Progress.quiet (h : Progress ready called s) (hquiet : Quiet s s') :
    Progress ready called s' := by
  refine h.keep hquiet.keeps (fun chl t ht => ?_) ?_
  · exact hquiet.place ▸ ht
  · exact hquiet.place ▸ h.left

theorem Progress.test {left : List EventType} {rest : List Addr} (h : Progress ready called s)
    (hvalid : s.Valid) (hplace : s.place = .triggered chl left rest)
    (hs' : s.step .test = some s') :
    ∃ more, s'.invoked = s.invoked ++ more ∧ Progress ready (called ++ more) s' := by
  cases hc : s.channels chl with
  | none => cases left <;> simp [step, hplace, hc] at hs'
  | some c =>
      cases left with
      | nil =>
          simp only [step, hplace, hc, Option.bind_eq_bind, Option.bind_some] at hs'
          obtain rfl := Option.some.inj hs'
          refine ⟨[], (List.append_nil _).symm, ?_⟩
          rw [List.append_nil]
          -- the channel has no trigger any more, and the others have no test behind them
          have hcases : ∀ other d, (s.set chl { c with trigger := ∅ }).channels other = some d →
              d.trigger = ∅ ∨ (other ≠ chl ∧ s.channels other = some d) := by
            intro other d hd
            obtain rfl | hne := eq_or_ne other chl
            · obtain rfl := Option.some.inj ((channels_set ..).symm.trans hd)
              exact .inl rfl
            · exact .inr ⟨hne, (Function.update_of_ne hne _ _).symm.trans hd⟩
          constructor
          case once => exact h.once
          case reported => exact h.reported
          case triggers =>
            intro other d t hd ht
            rcases hcases other d hd with hnone | ⟨-, hold⟩
            · simp [hnone] at ht
            · exact h.triggers other d t hold ht
          case tested =>
            intro other d t hd hcalled
            rcases hcases other d hd with hnone | ⟨hne, hold⟩
            · exact .inl hnone
            · refine .inl ((h.tested other d t hold hcalled).resolve_right ?_)
              simp [hplace, Place.Tested, hne.symm]
          case left => simp [Place.left]
      | cons t left =>
          have hnodup : (t :: left).Nodup := by simpa [hplace, Place.left] using h.left
          simp only [step, hplace, hc, Option.bind_eq_bind, Option.bind_some] at hs'
          split at hs'
          · next hcall =>
              obtain rfl := Option.some.inj hs'
              refine ⟨[(c, t)], rfl, ?_⟩
              have hnew : (c.evfd, t) ∉ called.map fun p => (p.1.evfd, p.2) := by
                intro hold
                rcases h.tested chl c t hc hold with hnone | htested
                · simp [hnone] at hcall
                · simp [hplace, Place.Tested] at htested
              constructor
              case once =>
                rw [List.map_append]
                exact h.once.append (List.nodup_singleton _) (by simpa using hnew)
              case reported =>
                intro p hp
                rcases List.mem_append.mp hp with hold | hlast
                · exact h.reported p hold
                · obtain rfl := List.mem_singleton.mp hlast
                  exact h.triggers chl c t hc hcall.1
              case triggers => exact h.triggers
              case tested =>
                intro other d u hd hmem
                rw [List.map_append] at hmem
                rcases List.mem_append.mp hmem with hold | hlast
                · refine (h.tested other d u hd hold).imp_right ?_
                  intro htested
                  simp only [hplace, Place.Tested, List.mem_cons, not_or] at htested ⊢
                  exact ⟨htested.1, htested.2.2⟩
                · simp only [List.map_cons, List.map_nil, List.mem_singleton, Prod.mk.injEq] at hlast
                  obtain ⟨hfd, rfl⟩ := hlast
                  exact .inr ⟨hvalid.distinct _ _ _ _ hc hd hfd.symm, (List.nodup_cons.mp hnodup).1⟩
              case left => exact (List.nodup_cons.mp hnodup).2
          · obtain rfl := Option.some.inj hs'
            refine ⟨[], (List.append_nil _).symm, ?_⟩
            rw [List.append_nil]
            refine h.keep (keeps_of_channels rfl) ?_ (List.nodup_cons.mp hnodup).2
            intro other u htested
            simp only [hplace, Place.Tested, List.mem_cons, not_or] at htested ⊢
            exact ⟨htested.1, htested.2.2⟩

theorem step_progress {e : LoopEvent} (h : Progress ready called s) (hvalid : s.Valid)
    (hok : s.Allowed e) (hwait : ¬ e.IsWait) (hs' : s.step e = some s') :
    ∃ more, s'.invoked = s.invoked ++ more ∧ Progress ready (called ++ more) s' := by
  have hquiet : Quiet s s' →
      ∃ more, s'.invoked = s.invoked ++ more ∧ Progress ready (called ++ more) s' :=
    fun hq => ⟨[], by simp [hq.invoked], by simpa using h.quiet hq⟩
  -- the thread goes on from a place where no channel is being tested
  have hmove : s'.invoked = s.invoked → Keeps s s' →
      (∀ chl t, s.place.Tested chl t → s'.place.Tested chl t) → s'.place.left.Nodup →
        ∃ more, s'.invoked = s.invoked ++ more ∧ Progress ready (called ++ more) s' :=
    fun hinvoked hkeeps htested hleft =>
      ⟨[], by simp [hinvoked], by simpa using h.keep hkeeps htested hleft⟩
  cases e with
  | create chl fd =>
      obtain rfl := Option.some.inj hs'
      refine hquiet ⟨?_, rfl, rfl⟩
      intro other d hd
      obtain rfl | hne := eq_or_ne other chl
      · obtain rfl := Option.some.inj ((channels_set ..).symm.trans hd)
        exact .inl rfl
      · exact .inr ⟨d, (Function.update_of_ne hne _ _).symm.trans hd, rfl, rfl⟩
  | setHandler chl t =>
      obtain ⟨c, hc, -⟩ := hok
      simp only [step, hc, Option.bind_eq_bind, Option.bind_some] at hs'
      obtain rfl := Option.some.inj hs'
      exact hquiet ⟨keeps_set hc rfl rfl, rfl, rfl⟩
  | add chl => exact hquiet (add_quiet hs')
  | remove chl => exact hquiet (remove_quiet hs')
  | enable chl e => exact hquiet (enable_quiet hs')
  | disable chl e => exact hquiet (disable_quiet hs')
  | queueAdd chl | queueDisableAll chl | queueErase chl =>
      obtain ⟨c, hc, -⟩ := hok
      simp only [step, hc, Option.bind_eq_bind, Option.bind_some] at hs'
      obtain rfl := Option.some.inj hs'
      exact hquiet ⟨keeps_set (s := s) hc rfl rfl, rfl, rfl⟩
  | queueUser =>
      obtain rfl := Option.some.inj hs'
      exact hquiet ⟨keeps_of_channels rfl, rfl, rfl⟩
  | wait ready => exact absurd trivial hwait
  | next =>
      obtain ⟨rest, hplace⟩ := hok
      cases rest with
      | nil =>
          simp only [step, hplace] at hs'
          obtain rfl := Option.some.inj hs'
          exact hmove rfl (keeps_of_channels rfl) (by simp [hplace, Place.Tested]) (by simp [Place.left])
      | cons chl rest =>
          obtain ⟨c, hc⟩ := hvalid.held chl (by simp [hplace, Place.pass])
          simp only [step, hplace, hc, Option.bind_eq_bind, Option.bind_some] at hs'
          obtain rfl := Option.some.inj hs'
          refine hmove rfl (keeps_of_channels rfl) (by simp [hplace, Place.Tested]) ?_
          split <;> simp [Place.left]
  | test =>
      obtain ⟨chl, left, rest, hplace⟩ := hok
      exact h.test hvalid hplace hs'
  | ret =>
      cases hplace : s.place with
      | inHandler chl left rest =>
          simp only [step, hplace] at hs'
          obtain rfl := Option.some.inj hs'
          refine hmove rfl (keeps_of_channels rfl) (by simp [hplace, Place.Tested]) ?_
          simpa [hplace, Place.left] using h.left
      | inTimers | inFunctor tasks =>
          simp only [step, hplace] at hs'
          obtain rfl := Option.some.inj hs'
          exact hmove rfl (keeps_of_channels rfl) (by simp [hplace, Place.Tested]) (by simp [Place.left])
      | waiting | handling rest | triggered chl left rest | running tasks =>
          exact absurd hok.1 (by simp [hplace, Place.user])
  | run =>
      obtain ⟨tasks, hplace⟩ := hok
      cases tasks with
      | nil =>
          simp only [step, hplace] at hs'
          obtain rfl := Option.some.inj hs'
          exact hmove rfl (keeps_of_channels rfl) (by simp [hplace, Place.Tested]) (by simp [Place.left])
      | cons task left =>
          simp only [step, hplace] at hs'
          obtain ⟨hkeeps, hinvoked, hleft⟩ := runTask_quiet hs'
          exact hmove hinvoked hkeeps (by simp [hplace, Place.Tested]) (by simp [hleft])

theorem reported_cons {fd other : Int} {events : Finset EventType} {t : EventType} :
    Reported ((fd, events) :: ready) other t ↔ (fd = other ∧ t ∈ events) ∨ Reported ready other t := by
  simp [Reported]

private theorem reports_spec {active active' : List Addr}
    (h : ({ s with place := .handling active } : Loop).Valid)
    (hready : ∀ p ∈ ready, (s.interest p.1).Nonempty)
    (hs' : s.reports active ready = some (s', active')) :
    s'.invoked = s.invoked ∧ ∀ chl d, s'.channels chl = some d →
      ∃ c, s.channels chl = some c ∧ c.evfd = d.evfd ∧
        ∀ t, t ∈ d.trigger ↔ t ∈ c.trigger ∨ Reported ready d.evfd t := by
  induction ready generalizing s active with
  | nil =>
      simp only [reports, Option.some.injEq, Prod.mk.injEq] at hs'
      obtain ⟨rfl, rfl⟩ := hs'
      exact ⟨rfl, fun chl d hd => ⟨d, hd, rfl, by simp [Reported]⟩⟩
  | cons p ready ih =>
      obtain ⟨fd, events⟩ := p
      obtain ⟨hfirst, hrest⟩ := List.forall_mem_cons.mp hready
      obtain ⟨chl, c, hc, rfl, hreport, hvalid⟩ := report_valid h hfirst events
      simp only [reports, hreport, Option.bind_eq_bind, Option.bind_some] at hs'
      obtain ⟨hinvoked, hchannels⟩ := ih hvalid hrest hs'
      refine ⟨hinvoked, ?_⟩
      intro other d hd
      obtain ⟨e, he, hefd, htrigger⟩ := hchannels other d hd
      obtain rfl | hne := eq_or_ne other chl
      · obtain rfl := Option.some.inj ((channels_set ..).symm.trans he)
        have hcfd : c.evfd = d.evfd := hefd
        refine ⟨c, hc, hcfd, ?_⟩
        intro t
        simp only [htrigger, reported_cons, Finset.mem_union, hcfd, true_and, or_assoc]
      · have hold : s.channels other = some e := (Function.update_of_ne hne _ _).symm.trans he
        refine ⟨e, hold, hefd, ?_⟩
        intro t
        have hfd : c.evfd ≠ d.evfd := fun heq =>
          hne (h.distinct _ _ _ _ hold hc (hefd.trans heq.symm))
        simp [htrigger, reported_cons, hfd]

theorem wait_spec (h : s.Valid) (hok : s.Allowed (.wait ready)) :
    ∃ s', s.step (.wait ready) = some s' ∧ s'.Valid ∧ s'.invoked = s.invoked ∧
      s'.place.left = [] ∧ ∀ chl d, s'.channels chl = some d →
        ∃ c, s.channels chl = some c ∧ c.evfd = d.evfd ∧
          ∀ t, t ∈ d.trigger ↔ Reported ready d.evfd t := by
  obtain ⟨hplace, hready⟩ := hok
  obtain ⟨s', hs', hvalid⟩ := wait_valid h hplace hready
  have hstart := h.handling hplace
  obtain ⟨next, active, hreports, -⟩ := reports_valid hstart hready
  obtain ⟨hinvoked, hchannels⟩ := reports_spec hstart hready hreports
  have hstep := hs'
  simp only [step, hreports, Option.bind_eq_bind, Option.bind_some] at hstep
  obtain rfl := Option.some.inj hstep
  refine ⟨_, hs', hvalid, hinvoked, ?_, ?_⟩
  · dsimp only
    split <;> rfl
  · intro chl d hd
    obtain ⟨c, hc, hfd, htrigger⟩ := hchannels chl d hd
    refine ⟨c, hc, hfd, fun t => ?_⟩
    simp [htrigger, h.triggers_at_wait hplace hc]

/-- Between two calls of `wait` each handler of a channel is called at most once, and only for an
event that was reported, however often `wait` reported the channel and whatever the handlers do. -/
theorem handler_once {before after : List LoopEvent}
    (hbefore : AdmissibleM step Allowed init before)
    (hs : before.foldlM step init = some s) (hok : s.Allowed (.wait ready))
    (hs₁ : s.step (.wait ready) = some s₁)
    (hafter : AdmissibleM step (fun s e => s.Allowed e ∧ ¬ e.IsWait) s₁ after) :
    ∃ s₂ called, after.foldlM step s₁ = some s₂ ∧ s₂.invoked = s₁.invoked ++ called ∧
      (called.map fun p => (p.1.evfd, p.2)).Nodup ∧
      ∀ p ∈ called, Reported ready p.1.evfd p.2 := by
  obtain ⟨reached, hreached, hvalid⟩ := run_reaches hbefore
  obtain rfl := Option.some.inj (hreached.symm.trans hs)
  obtain ⟨next, hnext, hvalid₁, -, hleft, htriggers⟩ := wait_spec hvalid hok
  obtain rfl := Option.some.inj (hnext.symm.trans hs₁)
  let Inv (s₂ : Loop) : Prop :=
    s₂.Valid ∧ ∃ called, s₂.invoked = next.invoked ++ called ∧ Progress ready called s₂
  have hstart : Inv next := by
    refine ⟨hvalid₁, [], (List.append_nil _).symm, ?_⟩
    constructor
    case once => exact List.nodup_nil
    case reported => exact nofun
    case triggers =>
      intro chl c t hc ht
      obtain ⟨-, -, -, htrigger⟩ := htriggers chl c hc
      exact (htrigger t).mp ht
    case tested => exact fun _ _ _ _ => nofun
    case left => exact hleft ▸ List.nodup_nil
  have hstep : ∀ (s₂ : Loop) (e : LoopEvent), Inv s₂ → s₂.Allowed e ∧ ¬ e.IsWait →
      ∃ s', s₂.step e = some s' ∧ Inv s' := by
    rintro s₂ e ⟨hvalid₂, called, hcalled, hprogress⟩ ⟨hallowed, hwait⟩
    obtain ⟨s', hs', hvalid'⟩ := step_valid s₂ e hvalid₂ hallowed
    obtain ⟨more, hmore, hprogress'⟩ := step_progress hprogress hvalid₂ hallowed hwait hs'
    exact ⟨s', hs', hvalid', called ++ more, by simp [hmore, hcalled], hprogress'⟩
  obtain ⟨s₂, hs₂, -, called, hcalled, hprogress⟩ := foldlM_invariant hstep hstart hafter
  exact ⟨s₂, called, hs₂, hcalled, hprogress.once, hprogress.reported⟩

/-- A channel with both events enabled. -/
def watchesBoth : List LoopEvent :=
  [.create 0 5, .setHandler 0 .read, .setHandler 0 .write, .add 0, .enable 0 .write, .ret, .run]

/-- The loop behind it, at `wait`. -/
def bothEnabled : Loop := (watchesBoth.foldlM step init).getD init

/-- `kqueue` reports the events apart. -/
def apart : List (Int × Finset EventType) := [(5, {.read}), (5, {.write})]

def bothReported : Loop := (bothEnabled.step (.wait apart)).getD init

/-- The pass over the channel, which is active twice. -/
def handlesBoth : List LoopEvent :=
  [.next, .test, .test, .ret, .test, .ret, .test, .next, .next]

theorem watchesBoth_admissible : AdmissibleM step Allowed init watchesBoth := by
  refine .cons ⟨rfl, nofun⟩ rfl (.cons ⟨_, rfl, rfl⟩ rfl (.cons ⟨_, rfl, rfl⟩ rfl
    (.cons ⟨rfl, _, rfl, rfl⟩ rfl (.cons ⟨rfl, _, rfl, rfl⟩ rfl
    (.cons ⟨rfl, settled_of_only 0 ?_ rfl rfl⟩ rfl (.cons ⟨_, rfl⟩ rfl trivial))))))
  intro other hne
  simp [set, call, init, hne]

private theorem handlesBoth_admissible :
    AdmissibleM step (fun s e => s.Allowed e ∧ ¬ e.IsWait) bothReported handlesBoth := by
  have honly : ∀ other, other ≠ 0 → bothReported.channels other = none := by
    intro other hne
    simp [bothReported, bothEnabled, watchesBoth, apart, step, add, enable, set, call, report,
      reports, init, Channel.create, hne]
  refine .cons ⟨⟨_, rfl⟩, not_false⟩ rfl (.cons ⟨⟨_, _, _, rfl⟩, not_false⟩ rfl
    (.cons ⟨⟨_, _, _, rfl⟩, not_false⟩ rfl
    (.cons ⟨⟨rfl, settled_of_only 0 honly rfl rfl⟩, not_false⟩ rfl
    (.cons ⟨⟨_, _, _, rfl⟩, not_false⟩ rfl
    (.cons ⟨⟨rfl, settled_of_only 0 honly rfl rfl⟩, not_false⟩ rfl
    (.cons ⟨⟨_, _, _, rfl⟩, not_false⟩ rfl (.cons ⟨⟨_, rfl⟩, not_false⟩ rfl
    (.cons ⟨⟨_, rfl⟩, not_false⟩ rfl trivial))))))))

theorem handler_once_apart :
    ∃ s₂ called, handlesBoth.foldlM step bothReported = some s₂ ∧
      s₂.invoked = bothReported.invoked ++ called ∧
      (called.map fun p => (p.1.evfd, p.2)).Nodup ∧ ∀ p ∈ called, Reported apart p.1.evfd p.2 :=
  handler_once watchesBoth_admissible (s := bothEnabled) rfl ⟨rfl, by decide⟩ rfl handlesBoth_admissible

/-- Both handlers are called, though the channel is handled twice. -/
example : (handlesBoth.foldlM step bothReported).map (·.invoked.map (·.2)) = some [.read, .write] := rfl

end Loop

end Angel.Channels
