import Angel.Evloop.Channels

/-!
No pointer to a channel dangles while the loop holds it, and what the dispatcher watches are the
events that the channels in the map have enabled. What carries this is how the functors of a channel
in the queue depend on the calls that it has seen.
-/

namespace Angel.Channels

open Lib Dispatcher

namespace Loop

variable {s s' : Loop} {chl : Addr} {c c' : Channel} {change : Change Int (Finset Event)}

/-- What holds of one channel of the loop. -/
structure Fits (s : Loop) (chl : Addr) (c : Channel) : Prop where
  watched : s.interest c.evfd = c.filter
  mapped : s.channelMap c.evfd = if c.stage.registered then some chl else none
  pending : s.tasks.filter (fun task => task.chl = some chl) = c.stage.pending chl
  triggered : c.trigger.Nonempty → chl ∈ s.place.pass
  settled : c.filter.Nonempty → s.place.user ∨ c.stage.registered
  ended : c.stage.ended = true → c.filter = ∅ ∧ (c.idle = false → c.handlers = ∅)

/-- A call of the dispatcher adds events that are not watched, or takes away some that are. -/
def Obeys (m : Interest Int) : Change Int (Finset Event) → Prop
  | .add fd events => events.Nonempty ∧ Disjoint events (m fd)
  | .remove fd events => events.Nonempty ∧ events ⊆ m fd

/-- What holds between two steps. -/
structure Valid (s : Loop) : Prop where
  fits : ∀ chl c, s.channels chl = some c → s.Fits chl c
  distinct : ∀ chl other c d, s.channels chl = some c → s.channels other = some d →
    c.evfd = d.evfd → chl = other
  owned : ∀ fd chl, s.channelMap fd = some chl → ∃ c, s.channels chl = some c ∧ c.evfd = fd
  unwatched : ∀ fd, (∀ chl c, s.channels chl = some c → c.evfd ≠ fd) → s.interest fd = ∅
  unborn : ∀ chl, s.channels chl = none → s.tasks.filter (fun task => task.chl = some chl) = []
  held : ∀ chl ∈ s.place.pass, ∃ c, s.channels chl = some c
  invoked : ∀ p ∈ s.invoked, p.1.stage.ended = true → p.1.idle = true
  obeyed : Admissible Interest.step Obeys Interest.none s.calls

theorem init_valid : init.Valid where
  fits := nofun
  distinct := nofun
  owned := nofun
  unwatched _ _ := rfl
  unborn _ _ := rfl
  held := nofun
  invoked := nofun
  obeyed := trivial

/-- Outside of one channel and its descriptor nothing changes. -/
structure Apart (s s' : Loop) (chl : Addr) (fd : Int) : Prop where
  channels : ∀ other, other ≠ chl → s'.channels other = s.channels other
  channelMap : ∀ other, other ≠ fd → s'.channelMap other = s.channelMap other
  interest : ∀ other, other ≠ fd → s'.interest other = s.interest other
  tasks : ∀ other, other ≠ chl → s'.tasks.filter (fun task => task.chl = some other) =
    s.tasks.filter (fun task => task.chl = some other)
  pass : s'.place.pass = s.place.pass
  user : s'.place.user = s.place.user
  invoked : s'.invoked = s.invoked

theorem Fits.apart {other : Addr} {d : Channel} (h : s.Fits other d)
    (happart : Apart s s' chl c.evfd)
    (hne : other ≠ chl) (hfd : d.evfd ≠ c.evfd) : s'.Fits other d where
  watched := (happart.interest _ hfd).trans h.watched
  mapped := (happart.channelMap _ hfd).trans h.mapped
  pending := (happart.tasks _ hne).trans h.pending
  triggered ht := happart.pass ▸ h.triggered ht
  settled hf := happart.user ▸ h.settled hf
  ended := h.ended

/-- A channel behind the step stood under the same address and the same descriptor before. -/
theorem Apart.before {other : Addr} {d : Channel} (happart : Apart s s' chl c.evfd)
    (hc : s.channels chl = some c) (hc' : s'.channels chl = some c') (hfd : c'.evfd = c.evfd)
    (hd : s'.channels other = some d) : ∃ d', s.channels other = some d' ∧ d'.evfd = d.evfd := by
  obtain rfl | hne := eq_or_ne other chl
  · obtain rfl : c' = d := Option.some.inj (hc'.symm.trans hd)
    exact ⟨c, hc, hfd.symm⟩
  · exact ⟨d, (happart.channels other hne).symm.trans hd, rfl⟩

theorem Valid.apart (h : s.Valid) (hc : s.channels chl = some c) (happart : Apart s s' chl c.evfd)
    (hc' : s'.channels chl = some c') (hfd : c'.evfd = c.evfd) (hfits : s'.Fits chl c')
    (hobeyed : Admissible Interest.step Obeys Interest.none s'.calls) : s'.Valid where
  fits other d hd := by
    obtain rfl | hne := eq_or_ne other chl
    · obtain rfl : c' = d := Option.some.inj (hc'.symm.trans hd)
      exact hfits
    · have hold := (happart.channels other hne).symm.trans hd
      exact (h.fits other d hold).apart happart hne fun heq => hne (h.distinct _ _ _ _ hold hc heq)
  distinct a b d e hd he heq := by
    obtain ⟨d', hd', hdfd⟩ := happart.before hc hc' hfd hd
    obtain ⟨e', he', hefd⟩ := happart.before hc hc' hfd he
    exact h.distinct a b d' e' hd' he' (hdfd.trans (heq.trans hefd.symm))
  owned fd other hother := by
    obtain rfl | hne := eq_or_ne fd c.evfd
    · have hmapped := hfits.mapped
      simp only [hfd, hother] at hmapped
      split at hmapped
      · exact ⟨c', (Option.some.inj hmapped) ▸ hc', hfd⟩
      · cases hmapped
    · obtain ⟨d, hd, hdfd⟩ := h.owned fd other ((happart.channelMap fd hne).symm.trans hother)
      obtain rfl | hother := eq_or_ne other chl
      · obtain rfl : c = d := Option.some.inj (hc.symm.trans hd)
        exact absurd hdfd.symm hne
      · exact ⟨d, (happart.channels other hother).trans hd, hdfd⟩
  unwatched fd hfree := by
    have hne : fd ≠ c.evfd := fun heq => hfree chl c' hc' (hfd.trans heq.symm)
    refine (happart.interest fd hne).trans (h.unwatched fd ?_)
    intro other d hd
    obtain rfl | hother := eq_or_ne other chl
    · obtain rfl : c = d := Option.some.inj (hc.symm.trans hd)
      exact hne.symm
    · exact hfree other d ((happart.channels other hother).trans hd)
  unborn other hnone := by
    have hne : other ≠ chl := by
      rintro rfl
      simp [hc'] at hnone
    exact (happart.tasks other hne).trans
      (h.unborn other ((happart.channels other hne).symm.trans hnone))
  held other hmem := by
    obtain rfl | hne := eq_or_ne other chl
    · exact ⟨c', hc'⟩
    · obtain ⟨d, hd⟩ := h.held other (happart.pass ▸ hmem)
      exact ⟨d, (happart.channels other hne).trans hd⟩
  invoked p hp := h.invoked p (happart.invoked ▸ hp)
  obeyed := hobeyed

theorem Apart.trans {s'' : Loop} {fd : Int} (h : Apart s s' chl fd) (h' : Apart s' s'' chl fd) :
    Apart s s'' chl fd where
  channels other hne := (h'.channels other hne).trans (h.channels other hne)
  channelMap other hne := (h'.channelMap other hne).trans (h.channelMap other hne)
  interest other hne := (h'.interest other hne).trans (h.interest other hne)
  tasks other hne := (h'.tasks other hne).trans (h.tasks other hne)
  pass := h'.pass.trans h.pass
  user := h'.user.trans h.user
  invoked := h'.invoked.trans h.invoked

theorem apart_set (s : Loop) (chl : Addr) (fd : Int) (c : Channel) :
    Apart s (s.set chl c) chl fd where
  channels _ hne := Function.update_of_ne hne _ _
  channelMap _ _ := rfl
  interest _ _ := rfl
  tasks _ _ := rfl
  pass := rfl
  user := rfl
  invoked := rfl

theorem interest_call (s : Loop) (change : Change Int (Finset Event)) :
    (s.call change).interest = s.interest.step change := by
  simp [interest, Interest.of, call, run_append]

theorem apart_call (s : Loop) (chl : Addr) (change : Change Int (Finset Event)) :
    Apart s (s.call change) chl change.fd where
  channels _ _ := rfl
  channelMap _ _ := rfl
  interest other hne := by
    cases change with
    | add fd events => exact congrFun (interest_call s _) other |>.trans (Function.update_of_ne hne _ _)
    | remove fd events => exact congrFun (interest_call s _) other |>.trans (Function.update_of_ne hne _ _)
  tasks _ _ := rfl
  pass := rfl
  user := rfl
  invoked := rfl

@[simp] theorem tasks_queue (s : Loop) (tasks : List Task) :
    (s.queue tasks).tasks = s.tasks ++ tasks := by
  simp [Loop.tasks, queue]

theorem apart_queue (s : Loop) (chl : Addr) (fd : Int) {tasks : List Task}
    (htasks : ∀ task ∈ tasks, task.chl = some chl) : Apart s (s.queue tasks) chl fd where
  channels _ _ := rfl
  channelMap _ _ := rfl
  interest _ _ := rfl
  tasks other hne := by
    have hnone : tasks.filter (fun task => task.chl = some other) = [] := by
      refine List.filter_eq_nil_iff.mpr ?_
      intro task hmem
      simp [htasks task hmem, hne.symm]
    simp [hnone]
  pass := rfl
  user := rfl
  invoked := rfl

@[simp] theorem channels_set (s : Loop) (chl : Addr) (c : Channel) :
    (s.set chl c).channels chl = some c := Function.update_self ..

theorem Valid.set (h : s.Valid) (hc : s.channels chl = some c) (hfd : c'.evfd = c.evfd)
    (hfits : (s.set chl c').Fits chl c') : (s.set chl c').Valid :=
  h.apart hc (apart_set ..) (channels_set ..) hfd hfits h.obeyed

/-- Another value for a channel, with a call of the dispatcher about its descriptor. -/
theorem Valid.watch (h : s.Valid) (hc : s.channels chl = some c) (hfd : c'.evfd = c.evfd)
    (hchange : change.fd = c.evfd) (hobeys : Obeys s.interest change)
    (hfits : ((s.set chl c').call change).Fits chl c') : ((s.set chl c').call change).Valid := by
  have happart : Apart s ((s.set chl c').call change) chl c.evfd :=
    (apart_set s chl c.evfd c').trans (hchange ▸ apart_call _ chl change)
  exact h.apart hc happart (channels_set ..) hfd hfits (admissible_append.mpr ⟨h.obeyed, hobeys, trivial⟩)

theorem apart_place {p : Place} {functors : List Task} (fd : Int) (hpass : p.pass = s.place.pass)
    (huser : p.user = s.place.user)
    (hothers : ∀ other, other ≠ chl → (p.tasks ++ functors).filter (fun task => task.chl = some other) =
      s.tasks.filter (fun task => task.chl = some other)) :
    Apart s { s with place := p, functors := functors } chl fd where
  channels _ _ := rfl
  channelMap _ _ := rfl
  interest _ _ := rfl
  tasks := hothers
  pass := hpass
  user := huser
  invoked := rfl

theorem Valid.move {p : Place} {functors : List Task} {invoked : List (Channel × EventType)}
    (h : s.Valid)
    (htasks : ∀ chl, (p.tasks ++ functors).filter (fun task => task.chl = some chl) =
      s.tasks.filter (fun task => task.chl = some chl))
    (hheld : ∀ chl ∈ p.pass, ∃ c, s.channels chl = some c)
    (htriggered : ∀ chl c, s.channels chl = some c → c.trigger.Nonempty → chl ∈ p.pass)
    (hsettled : ∀ chl c, s.channels chl = some c → c.filter.Nonempty → p.user ∨ c.stage.registered)
    (hinvoked : ∀ q ∈ invoked, q.1.stage.ended = true → q.1.idle = true) :
    ({ s with place := p, functors := functors, invoked := invoked } : Loop).Valid where
  fits chl c hc :=
    have hfits := h.fits chl c hc
    { watched := hfits.watched
      mapped := hfits.mapped
      pending := (htasks chl).trans hfits.pending
      triggered := htriggered chl c hc
      settled := hsettled chl c hc
      ended := hfits.ended }
  distinct := h.distinct
  owned := h.owned
  unwatched := h.unwatched
  unborn chl hnone := (htasks chl).trans (h.unborn chl hnone)
  held := hheld
  invoked := hinvoked
  obeyed := h.obeyed

theorem enable_valid (h : s.Valid) (hc : s.channels chl = some c) (e : Event)
    (hlive : c.stage.ended = false) (hplace : s.place.user ∨ c.stage.registered) :
    ∃ s', s.enable chl e = some s' ∧ s'.Valid := by
  have hfits := h.fits chl c hc
  simp only [enable, hc, Option.bind_eq_bind, Option.bind_some]
  split
  · exact ⟨s, rfl, h⟩
  · next hnot =>
      refine ⟨_, rfl, h.watch hc rfl rfl ?_ ?_⟩
      · simp [Obeys, hfits.watched, hnot]
      · constructor
        case watched =>
          simp only [interest_call, Interest.step, Function.update_self]
          change s.interest c.evfd ∪ {e} = insert e c.filter
          rw [hfits.watched, Finset.union_comm, Finset.insert_eq]
        case mapped => exact hfits.mapped
        case pending => exact hfits.pending
        case triggered => exact hfits.triggered
        case settled => exact fun _ => hplace
        case ended => exact fun hremoved => absurd hremoved (by simp [hlive])

theorem disable_valid (h : s.Valid) (hc : s.channels chl = some c) (e : Event)
    (hplace : s.place.user) : ∃ s', s.disable chl e = some s' ∧ s'.Valid := by
  have hfits := h.fits chl c hc
  simp only [disable, hc, Option.bind_eq_bind, Option.bind_some]
  split
  · next hmem =>
      refine ⟨_, rfl, h.watch hc rfl rfl ?_ ?_⟩
      · simp [Obeys, hfits.watched, hmem]
      · constructor
        case watched =>
          simp only [interest_call, Interest.step, Function.update_self]
          change s.interest c.evfd \ {e} = c.filter.erase e
          simp [hfits.watched, Finset.sdiff_singleton_eq_erase]
        case mapped => exact hfits.mapped
        case pending => exact hfits.pending
        case triggered => exact hfits.triggered
        case settled => exact fun _ => .inl hplace
        case ended =>
          intro hremoved
          have hempty := (hfits.ended hremoved).1
          simp [hempty] at hmem
  · exact ⟨s, rfl, h⟩

/-- The loop behind `disable_all`. -/
def disabled (s : Loop) (chl : Addr) (c : Channel) : Loop :=
  if c.filter.Nonempty then
    (s.set chl { c with filter := ∅, handlers := ∅, stage := c.stage.afterDisable }).call (.remove c.evfd c.filter)
  else s.set chl { c with stage := c.stage.afterDisable, idle := true }

theorem disableAll_eq (hc : s.channels chl = some c) :
    s.disableAll chl = some (s.disabled chl c) := by
  simp only [disableAll, disabled, hc, Option.bind_eq_bind, Option.bind_some]
  split <;> rfl

/-- `disable_all`, when the queue holds for the channel what is to be there behind it. -/
theorem disabled_valid (p : Place) (functors : List Task) (h : s.Valid)
    (hc : s.channels chl = some c) (hstage : c.stage.registered = true)
    (hpass : p.pass = s.place.pass) (huser : p.user = s.place.user)
    (hothers : ∀ other, other ≠ chl → (p.tasks ++ functors).filter (fun task => task.chl = some other) =
      s.tasks.filter (fun task => task.chl = some other))
    (hpending : (p.tasks ++ functors).filter (fun task => task.chl = some chl) =
      c.stage.afterDisable.pending chl) :
    ({ s.disabled chl c with place := p, functors := functors } : Loop).Valid := by
  have hfits := h.fits chl c hc
  have hmapped : s.channelMap c.evfd = some chl := by simp [hfits.mapped, hstage]
  unfold disabled
  split
  · next hfilter =>
      set c' : Channel := { c with filter := ∅, handlers := ∅, stage := c.stage.afterDisable } with hc'
      have happart := ((apart_set s chl c.evfd c').trans
        (apart_call _ chl (.remove c.evfd c.filter))).trans (apart_place c.evfd hpass huser hothers)
      refine h.apart hc happart (channels_set ..) rfl ?_ ?_
      · constructor
        case watched =>
          change ((s.set chl c').call (.remove c.evfd c.filter)).interest c.evfd = ∅
          simp only [interest_call, Interest.step, Function.update_self]
          exact sdiff_eq_bot_iff.mpr hfits.watched.le
        case mapped => exact hmapped.trans (if_pos (Stage.registered_afterDisable _)).symm
        case pending => exact hpending
        case triggered => exact fun ht => hpass ▸ hfits.triggered ht
        case settled => simp [hc']
        case ended => simp [hc']
      · have hobeys : Obeys s.interest (.remove c.evfd c.filter) := ⟨hfilter, hfits.watched.ge⟩
        exact admissible_append.mpr ⟨h.obeyed, hobeys, trivial⟩
  · next hfilter =>
      have hempty := Finset.not_nonempty_iff_eq_empty.mp hfilter
      have happart := (apart_set s chl c.evfd { c with stage := c.stage.afterDisable, idle := true }).trans
        (apart_place c.evfd hpass huser hothers)
      refine h.apart hc happart (channels_set ..) rfl ?_ h.obeyed
      constructor
      case watched => exact hfits.watched
      case mapped => exact hmapped.trans (if_pos (Stage.registered_afterDisable _)).symm
      case pending => exact hpending
      case triggered => exact fun ht => hpass ▸ hfits.triggered ht
      case settled => exact fun hnonempty => absurd hnonempty hfilter
      case ended => simp [hempty]

/-- `add`, when the queue holds for the channel what is to be there behind it. -/
theorem add_valid {p : Place} {functors : List Task} (h : s.Valid) (hc : s.channels chl = some c)
    (hstage : c.stage.registered = false) (hpass : p.pass = s.place.pass)
    (huser : p.user = s.place.user)
    (hothers : ∀ other, other ≠ chl → (p.tasks ++ functors).filter (fun task => task.chl = some other) =
      s.tasks.filter (fun task => task.chl = some other))
    (hpending : (p.tasks ++ functors).filter (fun task => task.chl = some chl) =
      c.stage.afterAdd.pending chl) :
    ∃ s', ({ s with place := p, functors := functors } : Loop).add chl = some s' ∧ s'.Valid := by
  have hfits := h.fits chl c hc
  have hunmapped : s.channelMap c.evfd = none := by simp [hfits.mapped, hstage]
  have hafter : c.stage.afterAdd.registered = true ∧ c.stage.afterAdd.ended = false := by
    cases hcase : c.stage <;> simp [Stage.afterAdd, Stage.registered, Stage.ended]
  set c' : Channel := { c with stage := c.stage.afterAdd } with hc'
  set s₁ : Loop := { s with
    place := p
    functors := functors
    channelMap := Function.update s.channelMap c.evfd (some chl)
    channels := Function.update s.channels chl (some c') } with hs₁
  have hself : s₁.channels chl = some c' := Function.update_self ..
  have happart : Apart s s₁ chl c.evfd :=
    { channels := fun other hne => Function.update_of_ne hne _ _
      channelMap := fun other hne => Function.update_of_ne hne _ _
      interest := fun _ _ => rfl
      tasks := hothers
      pass := hpass
      user := huser
      invoked := rfl }
  have hvalid : s₁.Valid := by
    refine h.apart hc happart hself rfl ?_ h.obeyed
    constructor
    case watched => exact hfits.watched
    case mapped => simp [hs₁, hc', hafter.1]
    case pending => exact hpending
    case triggered => exact fun ht => hpass ▸ hfits.triggered ht
    case settled => exact fun _ => .inr hafter.1
    case ended => exact fun hremoved => absurd (hafter.2.symm.trans hremoved) nofun
  obtain ⟨s', hs', hend⟩ := enable_valid hvalid hself .read hafter.2 (.inr hafter.1)
  refine ⟨s', ?_, hend⟩
  simp only [add, hc, hunmapped, Option.bind_eq_bind, Option.bind_some]
  exact hs'

/-- A channel that calls have brought to another stage, with its functors at the end of the queue. -/
theorem enqueue_valid {tasks : List Task} {stage : Stage} (h : s.Valid)
    (hc : s.channels chl = some c) (htasks : ∀ task ∈ tasks, task.chl = some chl)
    (hpending : c.stage.pending chl ++ tasks = stage.pending chl)
    (hregistered : stage.registered = c.stage.registered) (hended : stage.ended = c.stage.ended) :
    ((s.set chl { c with stage := stage }).queue tasks).Valid := by
  have hfits := h.fits chl c hc
  refine h.apart hc ((apart_set ..).trans (apart_queue _ chl c.evfd htasks)) (channels_set ..) rfl ?_
    h.obeyed
  constructor
  case watched => exact hfits.watched
  case mapped => simp only [hregistered]; exact hfits.mapped
  case pending =>
    have hown : tasks.filter (fun task => task.chl = some chl) = tasks := by
      refine List.filter_eq_self.mpr ?_
      simpa using htasks
    rw [tasks_queue, List.filter_append, hown]
    exact hpending ▸ congrArg (· ++ tasks) hfits.pending
  case triggered => exact hfits.triggered
  case settled => simp only [hregistered]; exact hfits.settled
  case ended => exact fun hremoved => hfits.ended (hended.symm.trans hremoved)

theorem create_valid (h : s.Valid) {fd : Int} (hchl : s.channels chl = none)
    (hfd : ∀ other c, s.channels other = some c → c.evfd ≠ fd) :
    (s.set chl (.create fd)).Valid := by
  set c : Channel := .create fd with hc
  -- the new channel, or an old one
  have hcases : ∀ other d, (s.set chl c).channels other = some d →
      (other = chl ∧ d = c) ∨ s.channels other = some d := by
    intro other d hd
    obtain rfl | hne := eq_or_ne other chl
    · exact .inl ⟨rfl, (Option.some.inj ((channels_set ..).symm.trans hd)).symm⟩
    · exact .inr ((Function.update_of_ne hne _ _).symm.trans hd)
  have hkeep : ∀ other d, s.channels other = some d → (s.set chl c).channels other = some d := by
    intro other d hd
    have hne : other ≠ chl := by
      rintro rfl
      simp [hchl] at hd
    exact (Function.update_of_ne hne _ _).trans hd
  have hunmapped : s.channelMap fd = none := by
    refine Option.eq_none_iff_forall_ne_some.mpr ?_
    intro other hother
    obtain ⟨d, hd, hdfd⟩ := h.owned fd other hother
    exact hfd other d hd hdfd
  constructor
  case fits =>
    intro other d hd
    rcases hcases other d hd with ⟨rfl, rfl⟩ | hold
    · constructor
      case watched => exact h.unwatched fd hfd
      case mapped => exact hunmapped
      case pending => exact h.unborn _ hchl
      case triggered => simp [hc, Channel.create]
      case settled => simp [hc, Channel.create]
      case ended => simp [hc, Channel.create]
    · obtain ⟨hwatched, hmapped, hpending, htriggered, hsettled, hended⟩ := h.fits other d hold
      exact ⟨hwatched, hmapped, hpending, htriggered, hsettled, hended⟩
  case distinct =>
    intro a b d e hd he heq
    rcases hcases a d hd with ⟨rfl, rfl⟩ | hold <;> rcases hcases b e he with ⟨rfl, rfl⟩ | hold'
    · rfl
    · exact absurd heq.symm (hfd b e hold')
    · exact absurd heq (hfd a d hold)
    · exact h.distinct a b d e hold hold' heq
  case owned =>
    intro other a ha
    obtain ⟨d, hd, hdfd⟩ := h.owned other a ha
    exact ⟨d, hkeep a d hd, hdfd⟩
  case unwatched => exact fun other hfree => h.unwatched other fun a d hd => hfree a d (hkeep a d hd)
  case unborn =>
    intro other hnone
    obtain rfl | hne := eq_or_ne other chl
    · simp at hnone
    · exact h.unborn other ((Function.update_of_ne hne _ _).symm.trans hnone)
  case held =>
    intro other hmem
    obtain ⟨d, hd⟩ := h.held other hmem
    exact ⟨d, hkeep other d hd⟩
  case invoked => exact h.invoked
  case obeyed => exact h.obeyed

theorem setHandler_valid (h : s.Valid) (hc : s.channels chl = some c) (t : EventType)
    (hlive : c.stage.ended = false) :
    (s.set chl { c with handlers := insert t c.handlers }).Valid := by
  obtain ⟨hwatched, hmapped, hpending, htriggered, hsettled, -⟩ := h.fits chl c hc
  exact h.set hc rfl
    ⟨hwatched, hmapped, hpending, htriggered, hsettled, fun hremoved => absurd hremoved (by simp [hlive])⟩

theorem queueUser_valid (h : s.Valid) : (s.queue [.user]).Valid := by
  refine h.move (fun chl => ?_) h.held (fun _ _ hc => (h.fits _ _ hc).triggered)
    (fun _ _ hc => (h.fits _ _ hc).settled) h.invoked
  rw [← List.append_assoc, List.filter_append]
  exact List.append_nil _

theorem Valid.watched_channel (h : s.Valid) {fd : Int} (hfd : (s.interest fd).Nonempty) :
    ∃ chl c, s.channels chl = some c ∧ c.evfd = fd ∧ c.filter = s.interest fd := by
  by_contra! hnone
  refine absurd (h.unwatched fd ?_) hfd.ne_empty
  rintro chl c hc rfl
  exact hnone chl c hc rfl (h.fits chl c hc).watched.symm

theorem Valid.searched (h : s.Valid) (huser : s.place.user = false) {fd : Int}
    (hfd : (s.interest fd).Nonempty) :
    ∃ chl c, s.channelMap fd = some chl ∧ s.channels chl = some c ∧ c.evfd = fd ∧
      c.filter = s.interest fd := by
  obtain ⟨chl, c, hc, rfl, hfilter⟩ := h.watched_channel hfd
  have hfits := h.fits chl c hc
  have hregistered : c.stage.registered = true :=
    (hfits.settled (hfilter ▸ hfd)).resolve_left (by simp [huser])
  exact ⟨chl, c, by simp [hfits.mapped, hregistered], hc, rfl, hfilter⟩

theorem Valid.triggers_at_wait (h : s.Valid) (hplace : s.place = .waiting)
    (hc : s.channels chl = some c) :
    c.trigger = ∅ := by
  refine Finset.not_nonempty_iff_eq_empty.mp ?_
  intro ht
  have hpass := (h.fits chl c hc).triggered ht
  simp [hplace, Place.pass] at hpass

theorem report_valid {fd : Int} {active : List Addr}
    (h : ({ s with place := .handling active } : Loop).Valid) (hfd : (s.interest fd).Nonempty)
    (events : Finset EventType) :
    ∃ chl c, s.channels chl = some c ∧ c.evfd = fd ∧
      s.report fd events = some (s.set chl { c with trigger := c.trigger ∪ events }, chl) ∧
      ({ s.set chl { c with trigger := c.trigger ∪ events } with
        place := .handling (active ++ [chl]) } : Loop).Valid := by
  obtain ⟨chl, c, hmap, hc, hevfd, -⟩ := h.searched rfl hfd
  have hmap : s.channelMap fd = some chl := hmap
  have hc : s.channels chl = some c := hc
  refine ⟨chl, c, hc, hevfd, by simp [report, hmap, hc], ?_⟩
  have hmoved : ({ s with place := .handling (active ++ [chl]) } : Loop).Valid := by
    refine h.move (fun _ => rfl) ?_ ?_ (fun _ _ hd => (h.fits _ _ hd).settled) h.invoked
    · intro other hmem
      rcases List.mem_append.mp hmem with hold | hnew
      · exact h.held other hold
      · exact ⟨c, List.mem_singleton.mp hnew ▸ hc⟩
    · exact fun other d hd ht => List.mem_append_left _ ((h.fits other d hd).triggered ht)
  obtain ⟨hwatched, hmapped, hpending, -, hsettled, hended⟩ := hmoved.fits chl c hc
  refine hmoved.set hc rfl ⟨hwatched, hmapped, hpending, ?_, hsettled, hended⟩
  exact fun _ => List.mem_append_right _ (List.mem_singleton_self chl)

theorem reports_valid {ready : List (Int × Finset EventType)} {active : List Addr}
    (h : ({ s with place := .handling active } : Loop).Valid)
    (hready : ∀ p ∈ ready, (s.interest p.1).Nonempty) :
    ∃ s' active', s.reports active ready = some (s', active') ∧
      ({ s' with place := .handling active' } : Loop).Valid := by
  induction ready generalizing s active with
  | nil => exact ⟨s, active, rfl, h⟩
  | cons p ready ih =>
      obtain ⟨fd, events⟩ := p
      obtain ⟨hfirst, hrest⟩ := List.forall_mem_cons.mp hready
      obtain ⟨chl, c, -, -, hreport, hvalid⟩ := report_valid h hfirst events
      obtain ⟨s', active', hreports, hend⟩ := ih hvalid hrest
      refine ⟨s', active', ?_, hend⟩
      simp only [reports, hreport, Option.bind_eq_bind, Option.bind_some, hreports]

theorem Valid.handling (h : s.Valid) (hplace : s.place = .waiting) :
    ({ s with place := .handling [] } : Loop).Valid := by
  refine h.move (fun _ => ?_) nofun ?_ ?_ h.invoked
  · simp [Loop.tasks, hplace, Place.tasks]
  · exact fun chl c hc ht => by simpa [hplace, Place.pass] using (h.fits chl c hc).triggered ht
  · exact fun chl c hc hf => by simpa [hplace, Place.user] using (h.fits chl c hc).settled hf

theorem wait_valid {ready : List (Int × Finset EventType)} (h : s.Valid)
    (hplace : s.place = .waiting) (hready : ∀ p ∈ ready, (s.interest p.1).Nonempty) :
    ∃ s', s.step (.wait ready) = some s' ∧ s'.Valid := by
  obtain ⟨s', active, hreports, hvalid⟩ := reports_valid (h.handling hplace) hready
  simp only [step, hreports, Option.bind_eq_bind, Option.bind_some]
  split
  · next hnone =>
      subst hnone
      simp only [reports, Option.some.injEq, Prod.mk.injEq] at hreports
      obtain ⟨rfl, rfl⟩ := hreports
      refine ⟨_, rfl, hvalid.move (fun _ => rfl) nofun ?_ (fun _ _ _ _ => .inl rfl) hvalid.invoked⟩
      exact fun chl c hc => (hvalid.fits chl c hc).triggered
  · exact ⟨_, rfl, hvalid⟩

theorem next_valid {rest : List Addr} (h : s.Valid) (hplace : s.place = .handling rest) :
    ∃ s', s.step .next = some s' ∧ s'.Valid := by
  have htasks : s.tasks = s.functors := by simp [Loop.tasks, hplace, Place.tasks]
  have hpass : s.place.pass = rest := by simp [hplace, Place.pass]
  have hsettled : ∀ chl c, s.channels chl = some c → c.filter.Nonempty → c.stage.registered = true :=
    fun chl c hc hf => by simpa [hplace, Place.user] using (h.fits chl c hc).settled hf
  cases rest with
  | nil =>
      simp only [step, hplace]
      refine ⟨_, rfl, h.move (fun _ => ?_) nofun ?_ (fun chl c hc hf => .inr (hsettled chl c hc hf))
        h.invoked⟩
      · simp [htasks, Place.tasks]
      · exact fun chl c hc ht => by simpa [hpass] using (h.fits chl c hc).triggered ht
  | cons chl rest =>
      obtain ⟨c, hc⟩ := h.held chl (by simp [hpass])
      simp only [step, hplace, hc, Option.bind_eq_bind, Option.bind_some]
      refine ⟨_, rfl, h.move (fun _ => ?_) ?_ ?_ (fun other d hd hf => .inr (hsettled other d hd hf))
        h.invoked⟩
      · split <;> simp [htasks, Place.tasks]
      · intro other hmem
        refine h.held other (hpass ▸ ?_)
        split at hmem
        · exact hmem
        · exact List.mem_cons_of_mem _ hmem
      · intro other d hd ht
        have hold : other ∈ chl :: rest := hpass ▸ (h.fits other d hd).triggered ht
        split
        · exact hold
        · next hidle =>
            refine (List.mem_cons.mp hold).resolve_left ?_
            rintro rfl
            exact hidle (Option.some.inj (hd.symm.trans hc) ▸ ht)

/-- A handler that is set belongs to a channel that has not been removed, or was idle then. -/
theorem Fits.idle {t : EventType} (h : s.Fits chl c) (ht : t ∈ c.handlers)
    (hremoved : c.stage.ended = true) : c.idle = true := by
  by_contra hbusy
  have hnone := (h.ended hremoved).2 (Bool.eq_false_iff.mpr hbusy)
  simp [hnone] at ht

theorem test_valid {left : List EventType} {rest : List Addr} (h : s.Valid)
    (hplace : s.place = .triggered chl left rest) : ∃ s', s.step .test = some s' ∧ s'.Valid := by
  have htasks : s.tasks = s.functors := by simp [Loop.tasks, hplace, Place.tasks]
  have hpass : s.place.pass = chl :: rest := by simp [hplace, Place.pass]
  have hsettled : ∀ chl c, s.channels chl = some c → c.filter.Nonempty → c.stage.registered = true :=
    fun chl c hc hf => by simpa [hplace, Place.user] using (h.fits chl c hc).settled hf
  obtain ⟨c, hc⟩ := h.held chl (by simp [hpass])
  -- the pass holds the same channels wherever the thread goes on inside of `handle_event`
  have hinside : ∀ (p : Place) invoked, p.pass = chl :: rest → p.tasks = [] →
      (∀ q ∈ invoked, q.1.stage.ended = true → q.1.idle = true) →
      ({ s with place := p, invoked := invoked } : Loop).Valid := by
    intro p invoked hp hnone hinvoked
    refine h.move (fun _ => ?_) ?_ ?_ (fun other d hd hf => .inr (hsettled other d hd hf)) hinvoked
    · simp [htasks, hnone]
    · exact fun other hmem => h.held other (hpass ▸ hp ▸ hmem)
    · exact fun other d hd ht => hp ▸ hpass ▸ (h.fits other d hd).triggered ht
  cases left with
  | nil =>
      simp only [step, hplace, hc, Option.bind_eq_bind, Option.bind_some]
      refine ⟨_, rfl, ?_⟩
      have hset : (s.set chl { c with trigger := ∅ }).Valid := by
        obtain ⟨hwatched, hmapped, hpending, -, hsettled, hended⟩ := h.fits chl c hc
        exact h.set hc rfl ⟨hwatched, hmapped, hpending, by simp, hsettled, hended⟩
      refine hset.move (fun _ => ?_) ?_ ?_ ?_ hset.invoked
      · exact congrArg _ htasks.symm
      · exact fun other hmem => hset.held other (hpass.symm ▸ List.mem_cons_of_mem _ hmem)
      · intro other d hd ht
        have hold : other ∈ chl :: rest := hpass ▸ (hset.fits other d hd).triggered ht
        refine (List.mem_cons.mp hold).resolve_left ?_
        rintro rfl
        obtain rfl := Option.some.inj ((channels_set ..).symm.trans hd)
        simp at ht
      · intro other d hd hf
        simpa [Loop.set, hplace, Place.user] using (hset.fits other d hd).settled hf
  | cons t left =>
      simp only [step, hplace, hc, Option.bind_eq_bind, Option.bind_some]
      split
      · next hcalled =>
          refine ⟨_, rfl, hinside _ _ rfl rfl ?_⟩
          intro q hq
          rcases List.mem_append.mp hq with hold | hnew
          · exact h.invoked q hold
          · obtain rfl := List.mem_singleton.mp hnew
            exact (h.fits chl c hc).idle hcalled.2
      · exact ⟨_, rfl, hinside _ _ rfl rfl h.invoked⟩

theorem ret_valid (h : s.Valid) (huser : s.place.user) (hsettled : s.Settled) :
    ∃ s', s.step .ret = some s' ∧ s'.Valid := by
  have hgo : ∀ (p : Place) functors, p.tasks ++ functors = s.tasks → p.pass = s.place.pass →
      ({ s with place := p, functors := functors } : Loop).Valid := by
    intro p functors htasks hpass
    refine h.move (fun _ => congrArg _ htasks) ?_ ?_ (fun chl c hc hf => .inr (hsettled chl c hc hf))
      h.invoked
    · exact fun chl hmem => h.held chl (hpass ▸ hmem)
    · exact fun chl c hc ht => hpass ▸ (h.fits chl c hc).triggered ht
  cases hplace : s.place with
  | inHandler chl left rest =>
      simp only [step, hplace]
      exact ⟨_, rfl, hgo _ _ (by simp [Loop.tasks, hplace, Place.tasks]) (by simp [hplace, Place.pass])⟩
  | inTimers =>
      simp only [step, hplace]
      exact ⟨_, rfl, hgo _ _ (by simp [Loop.tasks, hplace, Place.tasks]) (by simp [hplace, Place.pass])⟩
  | inFunctor tasks =>
      simp only [step, hplace]
      exact ⟨_, rfl, hgo _ _ (by simp [Loop.tasks, hplace, Place.tasks]) (by simp [hplace, Place.pass])⟩
  | waiting => simp [hplace, Place.user] at huser
  | handling rest => simp [hplace, Place.user] at huser
  | triggered chl left rest => simp [hplace, Place.user] at huser
  | running tasks => simp [hplace, Place.user] at huser

theorem Valid.first_task {task : Task} {left : List Task} (h : s.Valid)
    (hplace : s.place = .running (task :: left)) (htask : task.chl = some chl) :
    ∃ c, s.channels chl = some c ∧
      c.stage.pending chl = task :: (left ++ s.functors).filter (fun task => task.chl = some chl) := by
  have htasks : s.tasks.filter (fun task => task.chl = some chl) =
      task :: (left ++ s.functors).filter (fun task => task.chl = some chl) := by
    simp [Loop.tasks, hplace, Place.tasks, htask]
  cases hchl : s.channels chl with
  | none => simp [h.unborn chl hchl] at htasks
  | some c => exact ⟨c, rfl, (h.fits chl c hchl).pending.symm.trans htasks⟩

/-- What the first functor of a channel tells of its stage, and what is left behind it. -/
theorem first_pending {stage : Stage} {task : Task} {tasks : List Task}
    (h : stage.pending chl = task :: tasks) :
    (task = .add chl ∧ stage.registered = false ∧ tasks = stage.afterAdd.pending chl) ∨
    (task = .disableAll chl ∧ stage.registered = true ∧ tasks = stage.afterDisable.pending chl) ∨
    task = .erase chl ∧ stage = .removed true ∧ tasks = [] := by
  cases stage with
  | created => cases h
  | adding =>
      cases h
      exact .inl ⟨rfl, rfl, rfl⟩
  | passing erasing =>
      cases h
      exact .inl ⟨rfl, rfl, rfl⟩
  | added => cases h
  | removing erasing =>
      cases h
      exact .inr (.inl ⟨rfl, rfl, rfl⟩)
  | removed erasing =>
      cases erasing with
      | false => cases h
      | true =>
          cases h
          exact .inr (.inr ⟨rfl, rfl, rfl⟩)

theorem other_tasks {task : Task} {left : List Task} (hplace : s.place = .running (task :: left))
    (htask : task.chl = some chl) (other : Addr) (hne : other ≠ chl) :
    ((Place.running left).tasks ++ s.functors).filter (fun task => task.chl = some other) =
      s.tasks.filter (fun task => task.chl = some other) := by
  simp [Loop.tasks, hplace, Place.tasks, htask, hne.symm]

theorem runAdd_valid {left : List Task} (h : s.Valid)
    (hplace : s.place = .running (.add chl :: left)) :
    ∃ s', s.runTask left (.add chl) = some s' ∧ s'.Valid := by
  obtain ⟨c, hc, hpending⟩ := h.first_task hplace rfl
  obtain ⟨-, hregistered, hleft⟩ := (first_pending hpending).resolve_right (by simp)
  exact add_valid h hc hregistered (by simp [hplace, Place.pass]) (by simp [hplace, Place.user])
    (other_tasks hplace rfl) hleft

private theorem runDisableAll_valid {left : List Task} (h : s.Valid)
    (hplace : s.place = .running (.disableAll chl :: left)) :
    ∃ s', s.runTask left (.disableAll chl) = some s' ∧ s'.Valid := by
  obtain ⟨c, hc, hpending⟩ := h.first_task hplace rfl
  obtain ⟨-, hregistered, hleft⟩ :=
    ((first_pending hpending).resolve_left (by simp)).resolve_right (by simp)
  refine ⟨_, disableAll_eq (s := { s with place := .running left }) hc, ?_⟩
  have hvalid := disabled_valid (.running left) s.functors h hc hregistered
    (by simp [hplace, Place.pass]) (by simp [hplace, Place.user]) (other_tasks hplace rfl) hleft
  have hsame : ({ s with place := .running left } : Loop).disabled chl c =
      { s.disabled chl c with place := .running left, functors := s.functors } := by
    unfold disabled
    split <;> rfl
  exact hsame ▸ hvalid

private theorem runErase_valid {left : List Task} (h : s.Valid)
    (hplace : s.place = .running (.erase chl :: left)) :
    ∃ s', s.runTask left (.erase chl) = some s' ∧ s'.Valid := by
  obtain ⟨c, hc, hpending⟩ := h.first_task hplace rfl
  have hfits := h.fits chl c hc
  obtain ⟨-, hstage, hleft⟩ :=
    ((first_pending hpending).resolve_left (by simp)).resolve_left (by simp)
  have hmapped : s.channelMap c.evfd = some chl := by simp [hfits.mapped, hstage, Stage.registered]
  have hended : c.stage.ended = true := hstage ▸ rfl
  have hpass : s.place.pass = [] := by simp [hplace, Place.pass]
  have huser : s.place.user = false := by simp [hplace, Place.user]
  simp only [runTask, erase, hc, hmapped, Option.bind_eq_bind, Option.bind_some]
  refine ⟨_, rfl, ?_⟩
  set s' : Loop := { s with
    place := .running left
    channelMap := Function.update s.channelMap c.evfd none
    channels := Function.update s.channels chl none } with hs'
  have hothers : ∀ other d, s'.channels other = some d → other ≠ chl ∧ s.channels other = some d := by
    intro other d hd
    obtain rfl | hne := eq_or_ne other chl
    · exact absurd ((Function.update_self ..).symm.trans hd) nofun
    · exact ⟨hne, (Function.update_of_ne hne _ _).symm.trans hd⟩
  have hkeep : ∀ other d, other ≠ chl → s.channels other = some d → s'.channels other = some d :=
    fun other d hne hd => (Function.update_of_ne hne _ _).trans hd
  constructor
  case fits =>
    intro other d hd
    obtain ⟨hne, hold⟩ := hothers other d hd
    have hfd : d.evfd ≠ c.evfd := fun heq => hne (h.distinct _ _ _ _ hold hc heq)
    obtain ⟨hwatched, hmap, hpending, htriggered, hsettled, hended⟩ := h.fits other d hold
    refine ⟨hwatched, ?_, ?_, ?_, ?_, hended⟩
    · exact (Function.update_of_ne hfd _ _).trans hmap
    · exact (other_tasks hplace rfl other hne).trans hpending
    · exact fun ht => by simpa [hpass] using htriggered ht
    · exact fun hf => .inr (by simpa [huser] using hsettled hf)
  case distinct =>
    intro a b d e hd he heq
    exact h.distinct a b d e (hothers a d hd).2 (hothers b e he).2 heq
  case owned =>
    intro fd other hother
    obtain rfl | hne := eq_or_ne fd c.evfd
    · exact absurd ((Function.update_self ..).symm.trans hother) nofun
    · obtain ⟨d, hd, rfl⟩ := h.owned fd other ((Function.update_of_ne hne _ _).symm.trans hother)
      refine ⟨d, hkeep other d ?_ hd, rfl⟩
      rintro rfl
      exact hne (Option.some.inj (hd.symm.trans hc) ▸ rfl)
  case unwatched =>
    intro fd hfree
    obtain rfl | hne := eq_or_ne c.evfd fd
    · exact hfits.watched.trans (hfits.ended hended).1
    · refine h.unwatched fd ?_
      intro other d hd
      obtain rfl | hother := eq_or_ne other chl
      · exact Option.some.inj (hc.symm.trans hd) ▸ hne
      · exact hfree other d (hkeep other d hother hd)
  case unborn =>
    intro other hnone
    obtain rfl | hne := eq_or_ne other chl
    · exact hleft
    · exact (other_tasks hplace rfl other hne).trans
        (h.unborn other ((Function.update_of_ne hne _ _).symm.trans hnone))
  case held => exact nofun
  case invoked => exact h.invoked
  case obeyed => exact h.obeyed

private theorem run_valid {tasks : List Task} (h : s.Valid) (hplace : s.place = .running tasks) :
    ∃ s', s.step .run = some s' ∧ s'.Valid := by
  cases tasks with
  | nil =>
      simp only [step, hplace]
      refine ⟨_, rfl, h.move (fun _ => ?_) nofun ?_ ?_ h.invoked⟩
      · simp [Loop.tasks, hplace, Place.tasks]
      · exact fun chl c hc ht => by simpa [hplace, Place.pass] using (h.fits chl c hc).triggered ht
      · exact fun chl c hc hf => by simpa [hplace, Place.user] using (h.fits chl c hc).settled hf
  | cons task left =>
      simp only [step, hplace]
      cases task with
      | add chl => exact runAdd_valid h hplace
      | disableAll chl => exact runDisableAll_valid h hplace
      | erase chl => exact runErase_valid h hplace
      | user =>
          refine ⟨_, rfl, h.move (fun _ => ?_) nofun ?_ (fun _ _ _ _ => .inl rfl) h.invoked⟩
          · simp [Loop.tasks, hplace, Place.tasks, Task.chl]
          · exact fun chl c hc ht => by simpa [hplace, Place.pass] using (h.fits chl c hc).triggered ht

theorem step_valid (s : Loop) (e : LoopEvent) (h : s.Valid) (hok : s.Allowed e) :
    ∃ s', s.step e = some s' ∧ s'.Valid := by
  cases e with
  | create chl fd => exact ⟨_, rfl, create_valid h hok.1 hok.2⟩
  | setHandler chl t =>
      obtain ⟨c, hc, hlive⟩ := hok
      exact ⟨_, by simp [step, hc], setHandler_valid h hc t hlive⟩
  | add chl =>
      obtain ⟨-, c, hc, hstage⟩ := hok
      refine add_valid h hc (by simp [hstage, Stage.registered]) rfl rfl (fun _ _ => rfl) ?_
      have hpending := (h.fits chl c hc).pending
      rw [hstage] at hpending ⊢
      exact hpending
  | remove chl =>
      obtain ⟨-, c, hc, hstage⟩ := hok
      have hpending : s.tasks.filter (fun task => task.chl = some chl) = [] := by
        simpa [hstage, Stage.pending] using (h.fits chl c hc).pending
      refine ⟨(s.disabled chl c).queue [.erase chl], ?_, ?_⟩
      · simp [step, remove, disableAll_eq hc]
      · have hvalid := disabled_valid s.place (s.functors ++ [.erase chl]) h hc
          (by simp [hstage, Stage.registered]) rfl rfl ?_ ?_
        · unfold disabled at hvalid ⊢
          split at hvalid <;> split <;> first | exact hvalid | contradiction
        · intro other hne
          simp [Loop.tasks, Task.chl, hne.symm]
        · rw [← List.append_assoc, List.filter_append]
          exact (congrArg (· ++ _) hpending).trans (by simp [hstage, Task.chl, Stage.afterDisable, Stage.pending,
            Stage.erasure])
  | enable chl e =>
      obtain ⟨huser, c, hc, hlive⟩ := hok
      exact enable_valid h hc e hlive (.inl huser)
  | disable chl e =>
      obtain ⟨huser, c, hc⟩ := hok
      exact disable_valid h hc e huser
  | queueAdd chl =>
      obtain ⟨c, hc, hstage⟩ := hok
      have hvalid : ((s.set chl { c with stage := .adding }).queue [.add chl]).Valid :=
        enqueue_valid h hc (by simp [Task.chl]) (by simp [hstage, Stage.pending])
          (by simp [hstage, Stage.registered]) (by simp [hstage, Stage.ended])
      exact ⟨_, by simp [step, hc], hvalid⟩
  | queueDisableAll chl =>
      obtain ⟨c, hc, hstage⟩ := hok
      have hvalid : ((s.set chl { c with stage := c.stage.disableQueued }).queue
          [.disableAll chl]).Valid := by
        refine enqueue_valid h hc (by simp [Task.chl]) ?_ ?_ ?_ <;>
          rcases hstage with hstage | hstage <;> rw [hstage] <;> rfl
      exact ⟨_, by simp [step, hc], hvalid⟩
  | queueErase chl =>
      obtain ⟨c, hc, hstage⟩ := hok
      have hvalid : ((s.set chl { c with stage := c.stage.eraseQueued }).queue [.erase chl]).Valid := by
        refine enqueue_valid h hc (by simp [Task.chl]) ?_ ?_ ?_ <;>
          rcases hstage with hstage | hstage | hstage <;> rw [hstage] <;> rfl
      exact ⟨_, by simp [step, hc], hvalid⟩
  | queueUser => exact ⟨_, rfl, queueUser_valid h⟩
  | wait ready => exact wait_valid h hok.1 hok.2
  | next => obtain ⟨rest, hplace⟩ := hok; exact next_valid h hplace
  | test => obtain ⟨chl, left, rest, hplace⟩ := hok; exact test_valid h hplace
  | ret => exact ret_valid h hok.1 hok.2
  | run => obtain ⟨tasks, hplace⟩ := hok; exact run_valid h hplace

theorem run_reaches {events : List LoopEvent} (hrun : AdmissibleM step Allowed init events) :
    ∃ s, events.foldlM step init = some s ∧ s.Valid :=
  foldlM_invariant step_valid init_valid hrun

/-- No handler of a channel is called behind `remove`, unless nothing was enabled when it was
called. -/
theorem called_before_removal {events : List LoopEvent}
    (hrun : AdmissibleM step Allowed init events) :
    ∃ s, events.foldlM step init = some s ∧
      ∀ p ∈ s.invoked, p.1.stage.ended = true → p.1.idle = true := by
  obtain ⟨s, hs, h⟩ := run_reaches hrun
  exact ⟨s, hs, h.invoked⟩

theorem Valid.table (h : s.Valid) :
    ∃ b, s.calls.foldlM PollBase.apply PollBase.init = some b ∧ b.Refines s.interest := by
  have hevents : ∀ change ∈ s.calls, change.events.Nonempty := by
    refine forall_mem_of_admissible (fun m change hobeys => ?_) h.obeyed
    cases change with
    | add fd events => exact hobeys.1
    | remove fd events => exact hobeys.1
  have hstep : ∀ (b : PollBase) (m : Interest Int) (change : Change Int (Finset Event)),
      b.Refines m → change.events.Nonempty →
        ∃ b', b.apply change = some b' ∧ b'.Refines (m.step change) :=
    fun b m change hrefines hchange => PollBase.refines_apply hrefines hchange
  exact foldlM_refines hstep PollBase.refines_init hevents

theorem settled_of_only (chl : Addr) (hothers : ∀ other, other ≠ chl → s.channels other = none)
    (hc : s.channels chl = some c) (hregistered : c.stage.registered = true) : s.Settled := by
  intro other d hd _
  obtain rfl | hne := eq_or_ne other chl
  · exact Option.some.inj (hc.symm.trans hd) ▸ hregistered
  · exact absurd ((hothers other hne).symm.trans hd) nofun

/-- The read handler of a channel removes it with nothing enabled, and the write handler is called. -/
def removesIdle : List LoopEvent :=
  [.create 0 5, .setHandler 0 .read, .setHandler 0 .write, .add 0, .ret, .run,
    .wait [(5, {.read, .write})], .next, .test, .test, .disable 0 .read, .remove 0, .ret, .test]

private theorem removesIdle_admissible : AdmissibleM step Allowed init removesIdle := by
  refine .cons ⟨rfl, nofun⟩ rfl (.cons ⟨_, rfl, rfl⟩ rfl (.cons ⟨_, rfl, rfl⟩ rfl
    (.cons ⟨rfl, _, rfl, rfl⟩ rfl (.cons ⟨rfl, settled_of_only 0 ?_ rfl rfl⟩ rfl
    (.cons ⟨_, rfl⟩ rfl (.cons ⟨rfl, List.forall_mem_singleton.mpr ⟨.read, by decide⟩⟩ rfl
    (.cons ⟨_, rfl⟩ rfl (.cons ⟨_, _, _, rfl⟩ rfl (.cons ⟨_, _, _, rfl⟩ rfl
    (.cons ⟨rfl, _, rfl⟩ rfl (.cons ⟨rfl, _, rfl, rfl⟩ rfl
    (.cons ⟨rfl, settled_of_only 0 ?_ rfl rfl⟩ rfl (.cons ⟨_, _, _, rfl⟩ rfl trivial)))))))))))))
  · intro other hne
    simp [set, call, init, hne]
  · intro other hne
    simp [set, call, queue, init, hne]

theorem called_before_removal_removed :
    ∃ s, removesIdle.foldlM step init = some s ∧
      ∀ p ∈ s.invoked, p.1.stage.ended = true → p.1.idle = true :=
  called_before_removal removesIdle_admissible

example : (removesIdle.foldlM step init).map (·.invoked.map fun p => (p.2, p.1.stage.ended)) =
    some [(.read, false), (.write, true)] := rfl

/-- An event enabled behind `remove` is watched when the channel is gone, and `search_channel` gives
a null pointer. -/
example : [.create 0 5, .add 0, .remove 0, .enable 0 .write, .ret, .run, .wait [], .ret, .run,
    .run, .wait [(5, {.write})]].foldlM step init = none := rfl

end Loop

end Angel.Channels
