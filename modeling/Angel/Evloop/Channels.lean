import Angel.Dispatcher.Poll
import Angel.Lib.Partial

/-!
The channels of an event loop: `channel.cc`, and what `evloop::run` does with the channels that
are active. The loop owns its channels through `channel_map`. `remove` ends the events of a channel
at once, but the channel itself is destroyed by a functor that runs behind the pass over the active
channels, so that the pointers of the pass stay good.

`handle_event` calls a handler in its middle and is cut there; what the handler does are the events
that follow. Accesses through a pointer that dangles or is null, and asserts that fail, have no
result.
-/

namespace Angel.Channels

open Lib Dispatcher

/-- `event_type`. -/
inductive EventType where
  | read
  | write
  | error
  deriving DecidableEq, Repr

/-- The address of a channel. -/
abbrev Addr := Nat

/-- A functor in the queue of the loop; `user` is one that is none of `channel`'s own. -/
inductive Task where
  | add (chl : Addr)
  | disableAll (chl : Addr)
  | erase (chl : Addr)
  | user
  deriving DecidableEq, Repr

/-- The channel that a functor is about. -/
def Task.chl : Task → Option Addr
  | .add chl => some chl
  | .disableAll chl => some chl
  | .erase chl => some chl
  | .user => none

/-- Which calls a channel has seen, and which of them are still queued. A `remove` off the loop queues
two functors, one after the other; `erasing` tells that the second is queued too. -/
inductive Stage where
  | created
  /-- `add` has been called off the loop -/
  | adding
  /-- and so has `remove`, before `add` was run -/
  | passing (erasing : Bool)
  | added
  /-- `remove` has been called off the loop -/
  | removing (erasing : Bool)
  /-- `disable_all` has been run -/
  | removed (erasing : Bool)
  deriving DecidableEq, Repr

namespace Stage

def erasure (chl : Addr) (erasing : Bool) : List Task := if erasing then [.erase chl] else []

/-- The functors of a channel that are in the queue. -/
def pending (chl : Addr) : Stage → List Task
  | .created => []
  | .adding => [.add chl]
  | .passing erasing => .add chl :: .disableAll chl :: erasure chl erasing
  | .added => []
  | .removing erasing => .disableAll chl :: erasure chl erasing
  | .removed erasing => erasure chl erasing

/-- The channel is in the map of the loop. -/
def registered : Stage → Bool
  | .created => false
  | .adding => false
  | .passing _ => false
  | _ => true

def ended : Stage → Bool
  | .removed _ => true
  | _ => false

/-- The stage behind the body of `add`. -/
def afterAdd : Stage → Stage
  | .passing erasing => .removing erasing
  | _ => .added

/-- The stage behind `disable_all`, which `remove` in the loop thread queues the erasure behind. -/
def afterDisable : Stage → Stage
  | .removing erasing => .removed erasing
  | _ => .removed true

@[simp] theorem registered_afterDisable (stage : Stage) : stage.afterDisable.registered = true := by
  cases stage <;> rfl

/-- `remove` off the loop has queued its first functor, and its second. -/
def disableQueued (stage : Stage) : Stage := if stage.registered then .removing false else .passing false

def eraseQueued : Stage → Stage
  | .passing _ => .passing true
  | .removing _ => .removing true
  | _ => .removed true

end Stage

/-- `channel`, with the stage that its calls have brought it to; `idle` tells that it had no
event enabled when `remove` disabled them. `handlers` are those that are set. -/
structure Channel where
  evfd : Int
  filter : Finset Event
  trigger : Finset EventType
  handlers : Finset EventType
  stage : Stage
  idle : Bool
  deriving DecidableEq

/-- A channel as its constructor leaves it. -/
def Channel.create (fd : Int) : Channel where
  evfd := fd
  filter := ∅
  trigger := ∅
  handlers := ∅
  stage := .created
  idle := false

/-- Where the loop thread is. -/
inductive Place where
  /-- at `dispatcher->wait` -/
  | waiting
  /-- over the active channels, with `rest` to come -/
  | handling (rest : List Addr)
  /-- in `handle_event` of `chl`, with the tests of `left` to come -/
  | triggered (chl : Addr) (left : List EventType) (rest : List Addr)
  /-- in a handler of `chl` -/
  | inHandler (chl : Addr) (left : List EventType) (rest : List Addr)
  /-- in `timer->tick` -/
  | inTimers
  /-- over the functors that have been swapped out -/
  | running (tasks : List Task)
  /-- in a functor of the user -/
  | inFunctor (tasks : List Task)
  deriving DecidableEq, Repr

namespace Place

/-- The channels that the pass over `active_channels` still holds a pointer to. -/
def pass : Place → List Addr
  | .handling rest => rest
  | .triggered chl _ rest => chl :: rest
  | .inHandler chl _ rest => chl :: rest
  | _ => []

def tasks : Place → List Task
  | .running tasks => tasks
  | .inFunctor tasks => tasks
  | _ => []

/-- Code of the user is running. -/
def user : Place → Bool
  | .inHandler _ _ _ => true
  | .inTimers => true
  | .inFunctor _ => true
  | _ => false

end Place

/-- The channels that have not been destroyed, and what the loop knows of them. `calls` are the
calls of its dispatcher; `invoked` are the handlers that were called, each with its channel at
the call. -/
structure Loop where
  channels : Addr → Option Channel
  channelMap : Int → Option Addr
  calls : List (Change Int (Finset Event))
  functors : List Task
  place : Place
  invoked : List (Channel × EventType)

namespace Loop

/-- A loop whose thread is about to set it up. -/
def init : Loop where
  channels := fun _ => none
  channelMap := fun _ => none
  calls := []
  functors := []
  place := .inFunctor []
  invoked := []

/-- The functors that have not been run. -/
def tasks (s : Loop) : List Task := s.place.tasks ++ s.functors

/-- What the dispatcher watches. -/
def interest (s : Loop) : Interest Int := Interest.of s.calls

def set (s : Loop) (chl : Addr) (c : Channel) : Loop :=
  { s with channels := Function.update s.channels chl (some c) }

def call (s : Loop) (change : Change Int (Finset Event)) : Loop :=
  { s with calls := s.calls ++ [change] }

def queue (s : Loop) (tasks : List Task) : Loop := { s with functors := s.functors ++ tasks }

/-- `enable_read` and `enable_write`. -/
def enable (s : Loop) (chl : Addr) (e : Event) : Option Loop := do
  let c ← s.channels chl
  if e ∈ c.filter then some s
  else some ((s.set chl { c with filter := insert e c.filter }).call (.add c.evfd {e}))

/-- `disable_read` and `disable_write`. -/
def disable (s : Loop) (chl : Addr) (e : Event) : Option Loop := do
  let c ← s.channels chl
  if e ∈ c.filter then
    some ((s.set chl { c with filter := c.filter.erase e }).call (.remove c.evfd {e}))
  else some s

/-- `disable_all`, called by `remove`. The handlers stay where nothing is enabled. -/
def disableAll (s : Loop) (chl : Addr) : Option Loop := do
  let c ← s.channels chl
  if c.filter.Nonempty then
    some ((s.set chl { c with filter := ∅, handlers := ∅, stage := c.stage.afterDisable }).call
      (.remove c.evfd c.filter))
  else some (s.set chl { c with stage := c.stage.afterDisable, idle := true })

/-- The body of `add`: the map must not have the descriptor. -/
def add (s : Loop) (chl : Addr) : Option Loop := do
  let c ← s.channels chl
  match s.channelMap c.evfd with
  | some _ => none
  | none =>
      let s := { s with channelMap := Function.update s.channelMap c.evfd (some chl) }
      (s.set chl { c with stage := c.stage.afterAdd }).enable chl .read

/-- `remove` in the loop thread. -/
def remove (s : Loop) (chl : Addr) : Option Loop := do
  let s ← s.disableAll chl
  some (s.queue [.erase chl])

/-- `channel_map.erase(evfd)`: what the map owns under the descriptor is destroyed. -/
def erase (s : Loop) (chl : Addr) : Option Loop := do
  let c ← s.channels chl
  match s.channelMap c.evfd with
  | none => some s
  | some owned =>
      some { s with
        channelMap := Function.update s.channelMap c.evfd none
        channels := Function.update s.channels owned none }

/-- One event that `wait` of the dispatcher reports. `search_channel` gives a null pointer for
a descriptor that the map does not have. The triggers are empty here (`triggers_at_wait`), so
the assignment of some back ends and the disjunction of the others are the same. -/
def report (s : Loop) (fd : Int) (events : Finset EventType) : Option (Loop × Addr) := do
  let chl ← s.channelMap fd
  let c ← s.channels chl
  some (s.set chl { c with trigger := c.trigger ∪ events }, chl)

/-- All the events that `wait` reports; the channels become active in their order. -/
def reports (s : Loop) (active : List Addr) : List (Int × Finset EventType) → Option (Loop × List Addr)
  | [] => some (s, active)
  | (fd, events) :: ready => do
      let (s, chl) ← s.report fd events
      s.reports (active ++ [chl]) ready

/-- A functor of `do_functors`. -/
def runTask (s : Loop) (left : List Task) : Task → Option Loop
  | .add chl => { s with place := .running left }.add chl
  | .disableAll chl => { s with place := .running left }.disableAll chl
  | .erase chl => { s with place := .running left }.erase chl
  | .user => some { s with place := .inFunctor left }

end Loop

/-- One step of the loop thread, of the user's code in it, or of another thread. -/
inductive LoopEvent where
  /-- `new channel(loop, fd)`, by any thread -/
  | create (chl : Addr) (fd : Int)
  | setHandler (chl : Addr) (t : EventType)
  | add (chl : Addr)
  | remove (chl : Addr)
  | enable (chl : Addr) (e : Event)
  | disable (chl : Addr) (e : Event)
  /-- `add` off the loop -/
  | queueAdd (chl : Addr)
  /-- the first call of `remove` off the loop, and its second -/
  | queueDisableAll (chl : Addr)
  | queueErase (chl : Addr)
  /-- `queue_in_loop`, by any thread -/
  | queueUser
  /-- `wait` returns with these events; the timers come next when there are none -/
  | wait (ready : List (Int × Finset EventType))
  /-- the next active channel, or the swap of `do_functors` behind the last -/
  | next
  /-- the next test of `handle_event` -/
  | test
  /-- code of the user returns -/
  | ret
  /-- the next functor, or the head of the loop behind the last -/
  | run

namespace Loop

def step (s : Loop) : LoopEvent → Option Loop
  | .create chl fd => some (s.set chl (.create fd))
  | .setHandler chl t => do
      let c ← s.channels chl
      some (s.set chl { c with handlers := insert t c.handlers })
  | .add chl => s.add chl
  | .remove chl => s.remove chl
  | .enable chl e => s.enable chl e
  | .disable chl e => s.disable chl e
  | .queueAdd chl => do
      let c ← s.channels chl
      some ((s.set chl { c with stage := .adding }).queue [.add chl])
  | .queueDisableAll chl => do
      let c ← s.channels chl
      some ((s.set chl { c with stage := c.stage.disableQueued }).queue [.disableAll chl])
  | .queueErase chl => do
      let c ← s.channels chl
      some ((s.set chl { c with stage := c.stage.eraseQueued }).queue [.erase chl])
  | .queueUser => some (s.queue [.user])
  | .wait ready => do
      let (s, active) ← s.reports [] ready
      some { s with place := if ready = [] then .inTimers else .handling active }
  | .next =>
      match s.place with
      | .handling (chl :: rest) => do
          let c ← s.channels chl
          some { s with
            place := if c.trigger.Nonempty then .triggered chl [.error, .read, .write] rest
              else .handling rest }
      | .handling [] => some { s with place := .running s.functors, functors := [] }
      | _ => some s
  | .test =>
      match s.place with
      | .triggered chl (t :: left) rest => do
          let c ← s.channels chl
          if t ∈ c.trigger ∧ t ∈ c.handlers then
            some { s with place := .inHandler chl left rest, invoked := s.invoked ++ [(c, t)] }
          else some { s with place := .triggered chl left rest }
      | .triggered chl [] rest => do
          let c ← s.channels chl
          some { s.set chl { c with trigger := ∅ } with place := .handling rest }
      | _ => some s
  | .ret =>
      match s.place with
      | .inHandler chl left rest => some { s with place := .triggered chl left rest }
      | .inTimers => some { s with place := .running s.functors, functors := [] }
      | .inFunctor tasks => some { s with place := .running tasks }
      | _ => some s
  | .run =>
      match s.place with
      | .running (task :: left) => s.runTask left task
      | .running [] => some { s with place := .waiting }
      | _ => some s

/-- The channels that are watched are in the map. -/
def Settled (s : Loop) : Prop :=
  ∀ chl c, s.channels chl = some c → c.filter.Nonempty → c.stage.registered

/-- When an event can happen. A new channel has a descriptor that no other one holds; `add` and
`remove` are called once each, `remove` behind `add`; between them the loop thread enables and
disables events, and a channel that it enables before `add` is added before its code returns.
The dispatcher reports descriptors that it watches. -/
def Allowed (s : Loop) : LoopEvent → Prop
  | .create chl fd =>
      s.channels chl = none ∧ ∀ other c, s.channels other = some c → c.evfd ≠ fd
  | .setHandler chl _ => ∃ c, s.channels chl = some c ∧ c.stage.ended = false
  | .add chl => s.place.user ∧ ∃ c, s.channels chl = some c ∧ c.stage = .created
  | .remove chl => s.place.user ∧ ∃ c, s.channels chl = some c ∧ c.stage = .added
  | .enable chl _ => s.place.user ∧ ∃ c, s.channels chl = some c ∧ c.stage.ended = false
  | .disable chl _ => s.place.user ∧ ∃ c, s.channels chl = some c
  | .queueAdd chl => ∃ c, s.channels chl = some c ∧ c.stage = .created
  | .queueDisableAll chl => ∃ c, s.channels chl = some c ∧ (c.stage = .adding ∨ c.stage = .added)
  | .queueErase chl => ∃ c, s.channels chl = some c ∧
      (c.stage = .passing false ∨ c.stage = .removing false ∨ c.stage = .removed false)
  | .queueUser => True
  | .wait ready => s.place = .waiting ∧ ∀ p ∈ ready, (s.interest p.1).Nonempty
  | .next => ∃ rest, s.place = .handling rest
  | .test => ∃ chl left rest, s.place = .triggered chl left rest
  | .ret => s.place.user ∧ s.Settled
  | .run => ∃ tasks, s.place = .running tasks

end Loop

end Angel.Channels
