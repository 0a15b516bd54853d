import Angel.Lib.Run
import Mathlib.Algebra.GroupWithZero.Nat
import Mathlib.Algebra.Ring.Int.Defs
import Mathlib.Logic.Function.Basic

/-!
`timer_t` of `timer.cc`: the tasks ordered by expiry, the same tasks by id, and
the loop of `tick`. `tick` calls a user callback in its middle and is cut there:
`detach` goes up to the call, the callback's own calls are the events that follow,
and `renew` is what comes after it.
-/

namespace Angel

variable {κ : Type}

/-- `timer_task_t`; `expire` and `interval` are milliseconds in `int64_t`, and `κ` is the type of
the callbacks. -/
structure TimerTask (κ : Type) where
  id : Nat
  expire : Int
  interval : Int
  timerCb : κ
  deriving DecidableEq, Repr

/-- The two containers of `timer_t`. `timerSet` is the multiset in its order,
equal keys in the order of insertion. -/
structure Timer (κ : Type) where
  timerSet : List (TimerTask κ)
  timerMap : Nat → Option (TimerTask κ)

namespace Timer

def init : Timer κ where
  timerSet := []
  timerMap := fun _ => none

/-- `timer_set.emplace`: in front of the first task that expires later. -/
def emplaceSet (task : TimerTask κ) : List (TimerTask κ) → List (TimerTask κ)
  | [] => [task]
  | t :: ts => if task.expire < t.expire then task :: t :: ts else t :: emplaceSet task ts

/-- `timer_map.emplace`: a key that is there keeps its task. -/
def emplaceMap (task : TimerTask κ) (timerMap : Nat → Option (TimerTask κ)) : Nat → Option (TimerTask κ) :=
  match timerMap task.id with
  | none => Function.update timerMap task.id (some task)
  | some _ => timerMap

def addTimerInLoop (task : TimerTask κ) (t : Timer κ) : Timer κ where
  timerSet := emplaceSet task t.timerSet
  timerMap := emplaceMap task t.timerMap

/-- `timer_set.equal_range`: what is in front of the range, and what starts with
it. -/
def lowerBound (expire : Int) (timerSet : List (TimerTask κ)) : List (TimerTask κ) × List (TimerTask κ) :=
  timerSet.span fun t => t.expire < expire

/-- The range itself, and what is behind it. -/
def upperBound (expire : Int) (timerSet : List (TimerTask κ)) : List (TimerTask κ) × List (TimerTask κ) :=
  timerSet.span fun t => ¬ expire < t.expire

def cancelTimerInLoop (id : Nat) (t : Timer κ) : Timer κ :=
  match t.timerMap id with
  | none => t
  | some task =>
      let (front, rest) := lowerBound task.expire t.timerSet
      let (range, back) := upperBound task.expire rest
      if range.any fun t => t.id = id then
        { timerSet := front ++ range.eraseP (fun t => t.id = id) ++ back
          timerMap := Function.update t.timerMap id none }
      else t

def cancelTimer (id : Nat) (t : Timer κ) : Timer κ := if id = 0 then t else t.cancelTimerInLoop id

/-- What a pass of the loop in `tick` comes to. -/
inductive Detached (κ : Type) where
  /-- nothing is due -/
  | done
  /-- `cur` is in neither container any more, and its callback is called -/
  | call (cur : TimerTask κ) (t : Timer κ)
  /-- the end iterator of the map is read -/
  | undefined

/-- A pass of the loop in `tick`, up to the call of the callback. -/
def detach (now : Int) (t : Timer κ) : Detached κ :=
  match t.timerSet with
  | [] => .done
  | cur :: rest =>
      if now < cur.expire then .done
      else
        match t.timerMap cur.id with
        | none => .undefined
        | some _ => .call cur { timerSet := rest, timerMap := Function.update t.timerMap cur.id none }

/-- What an `int64_t` holds of a sum: one that does not fit wraps around. -/
def int64 (n : Int) : Int := n.bmod (2 ^ 64)

theorem int64_eq {n : Int} (hge : -2 ^ 63 ≤ n) (hlt : n < 2 ^ 63) : int64 n = n :=
  Int.bmod_eq_of_le (by omega) (by omega)

/-- The interval timer behind its callback. -/
def renew (cur : TimerTask κ) (t : Timer κ) : Timer κ :=
  if 0 < cur.interval then
    t.addTimerInLoop { cur with expire := int64 (cur.expire + cur.interval) }
  else t

/-- Where the loop thread is. -/
inductive Phase (κ : Type) where
  | outside
  /-- at the head of the loop in `tick` -/
  | ticking (now : Int)
  /-- in the callback of `cur` -/
  | calling (now : Int) (cur : TimerTask κ)
  | undefined

/-- A timer with the ids that have been added to it and the callbacks that have
been invoked. -/
structure State (κ : Type) where
  timer : Timer κ
  phase : Phase κ
  added : List Nat
  invoked : List (TimerTask κ)

inductive Event (κ : Type) where
  | add (task : TimerTask κ)
  | cancel (id : Nat)
  | tick (now : Int)
  /-- a pass of the loop in `tick` -/
  | next
  /-- the callback returns -/
  | ret

namespace State

def init : State κ where
  timer := Timer.init
  phase := .outside
  added := []
  invoked := []

/-- Calls on the timer come from outside `tick` and from callbacks. -/
def Callable (s : State κ) : Prop :=
  match s.phase with
  | .outside => True
  | .calling _ _ => True
  | _ => False

def step (s : State κ) : Event κ → State κ
  | .add task => { s with timer := s.timer.addTimerInLoop task, added := task.id :: s.added }
  | .cancel id => { s with timer := s.timer.cancelTimer id }
  | .tick now => { s with phase := .ticking now }
  | .next =>
      match s.phase with
      | .ticking now =>
          match s.timer.detach now with
          | .done => { s with phase := .outside }
          | .call cur timer =>
              { s with timer := timer, phase := .calling now cur, invoked := s.invoked ++ [cur] }
          | .undefined => { s with phase := .undefined }
      | _ => s
  | .ret =>
      match s.phase with
      | .calling now cur => { s with timer := s.timer.renew cur, phase := .ticking now }
      | _ => s

/-- When an event can happen; ids are fresh, and 0 is not one of them. -/
def Allowed (s : State κ) : Event κ → Prop
  | .add task => s.Callable ∧ task.id ∉ s.added ∧ task.id ≠ 0
  | .cancel _ => s.Callable
  | .tick _ => s.phase = .outside
  | .next => ∃ now, s.phase = .ticking now
  | .ret => ∃ now cur, s.phase = .calling now cur

/-- How often the callback of an id has been invoked. -/
def calls (s : State κ) (id : Nat) : Nat := s.invoked.countP fun task => task.id = id

end State

end Timer

end Angel
