import Angel.Lib.Run
import Mathlib.Algebra.GroupWithZero.Nat
import Mathlib.Data.List.Perm.Basic
import Mathlib.Data.List.Flatten
import Mathlib.Tactic.Common

/-!
`thread_pool` of `thread_pool.h`. What a thread does under the mutex is one step,
and so is the call of a task; the steps of the workers, of the callers of `executor`
and of the caller of `shutdown` come in any order. A worker in `condvar.wait` may
come out of it at any time.
-/

namespace Angel.ThreadPool

open Lib
open scoped List

inductive Policy where
  | fixed
  | cached
  deriving DecidableEq, Repr

/-- `state`. -/
inductive Mode where
  | running
  | shutdown
  | stop
  deriving DecidableEq, Repr

/-- Where a worker is in `thread_func`. -/
inductive Worker (τ : Type) where
  /-- before it takes the mutex for the first time in a pass -/
  | top
  /-- in `condvar.wait` -/
  | waiting (notified : Bool)
  /-- in front of `task()`, or in it -/
  | busy (task : Option τ)
  /-- before it takes the mutex for the second time -/
  | done
  | exited
  deriving DecidableEq, Repr

/-- The pool, with the tasks in the order in which they were put into the queue and
taken from it, and those that have been run. -/
structure Pool (τ : Type) where
  policy : Policy
  state : Mode
  taskQueue : List τ
  workers : List (Worker τ)
  submitted : List τ
  dequeued : List τ
  ran : List τ

inductive Event (τ : Type) where
  /-- `executor` under the mutex -/
  | executor (task : τ)
  /-- `notify_one` reaches this worker -/
  | notifyOne (i : Nat)
  /-- `notify` of `shutdown` under the mutex -/
  | shutdown
  | notifyAll
  /-- a worker up to the end of the first locked block, or to `wait` -/
  | first (i : Nat)
  /-- `task()` returns -/
  | ran (i : Nat)
  /-- a worker in the second locked block -/
  | second (i : Nat)

variable {τ : Type}

/-- A worker makes this step. -/
def Event.ofWorker : Event τ → Bool
  | .first _ | .ran _ | .second _ => true
  | _ => false

/-- The constructor: `nums` workers on their way to the mutex. -/
def init (policy : Policy) (nums : Nat) : Pool τ where
  policy := policy
  state := .running
  taskQueue := []
  workers := List.replicate nums .top
  submitted := []
  dequeued := []
  ran := []

namespace Pool

def addNewWorker (s : Pool τ) : Pool τ := { s with workers := s.workers ++ [.top] }

def executor (task : τ) (s : Pool τ) : Pool τ :=
  let s := if s.policy = .cached ∧ s.taskQueue.length = s.workers.length then s.addNewWorker else s
  { s with taskQueue := s.taskQueue ++ [task], submitted := s.submitted ++ [task] }

/-- The first locked block of `thread_func` from the test of the `while` on. -/
def firstBlock (s : Pool τ) : Worker τ × Pool τ :=
  if s.state = .running ∧ s.taskQueue = [] then (.waiting false, s)
  else if s.state = .stop then (.exited, s)
  else
    match s.taskQueue with
    | [] => (.busy none, s)
    | task :: rest => (.busy (some task), { s with taskQueue := rest, dequeued := s.dequeued ++ [task] })

/-- The second locked block. -/
def secondBlock (s : Pool τ) : Worker τ :=
  if s.state = .shutdown ∧ s.taskQueue = [] then .exited else .top

def setWorker (i : Nat) (w : Worker τ) (s : Pool τ) : Pool τ :=
  { s with workers := s.workers.set i w }

def notifyWorker : Worker τ → Worker τ
  | .waiting _ => .waiting true
  | w => w

def step (s : Pool τ) : Event τ → Pool τ
  | .executor task => s.executor task
  | .notifyOne i => { s with workers := s.workers.modify i notifyWorker }
  | .shutdown => { s with state := .shutdown }
  | .notifyAll => { s with workers := s.workers.map notifyWorker }
  | .first i =>
      match s.workers[i]? with
      | some .top => s.firstBlock.2.setWorker i s.firstBlock.1
      | some (.waiting _) => s.firstBlock.2.setWorker i s.firstBlock.1
      | _ => s
  | .ran i =>
      match s.workers[i]? with
      | some (.busy none) => s.setWorker i .done
      | some (.busy (some task)) => { s.setWorker i .done with ran := s.ran ++ [task] }
      | _ => s
  | .second i =>
      match s.workers[i]? with
      | some .done => s.setWorker i s.secondBlock
      | _ => s

/-- `executor` is called, and has its assertions met, before `shutdown` is. A
worker makes its own steps only, and comes out of `wait` whether it has been
notified or not. -/
def Allowed (s : Pool τ) : Event τ → Prop
  | .executor _ => s.state = .running ∧ s.workers ≠ []
  | .shutdown => s.state = .running
  | _ => True

def Reachable (policy : Policy) (nums : Nat) (s : Pool τ) : Prop :=
  ∃ events, Admissible step Allowed (init policy nums) events ∧
    s = run step (init policy nums) events

/-- `shutdown` has returned: it has joined all the workers. -/
def Joined (s : Pool τ) : Prop := s.state = .shutdown ∧ ∀ w ∈ s.workers, w = .exited

/-- The tasks that a worker has taken and not yet run. -/
def inHand : Worker τ → List τ
  | .busy task => task.toList
  | _ => []

/-- What holds between two steps: a task is in the queue, in a worker's hand or
run, and a worker has gone only when no task was left or could come. -/
structure Valid (s : Pool τ) : Prop where
  order : s.submitted = s.dequeued ++ s.taskQueue
  taken : s.dequeued.Perm (s.ran ++ s.workers.flatMap inHand)
  workers : s.workers ≠ []
  mode : s.state ≠ .stop
  exited : .exited ∈ s.workers → s.state = .shutdown ∧ s.taskQueue = []

variable {s : Pool τ} {i : Nat} {w w' : Worker τ}

theorem set_split {l : List (Worker τ)} (h : l[i]? = some w) :
    ∃ front back, l = front ++ w :: back ∧ ∀ w', l.set i w' = front ++ w' :: back := by
  obtain ⟨hi, rfl⟩ := List.getElem?_eq_some_iff.mp h
  refine ⟨l.take i, l.drop (i + 1), ?_, fun w' => List.set_eq_take_append_cons_drop .. |>.trans ?_⟩
  · rw [List.getElem_cons_drop, List.take_append_drop]
  · rw [if_pos hi]

theorem inHand_notifyWorker (w : Worker τ) : inHand (notifyWorker w) = inHand w := by
  cases w <;> rfl

theorem notifyWorker_eq_exited (w : Worker τ) : notifyWorker w = .exited ↔ w = .exited := by
  cases w <;> simp [notifyWorker]

theorem init_valid (policy : Policy) {nums : Nat} (h : 1 ≤ nums) :
    (init policy nums : Pool τ).Valid where
  order := rfl
  taken := by
    have hnone : (List.replicate nums (Worker.top : Worker τ)).flatMap inHand = [] := by
      rw [List.flatMap_eq_nil_iff]
      intro w hw
      rw [List.eq_of_mem_replicate hw]
      rfl
    simp only [init, hnone, List.append_nil, List.Perm.refl]
  workers := by
    rw [init, ne_eq, List.replicate_eq_nil_iff]
    omega
  mode := Mode.noConfusion
  exited := by
    intro hmem
    cases List.eq_of_mem_replicate hmem

theorem executor_valid (h : s.Valid) (hrunning : s.state = .running) (task : τ) :
    (s.executor task).Valid := by
  have hnone : .exited ∉ s.workers := by
    intro hmem
    rw [(h.exited hmem).1] at hrunning
    cases hrunning
  unfold executor
  split
  · refine ⟨?_, ?_, ?_, h.mode, ?_⟩
    · simp only [addNewWorker, h.order, List.append_assoc]
    · simpa [addNewWorker, inHand] using h.taken
    · simp [addNewWorker]
    · intro hmem
      simp [addNewWorker, hnone] at hmem
  · refine ⟨?_, h.taken, h.workers, h.mode, ?_⟩
    · simp only [h.order, List.append_assoc]
    · intro hmem
      exact absurd hmem hnone

/-- A worker that takes no task and runs none changes nothing but its place. -/
theorem setWorker_valid (h : s.Valid) (hw : s.workers[i]? = some w)
    (hhand : inHand w' = inHand w)
    (hexited : w' = .exited → s.state = .shutdown ∧ s.taskQueue = []) :
    (s.setWorker i w').Valid := by
  obtain ⟨front, back, hworkers, hset⟩ := set_split hw
  have htaken := h.taken
  have hgone := h.exited
  rw [hworkers] at htaken hgone
  refine ⟨h.order, ?_, ?_, h.mode, ?_⟩
  · simp only [setWorker, hset, List.flatMap_append, List.flatMap_cons, hhand] at htaken ⊢
    exact htaken
  · simp [setWorker, hset]
  · intro hmem
    simp only [setWorker, hset, List.mem_append, List.mem_cons] at hmem hgone
    rcases hmem with hfront | hself | hback
    · exact hgone (.inl hfront)
    · exact hexited hself.symm
    · exact hgone (.inr (.inr hback))

private theorem take_valid (h : s.Valid) (hw : s.workers[i]? = some w) (hhand : inHand w = [])
    {task : τ}
    {rest : List τ} (hqueue : s.taskQueue = task :: rest) :
    ({ s with taskQueue := rest, dequeued := s.dequeued ++ [task] }.setWorker i
      (.busy (some task))).Valid := by
  obtain ⟨front, back, hworkers, hset⟩ := set_split hw
  have htaken := h.taken
  have hgone := h.exited
  rw [hworkers] at htaken hgone
  simp only [List.flatMap_append, List.flatMap_cons, hhand, List.nil_append] at htaken
  refine ⟨?_, ?_, ?_, h.mode, ?_⟩
  · simp only [setWorker, h.order, hqueue, List.append_assoc, List.singleton_append]
  · simp only [setWorker, hset, List.flatMap_append, List.flatMap_cons, inHand, Option.toList_some,
      List.singleton_append]
    calc s.dequeued ++ [task] ~ task :: s.dequeued := List.perm_append_singleton task s.dequeued
      _ ~ task :: (s.ran ++ (front.flatMap inHand ++ back.flatMap inHand)) := htaken.cons task
      _ ~ s.ran ++ (front.flatMap inHand ++ task :: back.flatMap inHand) := by
        rw [← List.append_assoc, ← List.append_assoc]
        exact List.perm_middle.symm
  · simp [setWorker, hset]
  · intro hmem
    simp only [setWorker, hset, List.mem_append, List.mem_cons, reduceCtorEq, false_or] at hmem hgone
    have hold : s.taskQueue = [] := by
      rcases hmem with hfront | hback
      · exact (hgone (.inl hfront)).2
      · exact (hgone (.inr (.inr hback))).2
    rw [hqueue] at hold
    cases hold

theorem ran_valid (h : s.Valid) {task : τ} (hw : s.workers[i]? = some (.busy (some task))) :
    { s.setWorker i .done with ran := s.ran ++ [task] }.Valid := by
  obtain ⟨front, back, hworkers, hset⟩ := set_split hw
  have htaken := h.taken
  have hgone := h.exited
  rw [hworkers] at htaken hgone
  simp only [List.flatMap_append, List.flatMap_cons, inHand, Option.toList_some,
    List.singleton_append] at htaken
  refine ⟨h.order, ?_, ?_, h.mode, ?_⟩
  · simp only [setWorker, hset, List.flatMap_append, List.flatMap_cons, inHand, List.nil_append]
    calc s.dequeued ~ s.ran ++ (front.flatMap inHand ++ task :: back.flatMap inHand) := htaken
      _ ~ s.ran ++ (task :: (front.flatMap inHand ++ back.flatMap inHand)) :=
        List.perm_middle.append_left s.ran
      _ = s.ran ++ [task] ++ (front.flatMap inHand ++ back.flatMap inHand) := by
        rw [List.append_assoc, List.singleton_append]
  · simp [setWorker, hset]
  · intro hmem
    simp only [setWorker, hset, List.mem_append, List.mem_cons, reduceCtorEq, false_or] at hmem hgone
    rcases hmem with hfront | hback
    · exact hgone (.inl hfront)
    · exact hgone (.inr hback)

theorem first_valid (h : s.Valid) (hw : s.workers[i]? = some w) (hhand : inHand w = []) :
    (s.firstBlock.2.setWorker i s.firstBlock.1).Valid := by
  rw [firstBlock]
  split
  · exact setWorker_valid h hw hhand.symm nofun
  rw [if_neg h.mode]
  split
  · exact setWorker_valid h hw hhand.symm nofun
  · rename_i task rest hqueue
    exact take_valid h hw hhand hqueue

theorem second_valid (h : s.Valid) (hw : s.workers[i]? = some .done) :
    (s.setWorker i s.secondBlock).Valid := by
  rw [secondBlock]
  split
  · rename_i hend
    exact setWorker_valid h hw rfl fun _ => hend
  · exact setWorker_valid h hw rfl nofun

private theorem notifyOne_valid (h : s.Valid) (i : Nat) :
    { s with workers := s.workers.modify i notifyWorker }.Valid := by
  cases hw : s.workers[i]? with
  | none =>
      rw [List.modify_eq_self (List.getElem?_eq_none_iff.mp hw)]
      exact h
  | some w =>
      have hmodify : s.workers.modify i notifyWorker = s.workers.set i (notifyWorker w) := by
        rw [List.modify_eq_set_getElem?, hw]
        rfl
      rw [hmodify]
      apply setWorker_valid h hw (inHand_notifyWorker w)
      intro hexited
      apply h.exited
      rw [← (notifyWorker_eq_exited w).mp hexited]
      exact List.mem_of_getElem? hw

private theorem notifyAll_valid (h : s.Valid) :
    { s with workers := s.workers.map notifyWorker }.Valid := by
  refine ⟨h.order, ?_, ?_, h.mode, fun hmem => h.exited ?_⟩
  · simp only [List.flatMap_map, inHand_notifyWorker]
    exact h.taken
  · rw [ne_eq, List.map_eq_nil_iff]
    exact h.workers
  · obtain ⟨w, hw, heq⟩ := List.mem_map.mp hmem
    rwa [(notifyWorker_eq_exited w).mp heq] at hw

private theorem step_valid (s : Pool τ) (e : Event τ) (h : s.Valid) (hok : s.Allowed e) :
    (s.step e).Valid := by
  cases e with
  | executor task => exact executor_valid h hok.1 task
  | notifyOne i => exact notifyOne_valid h i
  | shutdown =>
      have hrunning : s.state = .running := hok
      refine ⟨h.order, h.taken, h.workers, Mode.noConfusion, fun hmem => ?_⟩
      rw [(h.exited hmem).1] at hrunning
      cases hrunning
  | notifyAll => exact notifyAll_valid h
  | first i =>
      rw [step]
      split
      · rename_i hw
        exact first_valid h hw rfl
      · rename_i hw
        exact first_valid h hw rfl
      · exact h
  | ran i =>
      rw [step]
      split
      · rename_i hw
        exact setWorker_valid h hw rfl nofun
      · rename_i hw
        exact ran_valid h hw
      · exact h
  | second i =>
      rw [step]
      split
      · rename_i hw
        exact second_valid h hw
      · exact h

theorem Reachable.valid {policy : Policy} {nums : Nat} (hnums : 1 ≤ nums)
    (h : s.Reachable policy nums) : s.Valid := by
  obtain ⟨events, hrun, rfl⟩ := h
  exact run_invariant step_valid (init_valid policy hnums) hrun

/-- When `shutdown` returns the queue is empty, the tasks have been taken from it in
the order of their submission, and each has been run once. -/
theorem shutdown_runs_all {policy : Policy} {nums : Nat} (hnums : 1 ≤ nums)
    (h : s.Reachable policy nums) (hjoined : s.Joined) :
    s.taskQueue = [] ∧ s.dequeued = s.submitted ∧ s.ran ~ s.submitted := by
  have hvalid := h.valid hnums
  obtain ⟨w, hw⟩ := List.exists_mem_of_ne_nil s.workers hvalid.workers
  have hempty : s.taskQueue = [] := by
    have hgone := hjoined.2 w hw
    exact (hvalid.exited (hgone ▸ hw)).2
  have horder : s.dequeued = s.submitted := by
    rw [hvalid.order, hempty, List.append_nil]
  have hhands : s.workers.flatMap inHand = [] := by
    rw [List.flatMap_eq_nil_iff]
    intro w hw
    rw [hjoined.2 w hw]
    rfl
  have htaken := hvalid.taken
  rw [hhands, List.append_nil, horder] at htaken
  exact ⟨hempty, horder, htaken.symm⟩

/-- Two tasks for a cached pool of one worker, which gets a second worker. The tasks
are run at the same time and end in the other order. -/
def twoTasks : List (Event Nat) :=
  [.executor 7, .executor 8, .shutdown, .notifyAll, .first 0, .first 1, .ran 1, .ran 0, .second 0,
    .second 1]

theorem shutdown_runs_two :
    (run step (init .cached 1) twoTasks).submitted = [7, 8] ∧
      (run step (init .cached 1) twoTasks).ran ~ [7, 8] := by
  have hreachable : (run step (init .cached 1) twoTasks).Reachable .cached 1 :=
    ⟨twoTasks, by simp [twoTasks, Admissible, Allowed, step, init, executor, addNewWorker], rfl⟩
  have hjoined : (run step (init .cached 1) twoTasks).Joined := ⟨rfl, by decide⟩
  exact ⟨rfl, (shutdown_runs_all (Nat.le_refl 1) hreachable hjoined).2.2⟩

/-- `notify_all` of `shutdown` has been called: nobody waits to be notified. -/
structure Leaving (s : Pool τ) : Prop where
  shutdown : s.state = .shutdown
  awake : .waiting false ∉ s.workers

/-- A worker makes the step that it is at; everything else comes as it is allowed to. -/
def Due (s : Pool τ) : Event τ → Prop
  | .first i => s.workers[i]? = some .top ∨ ∃ notified, s.workers[i]? = some (.waiting notified)
  | .ran i => ∃ task, s.workers[i]? = some (.busy task)
  | .second i => s.workers[i]? = some .done
  | e => s.Allowed e

theorem notifyAll_leaving (h : s.state = .shutdown) : (s.step .notifyAll).Leaving := by
  refine ⟨h, fun hmem => ?_⟩
  obtain ⟨w, _, heq⟩ := List.mem_map.mp hmem
  cases w <;> simp [notifyWorker] at heq

/-- The steps that a worker has before it, by whether the queue is empty. -/
def ahead (empty : Bool) : Worker τ → Nat
  | .top => if empty then 3 else 1
  | .waiting _ => if empty then 3 else 1
  | .busy _ => if empty then 2 else 3
  | .done => if empty then 1 else 2
  | .exited => 0

/-- A bound on the steps of the workers that are left. -/
def rest (s : Pool τ) : Nat :=
  s.taskQueue.length * (3 * s.workers.length + 1) + (s.workers.map (ahead s.taskQueue.isEmpty)).sum

theorem sum_ahead_le (empty : Bool) (ws : List (Worker τ)) :
    (ws.map (ahead empty)).sum ≤ 3 * ws.length := by
  induction ws with
  | nil => simp
  | cons w ws ih =>
      have hw : ahead empty w ≤ 3 := by
        cases w <;> cases empty <;> simp [ahead]
      simp only [List.map_cons, List.sum_cons, List.length_cons]
      omega

theorem setWorker_rest_lt (hw : s.workers[i]? = some w)
    (h : ahead s.taskQueue.isEmpty w' < ahead s.taskQueue.isEmpty w) :
    (s.setWorker i w').rest < s.rest := by
  obtain ⟨front, back, hworkers, hset⟩ := set_split hw
  have hw' := hset w'
  simp only [rest, setWorker, hw']
  rw [hworkers]
  simp only [List.map_append, List.map_cons, List.sum_append, List.sum_cons, List.length_append,
    List.length_cons]
  omega

private theorem take_rest_lt (hw : s.workers[i]? = some w) {task : τ} {tasks dequeued : List τ}
    (hqueue : s.taskQueue = task :: tasks) :
    ({ s with taskQueue := tasks, dequeued := dequeued }.setWorker i w').rest < s.rest := by
  obtain ⟨front, back, hworkers, hset⟩ := set_split hw
  have hlength : (s.workers.set i w').length = s.workers.length := List.length_set
  have hsum := sum_ahead_le tasks.isEmpty (s.workers.set i w')
  rw [hlength] at hsum
  simp only [rest, setWorker, hqueue, hlength, List.length_cons, Nat.succ_mul]
  omega

theorem setWorker_leaving (h : s.Leaving) (i : Nat) (hw : w' ≠ .waiting false) :
    (s.setWorker i w').Leaving := by
  refine ⟨h.shutdown, fun hmem => ?_⟩
  rcases List.mem_or_eq_of_mem_set hmem with hold | hnew
  · exact h.awake hold
  · exact hw hnew.symm

theorem first_step_lt (h : s.Leaving) (hw : s.workers[i]? = some w)
    (hahead : ∀ empty, ahead empty w = if empty then 3 else 1) :
    (s.firstBlock.2.setWorker i s.firstBlock.1).Leaving ∧
      (s.firstBlock.2.setWorker i s.firstBlock.1).rest < s.rest := by
  have hrunning : ¬ (s.state = .running ∧ s.taskQueue = []) := by
    rw [h.shutdown]
    simp
  have hstop : s.state ≠ .stop := by
    rw [h.shutdown]
    simp
  rw [firstBlock, if_neg hrunning, if_neg hstop]
  split
  · rename_i hqueue
    refine ⟨setWorker_leaving h i nofun, setWorker_rest_lt hw ?_⟩
    rw [hahead, hqueue]
    simp [ahead]
  · rename_i task tasks hqueue
    have hbusy : Worker.busy (some task) ≠ .waiting false := nofun
    have hleaving : { s with taskQueue := tasks, dequeued := s.dequeued ++ [task] }.Leaving :=
      ⟨h.shutdown, h.awake⟩
    exact ⟨setWorker_leaving hleaving i hbusy, take_rest_lt hw hqueue⟩

private theorem ran_step_lt (h : s.Leaving) {task : Option τ}
    (hw : s.workers[i]? = some (.busy task)) :
    (s.step (.ran i)).Leaving ∧ (s.step (.ran i)).rest < s.rest := by
  have hlt : (s.setWorker i .done).rest < s.rest := by
    apply setWorker_rest_lt hw
    cases s.taskQueue.isEmpty <;> simp [ahead]
  have hdone : (s.setWorker i .done).Leaving := setWorker_leaving h i nofun
  obtain ⟨hshutdown, hawake⟩ := hdone
  cases task with
  | none =>
      simp only [step, hw]
      exact ⟨⟨hshutdown, hawake⟩, hlt⟩
  | some task =>
      simp only [step, hw]
      exact ⟨⟨hshutdown, hawake⟩, hlt⟩

private theorem second_step_lt (h : s.Leaving) (hw : s.workers[i]? = some .done) :
    (s.setWorker i s.secondBlock).Leaving ∧ (s.setWorker i s.secondBlock).rest < s.rest := by
  rw [secondBlock]
  split
  · rename_i hend
    refine ⟨setWorker_leaving h i nofun, setWorker_rest_lt hw ?_⟩
    rw [hend.2]
    simp [ahead]
  · rename_i hmore
    refine ⟨setWorker_leaving h i nofun, setWorker_rest_lt hw ?_⟩
    have hqueue : s.taskQueue.isEmpty = false := by
      rw [List.isEmpty_eq_false_iff]
      exact fun hnil => hmore ⟨h.shutdown, hnil⟩
    rw [hqueue]
    simp [ahead]

/-- Once `notify_all` has been called every step of a worker brings `join` nearer to its end, and
nothing else puts it off. -/
theorem leaving_step (h : s.Leaving) {e : Event τ} (hdue : s.Due e) :
    (s.step e).Leaving ∧ (s.step e).rest + (if e.ofWorker then 1 else 0) ≤ s.rest := by
  have hworker : ∀ {s' : Pool τ}, s'.Leaving ∧ s'.rest < s.rest →
      s'.Leaving ∧ s'.rest + 1 ≤ s.rest := id
  have hsame : ∀ w ∈ s.workers, notifyWorker w = w := by
    intro w hw
    cases w with
    | waiting notified =>
        cases notified with
        | false => exact absurd hw h.awake
        | true => rfl
    | _ => rfl
  cases e with
  | executor task => exact absurd hdue.1 (by rw [h.shutdown]; simp)
  | shutdown =>
      have hrunning : s.state = .running := hdue
      exact absurd hrunning (by rw [h.shutdown]; simp)
  | notifyOne i =>
      have hnothing : s.step (.notifyOne i) = s := by
        have hmodify : s.workers.modify i notifyWorker = s.workers := by
          refine List.ext_getElem? fun k => ?_
          rw [List.getElem?_modify]
          cases hk : s.workers[k]? with
          | none => rfl
          | some w => simp [hsame w (List.mem_of_getElem? hk)]
        rw [step, hmodify]
      rw [hnothing]
      exact ⟨h, Nat.le_refl _⟩
  | notifyAll =>
      have hnothing : s.step .notifyAll = s := by
        rw [step, List.map_congr_left hsame, List.map_id']
      rw [hnothing]
      exact ⟨h, Nat.le_refl _⟩
  | first i =>
      apply hworker
      rcases hdue with hw | ⟨notified, hw⟩
      · simp only [step, hw]
        exact first_step_lt h hw fun _ => rfl
      · simp only [step, hw]
        exact first_step_lt h hw fun _ => rfl
  | ran i =>
      obtain ⟨task, hw⟩ := hdue
      exact hworker (ran_step_lt h hw)
  | second i =>
      have hw : s.workers[i]? = some .done := hdue
      apply hworker
      simp only [step, hw]
      exact second_step_lt h hw

private theorem leaving_run (h : s.Leaving) {events : List (Event τ)}
    (hrun : Admissible step Due s events) :
    (run step s events).Leaving ∧
      (run step s events).rest + events.countP Event.ofWorker ≤ s.rest := by
  induction events generalizing s with
  | nil => exact ⟨h, Nat.le_refl _⟩
  | cons e events ih =>
      obtain ⟨hleaving, hrest⟩ := leaving_step h hrun.1
      obtain ⟨hend, hle⟩ := ih hleaving hrun.2
      refine ⟨hend, ?_⟩
      rw [run_cons, List.countP_cons]
      omega

private theorem exists_due (h : s.Leaving) (hjoined : ¬ s.Joined) :
    ∃ e : Event τ, e.ofWorker = true ∧ s.Due e := by
  have hleft : ∃ w ∈ s.workers, w ≠ .exited := by
    by_contra hnone
    push Not at hnone
    exact hjoined ⟨h.shutdown, hnone⟩
  obtain ⟨w, hmem, hne⟩ := hleft
  obtain ⟨i, hw⟩ := List.mem_iff_getElem?.mp hmem
  cases w with
  | top => exact ⟨.first i, rfl, .inl hw⟩
  | waiting notified => exact ⟨.first i, rfl, .inr ⟨notified, hw⟩⟩
  | busy task => exact ⟨.ran i, rfl, task, hw⟩
  | done => exact ⟨.second i, rfl, hw⟩
  | exited => exact absurd rfl hne

/-- `shutdown` returns: once it has called `notify_all` the workers make a bounded number of steps,
whichever of them makes the next one, and they have one to make until all of them are joined. -/
theorem shutdown_returns (hshutdown : s.state = .shutdown) (events : List (Event τ))
    (hrun : Admissible step Due (s.step .notifyAll) events) :
    events.countP Event.ofWorker ≤
        s.taskQueue.length * (3 * s.workers.length + 1) + 3 * s.workers.length ∧
      ((run step (s.step .notifyAll) events).Joined ∨
        ∃ e : Event τ, e.ofWorker = true ∧ (run step (s.step .notifyAll) events).Due e) := by
  obtain ⟨hleaving, hle⟩ := leaving_run (notifyAll_leaving hshutdown) hrun
  constructor
  · have hsum := sum_ahead_le s.taskQueue.isEmpty (s.workers.map notifyWorker)
    rw [List.length_map] at hsum
    have hrest : (s.step .notifyAll).rest = s.taskQueue.length * (3 * s.workers.length + 1) +
        ((s.workers.map notifyWorker).map (ahead s.taskQueue.isEmpty)).sum := by
      rw [rest, step, List.length_map]
    omega
  · exact or_iff_not_imp_left.mpr (exists_due hleaving)

/-- Two workers at the mutex and one task in the queue: they make at most 13 steps, and after these
six both have left. -/
theorem shutdown_returns_two :
    let s := run step (init .cached 2) [.executor 7, .shutdown]
    let events := [.first 1, .first 0, .ran 0, .ran 1, .second 1, .second 0]
    events.countP Event.ofWorker ≤ 13 ∧ (run step (s.step .notifyAll) events).Joined := by
  intro s events
  have hrun : Admissible step Due (s.step .notifyAll) events :=
    ⟨.inl rfl, .inl rfl, ⟨none, rfl⟩, ⟨some 7, rfl⟩, rfl, rfl, trivial⟩
  exact ⟨(shutdown_returns rfl events hrun).1, rfl, by decide⟩

end Pool

end Angel.ThreadPool
