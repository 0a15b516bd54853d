import Angel.Connection.Drain

/-!
Whole runs of a connection: the invariant of the three queues, the exactness
of the output stream and what is drained when a connection is closed. Each is
one case analysis of `Conn.step`, lifted to runs by the invariant rule.
-/

namespace Angel.Connection

open Lib

variable {H : Type}

/-- A failed system call, or the peer going away. -/
def Event.Fault : Event H → Prop
  | .send _ _ r => r = .error
  | .sendFile _ r => r = .error
  | .writable w f => w = .error ∨ f = .error
  | .reset => True
  | _ => False

/-- The event is a `send` whose direct write finds the socket not ready. -/
def Event.DirectAgain (c : Conn H) : Event H → Prop
  | .send _ data r => Connection.DirectAgain c data r
  | _ => False

/-- The event is a `close` that finds no data queued, but a completion handler
that has not been called. -/
def Event.CloseEarly (c : Conn H) (e : Event H) : Prop :=
  e = .close ∧ c.sendQueueIsEmpty = true ∧ c.pendingHandlers ≠ []

theorem close_outcome (files : Nat → Bytes) {c : Conn H} {tasks : List (Task H)}
    (h : Open c tasks) (hopen : c.state ≠ .closed) :
    (c.close.state = .closed ∧
      (Exact files c tasks → ¬ Event.close.CloseEarly c → ClosedDrained c.close)) ∨
    (c.close.state ≠ .closed ∧ Open c.close tasks ∧
      (Exact files c tasks → Exact files c.close tasks)) := by
  have hemit : Open (c.emit .close) tasks := h.emit rfl rfl (by simp)
  have hkeep : Exact files c tasks → Exact files (c.emit .close) tasks := by
    intro hexact
    simpa [Exact, Conn.emit, Action.acceptedBytes, Action.submittedBytes] using hexact
  unfold Conn.close
  rcases handleClose_cases files hemit hopen false with
    ⟨hforced | hempty, hclosed, hdrain⟩ | ⟨_, hstate, hopen', hexact'⟩
  · cases hforced
  · left
    refine ⟨hclosed, ?_⟩
    intro hexact hearly
    have hpending : c.pendingHandlers = [] := by
      by_contra hne
      exact hearly ⟨rfl, hempty, hne⟩
    exact hdrain (hkeep hexact) hempty hpending
  · right
    refine ⟨?_, hopen', fun hexact => hexact' (hkeep hexact)⟩
    rw [hstate]
    decide

theorem step_outcome (files : Nat → Bytes) {c : Conn H} {tasks : List (Task H)}
    (h : Open c tasks) (hopen : c.state ≠ .closed) (e : Event H) :
    ((c.step files e).state = .closed ∧
      (Exact files c tasks → ¬ e.Fault → ¬ e.CloseEarly c → ClosedDrained (c.step files e))) ∨
    ((c.step files e).state ≠ .closed ∧ ∃ tasks', Open (c.step files e) tasks' ∧
      (¬ e.DirectAgain c → Exact files c tasks → Exact files (c.step files e) tasks')) := by
  have same : (c.state ≠ .closed ∧ ∃ tasks', Open c tasks' ∧
      (¬ e.DirectAgain c → Exact files c tasks → Exact files c tasks')) :=
    ⟨hopen, tasks, h, fun _ hexact => hexact⟩
  have advance : ∀ {c'}, Advances files c tasks c' → (c'.state ≠ .closed ∧ ∃ tasks',
      Open c' tasks' ∧ (¬ e.DirectAgain c → Exact files c tasks → Exact files c' tasks')) := by
    rintro c' ⟨hstate, tasks', hopen', hexact⟩
    exact ⟨hstate ▸ hopen, tasks', hopen', fun _ => hexact⟩
  cases e with
  | send before data r =>
      rcases sendInLoop_advances files h hopen before data r with
        ⟨hr, hclosed⟩ | ⟨hstate, tasks', hopen', hexact⟩
      · exact Or.inl ⟨hclosed, fun _ hfault => absurd hr hfault⟩
      · exact Or.inr ⟨hstate.symm ▸ hopen, tasks', hopen', hexact⟩
  | sendFile f r =>
      rcases sendFileInLoop_advances files h hopen f r with ⟨hr, hclosed⟩ | hadvance
      · exact Or.inl ⟨hclosed, fun _ hfault => absurd hr hfault⟩
      · exact Or.inr (advance hadvance)
  | setSendCompleteHandler handler =>
      exact Or.inr (advance (setSendCompleteHandler_advances files h handler))
  | close =>
      rcases close_outcome files h hopen with ⟨hclosed, hdrain⟩ | ⟨hstate, hopen', hexact'⟩
      · exact Or.inl ⟨hclosed, fun hexact _ hearly => hdrain hexact hearly⟩
      · exact Or.inr ⟨hstate, tasks, hopen', fun _ => hexact'⟩
  | writable w f =>
      unfold Conn.step
      dsimp only
      by_cases hrunning : c.running = true
      · rw [if_pos hrunning]
        exact Or.inr same
      · rw [if_neg hrunning]
        have hidle : c.running = false := by simpa using hrunning
        rcases handleWrite_advances files h hopen hidle w f with ⟨hclosed, hdrain⟩ | hadvance
        · left
          refine ⟨hclosed, ?_⟩
          intro hexact hfault _
          exact hdrain hexact (fun hw => hfault (Or.inl hw)) (fun hf => hfault (Or.inr hf))
        · exact Or.inr (advance hadvance)
  | handlerReturn =>
      unfold Conn.step
      dsimp only
      by_cases hrunning : c.running = true
      · rw [if_pos hrunning]
        rcases handlerReturn_advances files h hopen hrunning with
          ⟨_, hclosed, hdrain⟩ | hadvance
        · exact Or.inl ⟨hclosed, fun hexact _ _ => hdrain hexact⟩
        · exact Or.inr (advance hadvance)
      · rw [if_neg hrunning]
        exact Or.inr same
  | reset =>
      unfold Conn.step
      dsimp only
      by_cases hrunning : c.running = true
      · rw [if_pos hrunning]
        exact Or.inr same
      · rw [if_neg hrunning]
        rcases handleClose_cases files h hopen true with ⟨_, hclosed, _⟩ | ⟨⟨hforced, _⟩, _⟩
        · exact Or.inl ⟨hclosed, fun _ hfault => absurd trivial hfault⟩
        · cases hforced

theorem step_closed (files : Nat → Bytes) {c : Conn H} (hclosed : c.state = .closed)
    (e : Event H) :
    (c.step files e).state = .closed ∧
      ∃ more, (c.step files e).trace = c.trace ++ more ∧ Action.closed ∉ more := by
  have hnot : c.isClosed = true := by simp [Conn.isClosed, hclosed]
  have same : c.state = .closed ∧ ∃ more, c.trace = c.trace ++ more ∧ Action.closed ∉ more :=
    ⟨hclosed, [], by simp, by simp⟩
  cases e with
  | send before data r => simpa [Conn.step, Conn.sendInLoop, hnot] using same
  | sendFile f r => simpa [Conn.step, Conn.sendFileInLoop, hnot] using same
  | setSendCompleteHandler handler =>
      exact ⟨hclosed, [.register c.sendId handler], rfl, by simp⟩
  | close =>
      have hskip : (c.emit .close).handleClose false = c.emit .close := by
        simp [Conn.handleClose, Conn.isClosed, Conn.emit, hclosed]
      refine ⟨?_, [.close], ?_, by simp⟩
      · change ((c.emit .close).handleClose false).state = .closed
        rw [hskip]
        exact hclosed
      · change ((c.emit .close).handleClose false).trace = c.trace ++ [.close]
        rw [hskip]
        rfl
  | writable w f => simpa [Conn.step, Conn.handleWrite, hnot] using same
  | handlerReturn =>
      unfold Conn.step
      dsimp only
      split
      · simp only [Conn.handlerReturn, Conn.finishWrite, Conn.isClosing, Conn.disableWrite,
          hclosed]
        split <;> simp
      · exact same
  | reset =>
      simpa [Conn.step, Conn.forceCloseConnection, Conn.handleClose, hnot] using same

/-- The invariant of every run: as long as the connection is not closed its
members represent some task list. -/
def Represented (c : Conn H) : Prop := c.state ≠ .closed → ∃ tasks, Open c tasks

theorem represented_step (files : Nat → Bytes) {c : Conn H} (h : Represented c) (e : Event H) :
    Represented (c.step files e) := by
  intro hlive
  by_cases hclosed : c.state = .closed
  · exact absurd (step_closed files hclosed e).1 hlive
  · obtain ⟨tasks, hopen⟩ := h hclosed
    rcases step_outcome files hopen hclosed e with ⟨hstate, _⟩ | ⟨_, tasks', hopen', _⟩
    · exact absurd hstate hlive
    · exact ⟨tasks', hopen'⟩

/-- The send queues are consistent: ids, buffer and write event agree. -/
structure QueueInvariant (c : Conn H) : Prop where
  streamIdsIncreasing : (c.byteStreamQueue.map Prod.fst).Pairwise (· < ·)
  fileIdsIncreasing : (c.sendFileQueue.map Prod.fst).Pairwise (· < ·)
  handlerIdsIncreasing : (c.sendCompleteHandlerQueue.map Prod.fst).Pairwise (· < ·)
  streamFileDisjoint :
    ∀ id ∈ c.byteStreamQueue.map Prod.fst, id ∉ c.sendFileQueue.map Prod.fst
  streamHandlerDisjoint :
    ∀ id ∈ c.byteStreamQueue.map Prod.fst, id ∉ c.sendCompleteHandlerQueue.map Prod.fst
  fileHandlerDisjoint :
    ∀ id ∈ c.sendFileQueue.map Prod.fst, id ∉ c.sendCompleteHandlerQueue.map Prod.fst
  idsComplete : ∀ id,
    (id ∈ c.byteStreamQueue.map Prod.fst ∨ id ∈ c.sendFileQueue.map Prod.fst ∨
      id ∈ c.sendCompleteHandlerQueue.map Prod.fst) ↔ c.nextId ≤ id ∧ id < c.sendId
  buffered : (c.byteStreamQueue.map Prod.snd).sum = c.outputBuf.length
  writing : c.byteStreamQueue ≠ [] ∨ c.sendFileQueue ≠ [] ∨ c.sendCompleteHandlerQueue ≠ [] →
    c.writing = true
  headReady : c.byteStreamQueue ≠ [] ∨ c.sendFileQueue ≠ [] ∨
      c.sendCompleteHandlerQueue ≠ [] →
    c.byteStreamQueue.head?.map Prod.fst = some c.nextId ∨
      c.sendFileQueue.head?.map Prod.fst = some c.nextId ∨
      c.sendCompleteHandlerQueue.head?.map Prod.fst = some c.nextId

theorem stream_lengths_sum (n : Nat) (tasks : List (Task H)) :
    ((lane Task.stream? n tasks).map Prod.snd).sum =
      (tasks.flatMap Task.buffered).length := by
  induction tasks generalizing n with
  | nil => rfl
  | cons t rest ih =>
      cases t with
      | bytes data =>
          rw [lane_cons_some (f := Task.stream?) rfl, List.map_cons, List.sum_cons, ih,
            List.flatMap_cons, List.length_append]
          rfl
      | file f =>
          rw [lane_cons_none (f := Task.stream?) rfl, ih]
          rfl
      | handler x =>
          rw [lane_cons_none (f := Task.stream?) rfl, ih]
          rfl

theorem Task.in_some_lane (t : Task H) :
    t.stream?.isSome ∨ t.file?.isSome ∨ t.handler?.isSome := by
  cases t with
  | bytes data => exact Or.inl rfl
  | file f => exact Or.inr (Or.inl rfl)
  | handler x => exact Or.inr (Or.inr rfl)

theorem Open.ids_complete {c : Conn H} {tasks : List (Task H)} (h : Open c tasks) (id : Nat) :
    (id ∈ c.byteStreamQueue.map Prod.fst ∨ id ∈ c.sendFileQueue.map Prod.fst ∨
      id ∈ c.sendCompleteHandlerQueue.map Prod.fst) ↔ c.nextId ≤ id ∧ id < c.sendId := by
  rw [h.streams, h.sendFiles, h.handlers, h.ids, mem_lane_numbers, mem_lane_numbers,
    mem_lane_numbers]
  constructor
  · rintro (⟨k, t, hget, rfl, _⟩ | ⟨k, t, hget, rfl, _⟩ | ⟨k, t, hget, rfl, _⟩) <;>
    · have := (List.getElem?_eq_some_iff.mp hget).1
      omega
  · rintro ⟨hlow, hhigh⟩
    have hk : id - c.nextId < tasks.length := by omega
    have hid : id = c.nextId + (id - c.nextId) := by omega
    rcases Task.in_some_lane tasks[id - c.nextId] with hlane | hlane | hlane
    · exact Or.inl ⟨_, _, List.getElem?_eq_getElem hk, hid, hlane⟩
    · exact Or.inr (Or.inl ⟨_, _, List.getElem?_eq_getElem hk, hid, hlane⟩)
    · exact Or.inr (Or.inr ⟨_, _, List.getElem?_eq_getElem hk, hid, hlane⟩)

theorem Open.tasks_ne_nil {c : Conn H} {tasks : List (Task H)} (h : Open c tasks)
    (hqueue : c.byteStreamQueue ≠ [] ∨ c.sendFileQueue ≠ [] ∨ c.sendCompleteHandlerQueue ≠ []) :
    tasks ≠ [] := by
  rintro rfl
  have hstreams : c.byteStreamQueue = [] := h.streams
  have hfiles : c.sendFileQueue = [] := h.sendFiles
  have hhandlers : c.sendCompleteHandlerQueue = [] := h.handlers
  simp [hstreams, hfiles, hhandlers] at hqueue

theorem Open.queueInvariant {c : Conn H} {tasks : List (Task H)} (h : Open c tasks) :
    QueueInvariant c where
  streamIdsIncreasing := h.streams ▸ lane_increasing Task.stream? c.nextId tasks
  fileIdsIncreasing := h.sendFiles ▸ lane_increasing Task.file? c.nextId tasks
  handlerIdsIncreasing := h.handlers ▸ lane_increasing Task.handler? c.nextId tasks
  streamFileDisjoint := by
    intro id hid
    rw [h.streams] at hid
    rw [h.sendFiles]
    refine lanes_disjoint ?_ hid
    intro t ht
    cases t with
    | bytes data => rfl
    | file f => simp [Task.stream?] at ht
    | handler x => rfl
  streamHandlerDisjoint := by
    intro id hid
    rw [h.streams] at hid
    rw [h.handlers]
    refine lanes_disjoint ?_ hid
    intro t ht
    cases t with
    | bytes data => rfl
    | file f => rfl
    | handler x => simp [Task.stream?] at ht
  fileHandlerDisjoint := by
    intro id hid
    rw [h.sendFiles] at hid
    rw [h.handlers]
    refine lanes_disjoint ?_ hid
    intro t ht
    cases t with
    | bytes data => rfl
    | file f => rfl
    | handler x => simp [Task.file?] at ht
  idsComplete := h.ids_complete
  buffered := by rw [h.streams, h.buffer, stream_lengths_sum]
  writing := fun hqueue => h.write (h.tasks_ne_nil hqueue)
  headReady := by
    intro hqueue
    have hne := h.tasks_ne_nil hqueue
    obtain ⟨t, rest, rfl⟩ := List.exists_cons_of_ne_nil hne
    rw [h.streams, h.sendFiles, h.handlers]
    cases t with
    | bytes data => exact Or.inl rfl
    | file f => exact Or.inr (Or.inl rfl)
    | handler x => exact Or.inr (Or.inr rfl)

/-- The queue invariant holds in every state of every run, inside completion
handlers too, until the connection is closed. -/
theorem send_queues_consistent (files : Nat → Bytes) (mark : Nat) (markHandler : Bool)
    (timer : Nat) (events : List (Event H))
    (hlive : (run (Conn.step files) (Conn.init mark markHandler timer) events).state ≠
      .closed) :
    QueueInvariant (run (Conn.step files) (Conn.init mark markHandler timer) events) := by
  have hrepresented : Represented
      (run (Conn.step files) (Conn.init mark markHandler timer : Conn H) events) := by
    have hstart : Represented (Conn.init mark markHandler timer : Conn H) :=
      fun _ => ⟨[], Open.init mark markHandler timer⟩
    have hstep : ∀ (c : Conn H) (e : Event H), Represented c → True →
        Represented (c.step files e) := fun c e h _ => represented_step files h e
    exact run_invariant hstep hstart (admissible_true _ _ events)
  obtain ⟨tasks, hopen⟩ := hrepresented hlive
  exact hopen.queueInvariant

/-- A run that stops inside a completion handler, with all three queues in use. -/
theorem send_queues_consistent_in_handler :
    QueueInvariant (run (Conn.step (fun _ => [1, 2, 3])) (Conn.init 0 false 0 : Conn Unit)
      [.setSendCompleteHandler (), .send 0 [7, 8] (.sent 2), .sendFile ⟨3, 0, 3⟩ .again,
        .writable .again .again]) :=
  send_queues_consistent (fun _ => [1, 2, 3]) 0 false 0 _ (by decide)

/-- The head of a queue if it carries `id`, with the queue behind it. -/
def popHead {α : Type} (id : Nat) : List (Nat × α) → Option (α × List (Nat × α))
  | (i, x) :: more => if i = id then some (x, more) else none
  | [] => none

/-- The bytes behind the next `count` ids from `id` on, in id order, read off
the two data queues and the output buffer. -/
def pendingBytes (files : Nat → Bytes) : (count id : Nat) → List (Nat × Nat) →
    List (Nat × File) → Bytes → Bytes
  | 0, _, _, _, _ => []
  | count + 1, id, streams, sendFiles, buf =>
      match popHead id streams with
      | some (len, more) =>
          buf.take len ++ pendingBytes files count (id + 1) more sendFiles (buf.drop len)
      | none =>
          match popHead id sendFiles with
          | some (f, more) => f.slice files ++ pendingBytes files count (id + 1) streams more buf
          | none => pendingBytes files count (id + 1) streams sendFiles buf

/-- The bytes a connection has still to hand to the socket. -/
def Conn.queuedBytes (files : Nat → Bytes) (c : Conn H) : Bytes :=
  pendingBytes files (c.sendId - c.nextId) c.nextId c.byteStreamQueue c.sendFileQueue
    c.outputBuf

private theorem popHead_lane_some {α : Type} {f : Task H → Option α} {t : Task H} {x : α}
    (h : f t = some x) (n : Nat) (rest : List (Task H)) :
    popHead n (lane f n (t :: rest)) = some (x, lane f (n + 1) rest) := by
  rw [lane_cons_some h, popHead, if_pos rfl]

private theorem popHead_lane_none {α : Type} {f : Task H → Option α} {t : Task H}
    (h : f t = none) (n : Nat) (rest : List (Task H)) :
    popHead n (lane f n (t :: rest)) = none := by
  cases hlane : lane f n (t :: rest) with
  | nil => rfl
  | cons p more => rw [popHead, if_neg (lane_cons_none_head h hlane)]

private theorem pendingBytes_lanes (files : Nat → Bytes) (n : Nat) (tasks : List (Task H)) :
    pendingBytes files tasks.length n (lane Task.stream? n tasks) (lane Task.file? n tasks)
      (tasks.flatMap Task.buffered) = tasks.flatMap (Task.payload files) := by
  induction tasks generalizing n with
  | nil => rfl
  | cons t rest ih =>
      rw [List.length_cons, pendingBytes]
      cases t with
      | bytes data =>
          rw [popHead_lane_some (f := Task.stream?) rfl,
            lane_cons_none (f := Task.file?) rfl]
          simp [Task.buffered, Task.payload, ih]
      | file f =>
          rw [popHead_lane_none (f := Task.stream?) rfl,
            popHead_lane_some (f := Task.file?) rfl, lane_cons_none (f := Task.stream?) rfl]
          simp [Task.buffered, Task.payload, ih]
      | handler x =>
          rw [popHead_lane_none (f := Task.stream?) rfl,
            popHead_lane_none (f := Task.file?) rfl, lane_cons_none (f := Task.stream?) rfl,
            lane_cons_none (f := Task.file?) rfl]
          simp [Task.buffered, Task.payload, ih]

theorem Open.queuedBytes_eq {c : Conn H} {tasks : List (Task H)} (h : Open c tasks)
    (files : Nat → Bytes) : c.queuedBytes files = tasks.flatMap (Task.payload files) := by
  have hcount : c.sendId - c.nextId = tasks.length := by
    rw [h.ids]
    omega
  rw [Conn.queuedBytes, hcount, h.streams, h.sendFiles, h.buffer]
  exact pendingBytes_lanes files c.nextId tasks

/-- While the connection is not closed, some task list represents it exactly. -/
def ExactlyRepresented (files : Nat → Bytes) (c : Conn H) : Prop :=
  c.state ≠ .closed → ∃ tasks, Open c tasks ∧ Exact files c tasks

theorem exactlyRepresented_init (files : Nat → Bytes) (mark : Nat) (markHandler : Bool)
    (timer : Nat) : ExactlyRepresented files (Conn.init mark markHandler timer : Conn H) :=
  fun _ => ⟨[], Open.init mark markHandler timer, rfl⟩

theorem exactlyRepresented_step (files : Nat → Bytes) {c : Conn H} {e : Event H}
    (h : ExactlyRepresented files c) (hok : ¬ e.DirectAgain c) :
    ExactlyRepresented files (c.step files e) := by
  intro hlive
  by_cases hclosed : c.state = .closed
  · exact absurd (step_closed files hclosed e).1 hlive
  · obtain ⟨tasks, hopen, hexact⟩ := h hclosed
    rcases step_outcome files hopen hclosed e with ⟨hstate, _⟩ | ⟨_, tasks', hopen', hexact'⟩
    · exact absurd hstate hlive
    · exact ⟨tasks', hopen', hexact' hok hexact⟩

/-- The socket has accepted a prefix of what was submitted, and what is queued
is the rest of it. -/
def OutputExact (files : Nat → Bytes) (c : Conn H) : Prop :=
  accepted c.trace <+: submitted c.trace ∧
    accepted c.trace ++ c.queuedBytes files = submitted c.trace

theorem Open.outputExact {files : Nat → Bytes} {c : Conn H} {tasks : List (Task H)}
    (h : Open c tasks) (hexact : Exact files c tasks) : OutputExact files c := by
  have hstream : accepted c.trace ++ c.queuedBytes files = submitted c.trace := by
    rw [h.queuedBytes_eq files]
    exact hexact
  exact ⟨⟨_, hstream⟩, hstream⟩

/-- The output stream is exact in every run in which no direct write finds the
socket unready. -/
theorem output_stream_exact (files : Nat → Bytes) (mark : Nat) (markHandler : Bool)
    (timer : Nat) (events : List (Event H))
    (hrun : Admissible (Conn.step files) (fun c e => ¬ Event.DirectAgain c e)
      (Conn.init mark markHandler timer) events)
    (hlive : (run (Conn.step files) (Conn.init mark markHandler timer) events).state ≠
      .closed) :
    OutputExact files (run (Conn.step files) (Conn.init mark markHandler timer) events) := by
  have hstep : ∀ (c : Conn H) (e : Event H), ExactlyRepresented files c →
      ¬ e.DirectAgain c → ExactlyRepresented files (c.step files e) :=
    fun _ _ h hok => exactlyRepresented_step files h hok
  obtain ⟨tasks, hopen, hexact⟩ :=
    run_invariant hstep (exactlyRepresented_init files mark markHandler timer) hrun hlive
  exact hopen.outputExact hexact

/-- A short direct write, a file behind it and one writable event. -/
theorem output_stream_exact_after_short_write :
    OutputExact (fun _ => [1, 2, 3]) (run (Conn.step (fun _ => [1, 2, 3]))
      (Conn.init 0 false 0 : Conn Unit)
      [.send 0 [7, 8] (.sent 1), .sendFile ⟨3, 1, 2⟩ .again, .writable (.sent 1) (.sent 1)]) :=
  output_stream_exact (fun _ => [1, 2, 3]) 0 false 0 _
    ⟨by simp [Event.DirectAgain, DirectAgain], by simp [Event.DirectAgain],
      by simp [Event.DirectAgain], trivial⟩ (by decide)

/-- When the direct write of one byte finds the socket unready, the byte in
front of the argument is queued in its place. -/
theorem output_stream_wrong_after_again :
    ¬ OutputExact (fun _ => []) (run (Conn.step (fun _ => []))
      (Conn.init 0 false 0 : Conn Unit) [.send 0 [97] .again]) := by
  rintro ⟨_, hstream⟩
  exact absurd hstream (by decide)

/-- Before the connection enters `Closed`, everything submitted has been
accepted and every handler registered before a `close()` has been called. -/
def DrainsBeforeClosed (trace : List (Action H)) : Prop :=
  ∀ before after, trace = before ++ .closed :: after →
    ∀ early late, before = early ++ .close :: late →
      accepted before = submitted before ∧ ∀ id ∈ registered early, id ∈ invoked before

/-- The run is still going on, or it was closed once and drained. -/
def DrainState (files : Nat → Bytes) (c : Conn H) : Prop :=
  (c.state ≠ .closed ∧ ∃ tasks, Open c tasks ∧ Exact files c tasks) ∨
  (c.state = .closed ∧ ∃ before after, c.trace = before ++ .closed :: after ∧
    Action.closed ∉ before ∧ Action.closed ∉ after ∧ Drained before)

/-- The steps for which closing is graceful. -/
def Graceful (c : Conn H) (e : Event H) : Prop :=
  ¬ e.Fault ∧ ¬ e.DirectAgain c ∧ ¬ e.CloseEarly c

theorem drainState_step (files : Nat → Bytes) {c : Conn H} {e : Event H}
    (h : DrainState files c) (hok : Graceful c e) : DrainState files (c.step files e) := by
  rcases h with ⟨hlive, tasks, hopen, hexact⟩ | ⟨hclosed, before, after, htrace, hb, ha, hdrained⟩
  · rcases step_outcome files hopen hlive e with
      ⟨_, hdrain⟩ | ⟨hlive', tasks', hopen', hexact'⟩
    · right
      obtain ⟨hstate, trace, htrace, hnew, hdrained⟩ := hdrain hexact hok.1 hok.2.2
      exact ⟨hstate, trace, [], htrace, hnew, by simp, hdrained⟩
    · exact Or.inl ⟨hlive', tasks', hopen', hexact' hok.2.1 hexact⟩
  · right
    obtain ⟨hstate, more, htrace', hmore⟩ := step_closed files hclosed e
    refine ⟨hstate, before, after ++ more, ?_, hb, ?_, hdrained⟩
    · simp [htrace', htrace]
    · simp [ha, hmore]

private theorem split_at_closed {p q p' q' : List (Action H)}
    (h : p ++ .closed :: q = p' ++ .closed :: q') (hp : Action.closed ∉ p)
    (hq : Action.closed ∉ q) : p' = p := by
  rcases List.append_eq_append_iff.mp h with ⟨mid, hp', hmid⟩ | ⟨mid, hp', hmid⟩
  · cases mid with
    | nil => simpa using hp'
    | cons a mid =>
        obtain ⟨_, rfl⟩ := List.cons.inj hmid
        exact absurd (by simp) hq
  · cases mid with
    | nil => simpa using hp'.symm
    | cons a mid =>
        obtain ⟨rfl, _⟩ := List.cons.inj hmid
        exact absurd (by simp [hp']) hp

theorem DrainState.drainsBeforeClosed {files : Nat → Bytes} {c : Conn H}
    (h : DrainState files c) : DrainsBeforeClosed c.trace := by
  intro before after htrace early late hbefore
  rcases h with ⟨_, tasks, hopen, _⟩ | ⟨_, first, second, hfirst, hb, ha, hdrained⟩
  · exact absurd (by simp [htrace]) hopen.notClosed
  · have hsame : before = first := split_at_closed (hfirst.symm.trans htrace) hb ha
    subst hsame
    refine ⟨hdrained.1, ?_⟩
    intro id hid
    rw [← hdrained.2, hbefore, registered_append]
    exact List.mem_append_left _ hid

/-- Graceful close over runs without a fault in which no `close` meets an
uncalled handler alone and no direct write finds the socket unready. -/
theorem graceful_close_drains (files : Nat → Bytes) (mark : Nat) (markHandler : Bool)
    (timer : Nat) (events : List (Event H))
    (hrun : Admissible (Conn.step files) Graceful (Conn.init mark markHandler timer) events) :
    DrainsBeforeClosed
      (run (Conn.step files) (Conn.init mark markHandler timer) events).trace := by
  have hstart : DrainState files (Conn.init mark markHandler timer : Conn H) :=
    Or.inl ⟨by simp [Conn.init], [], Open.init mark markHandler timer, rfl⟩
  have hstep : ∀ (c : Conn H) (e : Event H), DrainState files c → Graceful c e →
      DrainState files (c.step files e) := fun _ _ h hok => drainState_step files h hok
  exact (run_invariant hstep hstart hrun).drainsBeforeClosed

/-- A close that waits for a queued byte and for the handler behind it. -/
theorem graceful_close_drains_queued :
    DrainsBeforeClosed (run (Conn.step (fun _ => [])) (Conn.init 0 false 0 : Conn Unit)
      [.send 0 [7, 8] (.sent 1), .setSendCompleteHandler (), .close,
        .writable (.sent 1) .again, .handlerReturn]).trace := by
  refine graceful_close_drains (fun _ => []) 0 false 0 _ ⟨?_, ?_, ?_, ?_, ?_, trivial⟩
  · simp [Graceful, Event.Fault, Event.DirectAgain, DirectAgain, Event.CloseEarly]
  · simp [Graceful, Event.Fault, Event.DirectAgain, Event.CloseEarly]
  · refine ⟨by simp [Event.Fault], by simp [Event.DirectAgain], ?_⟩
    rintro ⟨_, hempty, _⟩
    exact absurd hempty (by decide)
  · simp [Graceful, Event.Fault, Event.DirectAgain, Event.CloseEarly]
  · simp [Graceful, Event.Fault, Event.DirectAgain, Event.CloseEarly]

/-- A file that was sent at once, the handler that closes it and `close()`: the
connection is closed and the handler never called. -/
theorem graceful_close_forgets_handler :
    ¬ DrainsBeforeClosed (run (Conn.step (fun _ => [5])) (Conn.init 0 false 0 : Conn Unit)
      [.sendFile ⟨3, 0, 1⟩ (.sent 1), .setSendCompleteHandler (), .close]).trace := by
  intro h
  obtain ⟨_, hinvoked⟩ := h
    [.submit [5], .accept [5], .register 1 (), .close] [] (by decide)
    [.submit [5], .accept [5], .register 1 ()] [] rfl
  exact absurd (hinvoked 1 (by decide)) (by decide)

end Angel.Connection
