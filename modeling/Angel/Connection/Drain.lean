import Angel.Connection.Queue

/-!
How `handle_write` consumes the front of the task list, and how
`handle_close` and the end of `handle_write` leave a drained connection.
-/

namespace Angel.Connection

open Lib

variable {H : Type}

/-- The front task is done: its lane loses its head and the next id moves on. -/
theorem Open.pop {c c' : Conn H} {t : Task H} {rest : List (Task H)} (h : Open c (t :: rest))
    (hstreams : c.byteStreamQueue = lane Task.stream? c.nextId [t] ++ c'.byteStreamQueue)
    (hfiles : c.sendFileQueue = lane Task.file? c.nextId [t] ++ c'.sendFileQueue)
    (hhandlers : c.sendCompleteHandlerQueue =
      lane Task.handler? c.nextId [t] ++ c'.sendCompleteHandlerQueue)
    (hbuffer : c.outputBuf = t.buffered ++ c'.outputBuf)
    (hsend : c'.sendId = c.sendId) (hnext : c'.nextId = c.nextId + 1)
    (hwriting : c'.writing = c.writing) (hrunning : c'.running = false)
    (hpending : c'.pendingHandlers = c.pendingHandlers)
    (hreg : registered c'.trace = registered c.trace)
    (hinv : invoked c'.trace = invoked c.trace) (hclosed : Action.closed ∉ c'.trace) :
    Open c' rest where
  streams := by
    have hlane := h.streams
    rw [hstreams, lane_cons Task.stream? c.nextId t rest] at hlane
    rw [hnext]
    exact List.append_cancel_left hlane
  sendFiles := by
    have hlane := h.sendFiles
    rw [hfiles, lane_cons Task.file? c.nextId t rest] at hlane
    rw [hnext]
    exact List.append_cancel_left hlane
  handlers := by
    have hlane := h.handlers
    rw [hhandlers, lane_cons Task.handler? c.nextId t rest] at hlane
    rw [hnext]
    exact List.append_cancel_left hlane
  buffer := by
    have hbuf := h.buffer
    rw [hbuffer, List.flatMap_cons] at hbuf
    exact List.append_cancel_left hbuf
  ids := by
    have hids := h.ids
    rw [List.length_cons] at hids
    omega
  live := fun x hx => h.live x (List.mem_cons_of_mem t hx)
  write := fun _ => hwriting.trans (h.write (by simp))
  atHandler := by simp [hrunning]
  pending := by rw [hreg, hinv, hpending, h.pending]
  notClosed := hclosed

theorem Open.shrink {c c' : Conn H} {t t' : Task H} {rest : List (Task H)}
    (h : Open c (t :: rest)) (hlive : t'.Live)
    (hstreams : c'.byteStreamQueue =
      lane Task.stream? c.nextId [t'] ++ lane Task.stream? (c.nextId + 1) rest)
    (hfiles : c'.sendFileQueue =
      lane Task.file? c.nextId [t'] ++ lane Task.file? (c.nextId + 1) rest)
    (hhandlers : c'.sendCompleteHandlerQueue =
      lane Task.handler? c.nextId [t'] ++ lane Task.handler? (c.nextId + 1) rest)
    (hbuffer : c'.outputBuf = t'.buffered ++ rest.flatMap Task.buffered)
    (hsend : c'.sendId = c.sendId) (hnext : c'.nextId = c.nextId)
    (hwriting : c'.writing = c.writing) (hrunning : c'.running = false)
    (hpending : c'.pendingHandlers = c.pendingHandlers)
    (hreg : registered c'.trace = registered c.trace)
    (hinv : invoked c'.trace = invoked c.trace) (hclosed : Action.closed ∉ c'.trace) :
    Open c' (t' :: rest) where
  streams := by rw [hstreams, hnext, lane_cons Task.stream? c.nextId t' rest]
  sendFiles := by rw [hfiles, hnext, lane_cons Task.file? c.nextId t' rest]
  handlers := by rw [hhandlers, hnext, lane_cons Task.handler? c.nextId t' rest]
  buffer := by rw [hbuffer, List.flatMap_cons]
  ids := by
    have hids := h.ids
    simp only [List.length_cons] at hids ⊢
    omega
  live := by
    intro x hx
    rcases List.mem_cons.mp hx with rfl | hold
    · exact hlive
    · exact h.live x (List.mem_cons_of_mem t hold)
  write := fun _ => hwriting.trans (h.write (by simp))
  atHandler := by simp [hrunning]
  pending := by rw [hreg, hinv, hpending, h.pending]
  notClosed := hclosed

theorem Open.streamDone {c : Conn H} {data : Bytes} {rest : List (Task H)}
    (h : Open c (.bytes data :: rest)) (hidle : c.running = false) :
    Open { c.emit (.accept data) with
      outputBuf := c.outputBuf.drop data.length
      byteStreamQueue := lane Task.stream? (c.nextId + 1) rest
      nextId := c.nextId + 1 } rest := by
  have hbuf : c.outputBuf = data ++ rest.flatMap Task.buffered := h.buffer
  refine h.pop h.streams ?_ ?_ ?_ rfl rfl rfl hidle rfl ?_ ?_ ?_
  · simp [lane, Task.file?, Conn.emit]
  · simp [lane, Task.handler?, Conn.emit]
  · simp [hbuf, Task.buffered]
  · simp [Conn.emit, Action.registeredId]
  · simp [Conn.emit, Action.invokedId]
  · simp [Conn.emit, h.notClosed]

/-- The socket has taken a part of the byte stream at the front; the rest of
the stream keeps its place. -/
theorem Open.streamLeft {c : Conn H} {data : Bytes} {rest : List (Task H)}
    (h : Open c (.bytes data :: rest)) (hidle : c.running = false) {k : Nat}
    (hk : k < data.length) :
    Open { c.emit (.accept (data.take k)) with
      outputBuf := c.outputBuf.drop k
      byteStreamQueue := (c.nextId, data.length - k) :: lane Task.stream? (c.nextId + 1) rest }
      (.bytes (data.drop k) :: rest) := by
  have hbuf : c.outputBuf = data ++ rest.flatMap Task.buffered := h.buffer
  refine h.shrink ?_ ?_ ?_ ?_ ?_ rfl rfl rfl hidle rfl ?_ ?_ ?_
  · simp only [Task.Live, ne_eq, List.drop_eq_nil_iff]
    omega
  · simp [lane, Task.stream?]
  · simpa [lane, Task.file?, Conn.emit] using h.sendFiles
  · simpa [lane, Task.handler?, Conn.emit] using h.handlers
  · simp [hbuf, Task.buffered, List.drop_append_of_le_length (Nat.le_of_lt hk)]
  · simp [Conn.emit, Action.registeredId]
  · simp [Conn.emit, Action.invokedId]
  · simp [Conn.emit, h.notClosed]

theorem Open.fileDone {c : Conn H} {f : File} {rest : List (Task H)}
    (h : Open c (.file f :: rest)) (hidle : c.running = false) (taken : Bytes) :
    Open { c.emit (.accept taken) with
      sendFileQueue := lane Task.file? (c.nextId + 1) rest
      nextId := c.nextId + 1 } rest := by
  refine h.pop ?_ h.sendFiles ?_ ?_ rfl rfl rfl hidle rfl ?_ ?_ ?_
  · simp [lane, Task.stream?, Conn.emit]
  · simp [lane, Task.handler?, Conn.emit]
  · simp [Task.buffered, Conn.emit]
  · simp [Conn.emit, Action.registeredId]
  · simp [Conn.emit, Action.invokedId]
  · simp [Conn.emit, h.notClosed]

theorem Open.fileLeft {c : Conn H} {f : File} {rest : List (Task H)}
    (h : Open c (.file f :: rest)) (hidle : c.running = false) (taken : Bytes) {f' : File}
    (hlive : 0 < f'.count) :
    Open { c.emit (.accept taken) with
      sendFileQueue := (c.nextId, f') :: lane Task.file? (c.nextId + 1) rest }
      (.file f' :: rest) := by
  refine h.shrink hlive ?_ ?_ ?_ ?_ rfl rfl rfl hidle rfl ?_ ?_ ?_
  · simpa [lane, Task.stream?, Conn.emit] using h.streams
  · simp [lane, Task.file?]
  · simpa [lane, Task.handler?, Conn.emit] using h.handlers
  · simpa [Task.buffered, Conn.emit] using h.buffer
  · simp [Conn.emit, Action.registeredId]
  · simp [Conn.emit, Action.invokedId]
  · simp [Conn.emit, h.notClosed]

theorem writeByteStream_waits {c : Conn H} {tasks : List (Task H)} (h : Open c tasks)
    (hfront : ∀ t ∈ tasks.head?, t.stream? = none) (r : IoResult) :
    c.writeByteStream r = (c, false) := by
  have hstreams := h.streams
  unfold Conn.writeByteStream
  split
  · rfl
  · next id len more hqueue =>
    rw [hqueue] at hstreams
    rcases tasks with _ | ⟨t, rest⟩
    · cases hstreams
    · rw [if_neg (lane_cons_none_head (hfront t rfl) hstreams.symm)]

theorem writeFile_waits (files : Nat → Bytes) {c : Conn H} {tasks : List (Task H)}
    (h : Open c tasks) (hfront : ∀ t ∈ tasks.head?, t.file? = none) (r : IoResult) :
    c.writeFile files r = (c, false) := by
  have hfiles := h.sendFiles
  unfold Conn.writeFile
  split
  · rfl
  · next id f more hqueue =>
    rw [hqueue] at hfiles
    rcases tasks with _ | ⟨t, rest⟩
    · cases hfiles
    · rw [if_neg (lane_cons_none_head (hfront t rfl) hfiles.symm)]

/-- What a part of `handle_write` leaves: it returned, because the write failed
and closed the connection, or the connection has advanced. -/
def WriteOutcome (files : Nat → Bytes) (c : Conn H) (tasks : List (Task H)) (r : IoResult)
    (p : Conn H × Bool) : Prop :=
  (r = .error ∧ p.2 = true ∧ p.1.state = .closed) ∨
    (p.2 = false ∧ p.1.running = false ∧ Advances files c tasks p.1)

theorem WriteOutcome.same (files : Nat → Bytes) {c : Conn H} {tasks : List (Task H)}
    (h : Open c tasks) (hidle : c.running = false) (r : IoResult) :
    WriteOutcome files c tasks r (c, false) :=
  Or.inr ⟨rfl, hidle, rfl, tasks, h, id⟩

theorem writeByteStream_front (files : Nat → Bytes) {c : Conn H} {data : Bytes}
    {rest : List (Task H)} (h : Open c (.bytes data :: rest)) (hopen : c.state ≠ .closed)
    (hidle : c.running = false) (r : IoResult) :
    WriteOutcome files c (.bytes data :: rest) r (c.writeByteStream r) := by
  have hqueue : c.byteStreamQueue =
      (c.nextId, data.length) :: lane Task.stream? (c.nextId + 1) rest := h.streams
  have hfront : c.outputBuf.take data.length = data := by
    rw [h.buffer, List.flatMap_cons]
    exact List.take_left
  unfold Conn.writeByteStream
  rw [hqueue]
  dsimp only
  rw [if_pos rfl, Conn.write, hfront]
  rcases transfer_cases c data r hopen with
    ⟨k, hk, _, hrun⟩ | ⟨rfl, hrun⟩ | ⟨rfl, hclosed, hcode⟩
  · right
    rw [hrun]
    dsimp only
    by_cases hpos : (0 : Int) < k
    · rw [if_pos hpos, Int.toNat_natCast]
      by_cases hlast : data.length - k = 0
      · rw [if_pos hlast, List.take_of_length_le (by omega)]
        have hall : k = data.length := by omega
        subst hall
        exact ⟨rfl, hidle, rfl, rest, h.streamDone hidle, fun hexact => hexact.accept rfl rfl⟩
      · rw [if_neg hlast]
        refine ⟨rfl, hidle, rfl, .bytes (data.drop k) :: rest, h.streamLeft hidle (by omega), ?_⟩
        intro hexact
        refine hexact.accept rfl ?_
        simp only [List.flatMap_cons, Task.payload]
        rw [← List.append_assoc, List.take_append_drop]
    · -- the call took nothing
      rw [if_neg hpos]
      have hzero : k = 0 := by omega
      subst hzero
      exact ⟨by simp, hidle, rfl, .bytes data :: rest, h.emit rfl rfl (by simp),
        fun hexact => hexact.accept rfl rfl⟩
  · rw [hrun]
    exact WriteOutcome.same files h hidle .again
  · left
    simp [hcode, hclosed]

private theorem writeFile_front (files : Nat → Bytes) {c : Conn H} {f : File}
    {rest : List (Task H)} (h : Open c (.file f :: rest)) (hopen : c.state ≠ .closed)
    (hidle : c.running = false) (r : IoResult) :
    WriteOutcome files c (.file f :: rest) r (c.writeFile files r) := by
  have hqueue : c.sendFileQueue = (c.nextId, f) :: lane Task.file? (c.nextId + 1) rest :=
    h.sendFiles
  have hslice : (f.slice files).length ≤ f.count := List.length_take_le _ _
  unfold Conn.writeFile
  rw [hqueue]
  dsimp only
  rw [if_pos rfl, Conn.sendfile]
  rcases transfer_cases c (f.slice files) r hopen with
    ⟨k, hk, _, hrun⟩ | ⟨rfl, hrun⟩ | ⟨rfl, hclosed, hcode⟩
  · right
    rw [hrun]
    dsimp only
    by_cases hpos : (0 : Int) < k
    · rw [if_pos hpos, Int.toNat_natCast]
      by_cases hlast : f.count - k = 0
      · rw [if_pos hlast, List.take_of_length_le (by omega)]
        exact ⟨rfl, hidle, rfl, rest, h.fileDone hidle _, fun hexact => hexact.accept rfl rfl⟩
      · rw [if_neg hlast]
        refine ⟨rfl, hidle, rfl, .file ⟨f.fd, f.offset + k, f.count - k⟩ :: rest,
          h.fileLeft hidle _ (Nat.pos_of_ne_zero hlast), ?_⟩
        intro hexact
        refine hexact.accept rfl ?_
        simp only [List.flatMap_cons, Task.payload, File.slice_advance]
        rw [← List.append_assoc, List.take_append_drop]
    · rw [if_neg hpos]
      have hzero : k = 0 := by omega
      subst hzero
      exact ⟨by simp, hidle, rfl, .file f :: rest, h.emit rfl rfl (by simp),
        fun hexact => hexact.accept rfl rfl⟩
  · rw [hrun]
    exact WriteOutcome.same files h hidle .again
  · left
    simp [hcode, hclosed]

theorem writeByteStream_advances (files : Nat → Bytes) {c : Conn H} {tasks : List (Task H)}
    (h : Open c tasks) (hopen : c.state ≠ .closed) (hidle : c.running = false)
    (r : IoResult) : WriteOutcome files c tasks r (c.writeByteStream r) := by
  rcases tasks with _ | ⟨_ | _ | _, rest⟩
  case cons.bytes data => exact writeByteStream_front files h hopen hidle r
  all_goals
    rw [writeByteStream_waits h (by simp [Task.stream?])]
    exact WriteOutcome.same files h hidle r

theorem writeFile_advances (files : Nat → Bytes) {c : Conn H} {tasks : List (Task H)}
    (h : Open c tasks) (hopen : c.state ≠ .closed) (hidle : c.running = false)
    (r : IoResult) : WriteOutcome files c tasks r (c.writeFile files r) := by
  rcases tasks with _ | ⟨_ | _ | _, rest⟩
  case cons.file f => exact writeFile_front files h hopen hidle r
  all_goals
    rw [writeFile_waits files h (by simp [Task.file?])]
    exact WriteOutcome.same files h hidle r

/-- With both data queues empty only completion handlers are left, and they
carry no bytes. -/
theorem Open.payload_nil {c : Conn H} {tasks : List (Task H)} (h : Open c tasks)
    (hempty : c.sendQueueIsEmpty = true) (files : Nat → Bytes) :
    tasks.flatMap (Task.payload files) = [] := by
  simp only [Conn.sendQueueIsEmpty, Bool.and_eq_true, List.isEmpty_iff] at hempty
  rw [List.flatMap_eq_nil_iff]
  intro t ht
  obtain ⟨k, hk, hget⟩ := List.mem_iff_getElem.mp ht
  have hget' : tasks[k]? = some t := by rw [List.getElem?_eq_getElem hk, hget]
  cases t with
  | handler x => rfl
  | bytes data =>
      have hmem : (c.nextId + k, data.length) ∈ lane Task.stream? c.nextId tasks :=
        mem_lane_iff.mpr ⟨k, _, hget', rfl, rfl⟩
      rw [← h.streams, hempty.1] at hmem
      cases hmem
  | file f =>
      have hmem : (c.nextId + k, f) ∈ lane Task.file? c.nextId tasks :=
        mem_lane_iff.mpr ⟨k, _, hget', rfl, rfl⟩
      rw [← h.sendFiles, hempty.2] at hmem
      cases hmem

theorem Open.tasks_nil_of_empty {c : Conn H} {tasks : List (Task H)} (h : Open c tasks)
    (hempty : c.sendQueueIsEmpty = true) (hhandlers : c.sendCompleteHandlerQueue = []) :
    tasks = [] := by
  simp only [Conn.sendQueueIsEmpty, Bool.and_eq_true, List.isEmpty_iff] at hempty
  rcases tasks with _ | ⟨t, rest⟩
  · rfl
  · have hstreams := h.streams
    have hfiles := h.sendFiles
    have hlane := h.handlers
    rw [hempty.1] at hstreams
    rw [hempty.2] at hfiles
    rw [hhandlers] at hlane
    cases t with
    | bytes data => cases hstreams
    | file f => cases hfiles
    | handler x => cases hlane

/-- Everything submitted has been accepted and every registered handler has
been called. -/
def Drained (trace : List (Action H)) : Prop :=
  accepted trace = submitted trace ∧ registered trace = invoked trace

theorem Open.drained {files : Nat → Bytes} {c : Conn H} {tasks : List (Task H)}
    (h : Open c tasks) (hexact : Exact files c tasks)
    (hempty : c.sendQueueIsEmpty = true) (hpending : c.pendingHandlers = []) :
    Drained c.trace := by
  constructor
  · simpa [Exact, h.payload_nil hempty files] using hexact
  · simpa [hpending] using h.pending

/-- The connection was closed with everything drained: the trace ends in the
close. -/
def ClosedDrained (c' : Conn H) : Prop :=
  c'.state = .closed ∧ ∃ trace, c'.trace = trace ++ [.closed] ∧
    Action.closed ∉ trace ∧ Drained trace

theorem Open.setState {c : Conn H} {tasks : List (Task H)} (h : Open c tasks) (st : State) :
    Open { c with state := st } tasks where
  streams := h.streams
  sendFiles := h.sendFiles
  handlers := h.handlers
  buffer := h.buffer
  ids := h.ids
  live := h.live
  write := h.write
  atHandler := h.atHandler
  pending := h.pending
  notClosed := h.notClosed

theorem Open.cancelTtlTimer {c : Conn H} {tasks : List (Task H)} (h : Open c tasks) :
    Open c.cancelTtlTimer tasks := by
  unfold Conn.cancelTtlTimer
  split
  · exact
      { streams := h.streams
        sendFiles := h.sendFiles
        handlers := h.handlers
        buffer := h.buffer
        ids := h.ids
        live := h.live
        write := h.write
        atHandler := h.atHandler
        pending := (h.emit (a := .cancelTimer c.ttlTimerId) rfl rfl (by simp)).pending
        notClosed := (h.emit (a := .cancelTimer c.ttlTimerId) rfl rfl (by simp)).notClosed }
  · exact h

@[simp] theorem cancelTtlTimer_sendQueueIsEmpty (c : Conn H) :
    c.cancelTtlTimer.sendQueueIsEmpty = c.sendQueueIsEmpty := by
  unfold Conn.cancelTtlTimer
  split <;> rfl

@[simp] theorem cancelTtlTimer_pendingHandlers (c : Conn H) :
    c.cancelTtlTimer.pendingHandlers = c.pendingHandlers := by
  unfold Conn.cancelTtlTimer
  split <;> rfl

theorem Exact.cancelTtlTimer {files : Nat → Bytes} {c : Conn H} {tasks : List (Task H)}
    (h : Exact files c tasks) : Exact files c.cancelTtlTimer tasks := by
  unfold Conn.cancelTtlTimer
  split
  · simpa [Exact, Conn.emit, Action.acceptedBytes, Action.submittedBytes] using h
  · exact h

/-- `handle_close` on an open connection: it closes at once when it is forced
or no data is queued, and is drained when no handler is pending either. -/
theorem handleClose_cases (files : Nat → Bytes) {c : Conn H} {tasks : List (Task H)}
    (h : Open c tasks) (hopen : c.state ≠ .closed) (isForced : Bool) :
    ((isForced = true ∨ c.sendQueueIsEmpty = true) ∧ (c.handleClose isForced).state = .closed ∧
      (Exact files c tasks → c.sendQueueIsEmpty = true → c.pendingHandlers = [] →
        ClosedDrained (c.handleClose isForced))) ∨
    ((isForced = false ∧ c.sendQueueIsEmpty = false) ∧
      (c.handleClose isForced).state = .closing ∧
      Open (c.handleClose isForced) tasks ∧
      (Exact files c tasks → Exact files (c.handleClose isForced) tasks)) := by
  have hnot : c.isClosed = false := by simp [Conn.isClosed, hopen]
  have hcancel := h.cancelTtlTimer
  unfold Conn.handleClose
  rw [hnot, if_neg (by decide)]
  dsimp only
  rw [cancelTtlTimer_sendQueueIsEmpty]
  by_cases hwait : (!isForced && !c.sendQueueIsEmpty) = true
  · right
    rw [if_pos hwait]
    simp only [Bool.and_eq_true, Bool.not_eq_eq_eq_not, Bool.not_true] at hwait
    exact ⟨hwait, rfl, hcancel.setState .closing, fun hexact => hexact.cancelTtlTimer⟩
  · left
    rw [if_neg hwait]
    refine ⟨?_, rfl, ?_⟩
    · cases isForced <;> simp_all
    · intro hexact hempty hpending
      refine ⟨rfl, c.cancelTtlTimer.trace, rfl, hcancel.notClosed, ?_⟩
      exact hcancel.drained hexact.cancelTtlTimer (by simpa using hempty)
        (by simpa using hpending)

/-- The end of `handle_write`. It closes only a closing connection that has
nothing left to do. -/
theorem finishWrite_advances (files : Nat → Bytes) {c : Conn H} {tasks : List (Task H)}
    (h : Open c tasks) (hopen : c.state ≠ .closed) (hidle : c.running = false) :
    (c.state = .closing ∧ c.finishWrite.state = .closed ∧
      (Exact files c tasks → ClosedDrained c.finishWrite)) ∨
    Advances files c tasks c.finishWrite := by
  unfold Conn.finishWrite
  by_cases hdone : (c.sendQueueIsEmpty && c.sendCompleteHandlerQueue.isEmpty) = true
  · rw [if_pos hdone]
    simp only [Bool.and_eq_true, List.isEmpty_iff] at hdone
    have hnil := h.tasks_nil_of_empty hdone.1 hdone.2
    subst hnil
    have hdisabled : Open c.disableWrite [] :=
      { streams := h.streams
        sendFiles := h.sendFiles
        handlers := h.handlers
        buffer := h.buffer
        ids := h.ids
        live := h.live
        write := by simp
        atHandler := h.atHandler
        pending := h.pending
        notClosed := h.notClosed }
    have hpending : c.disableWrite.pendingHandlers = [] := by
      simp [Conn.pendingHandlers, Conn.disableWrite, hidle, hdone.2]
    dsimp only
    by_cases hclosing : c.state = .closing
    · left
      have htest : c.disableWrite.isClosing = true := by
        simp [Conn.isClosing, Conn.disableWrite, hclosing]
      rw [if_pos htest, Conn.forceCloseConnection]
      rcases handleClose_cases files hdisabled hopen true with
        ⟨_, hstate, hdrain⟩ | ⟨⟨hforced, _⟩, _⟩
      · exact ⟨hclosing, hstate, fun hexact => hdrain hexact hdone.1 hpending⟩
      · cases hforced
    · right
      have htest : ¬ c.disableWrite.isClosing = true := by
        simp [Conn.isClosing, Conn.disableWrite, hclosing]
      rw [if_neg htest]
      exact ⟨rfl, [], hdisabled, id⟩
  · rw [if_neg hdone]
    exact Or.inr ⟨rfl, tasks, h, id⟩

theorem Open.handler_front {c : Conn H} {tasks : List (Task H)} (h : Open c tasks)
    {handler : H} {more : List (Nat × H)}
    (hqueue : c.sendCompleteHandlerQueue = (c.nextId, handler) :: more) :
    ∃ rest, tasks = .handler handler :: rest := by
  have hlane := h.handlers.symm.trans hqueue
  rcases tasks with _ | ⟨t, rest⟩
  · cases hlane
  cases t with
  | bytes data =>
      exact absurd rfl (lane_cons_none_head (f := Task.handler?) (x := .bytes data) rfl hlane)
  | file f =>
      exact absurd rfl (lane_cons_none_head (f := Task.handler?) (x := .file f) rfl hlane)
  | handler x =>
      rw [lane_cons_some (f := Task.handler?) (x := .handler x) rfl] at hlane
      simp only [List.cons.injEq, Prod.mk.injEq, true_and] at hlane
      exact ⟨rest, by rw [hlane.1]⟩

/-- Calling the handler at the head marks it as called; it keeps its place
until it returns. -/
theorem callHandler_advances (files : Nat → Bytes) {c : Conn H} {tasks : List (Task H)}
    (h : Open c tasks) (hopen : c.state ≠ .closed) (hidle : c.running = false) :
    (c.state = .closing ∧ c.callHandler.state = .closed ∧
      (Exact files c tasks → ClosedDrained c.callHandler)) ∨
    Advances files c tasks c.callHandler := by
  unfold Conn.callHandler
  split
  · rename_i id handler more hqueue
    by_cases hid : id = c.nextId
    · rw [if_pos hid]
      right
      subst hid
      obtain ⟨rest, rfl⟩ := h.handler_front hqueue
      refine ⟨rfl, .handler handler :: rest, ?_, ?_⟩
      · exact
          { streams := h.streams
            sendFiles := h.sendFiles
            handlers := h.handlers
            buffer := h.buffer
            ids := h.ids
            live := h.live
            write := h.write
            atHandler := fun _ => ⟨handler, rest, rfl⟩
            pending := by
              have hpending := h.pending
              simp only [Conn.pendingHandlers, hidle, hqueue] at hpending
              simpa [Conn.pendingHandlers, Conn.emit, hqueue, Action.registeredId,
                Action.invokedId] using hpending
            notClosed := by simp [Conn.emit, h.notClosed] }
      · intro hexact
        simpa [Exact, Conn.emit, Action.acceptedBytes, Action.submittedBytes] using hexact
    · rw [if_neg hid]
      exact finishWrite_advances files h hopen hidle
  · exact finishWrite_advances files h hopen hidle

theorem handlerReturn_advances (files : Nat → Bytes) {c : Conn H} {tasks : List (Task H)}
    (h : Open c tasks) (hopen : c.state ≠ .closed) (hrunning : c.running = true) :
    (c.state = .closing ∧ c.handlerReturn.state = .closed ∧
      (Exact files c tasks → ClosedDrained c.handlerReturn)) ∨
    Advances files c tasks c.handlerReturn := by
  obtain ⟨x, rest, rfl⟩ := h.atHandler hrunning
  have hqueue : c.sendCompleteHandlerQueue =
      (c.nextId, x) :: lane Task.handler? (c.nextId + 1) rest := h.handlers
  have hpop : Open { c with
      running := false
      sendCompleteHandlerQueue := c.sendCompleteHandlerQueue.tail
      nextId := c.nextId + 1 } rest :=
    h.pop (by simp [lane, Task.stream?]) (by simp [lane, Task.file?])
      (by simp [hqueue, lane, Task.handler?]) (by simp [Task.buffered]) rfl rfl rfl rfl
      (by simp [Conn.pendingHandlers, hrunning]) rfl rfl h.notClosed
  have hkeep : Exact files c (.handler x :: rest) → Exact files { c with
      running := false
      sendCompleteHandlerQueue := c.sendCompleteHandlerQueue.tail
      nextId := c.nextId + 1 } rest := by
    intro hexact
    simpa [Exact, Task.payload] using hexact
  unfold Conn.handlerReturn
  rcases finishWrite_advances files hpop hopen rfl with
    ⟨hclosing, hclosed, hdrain⟩ | ⟨hstate, tasks', hopen', hexact'⟩
  · exact Or.inl ⟨hclosing, hclosed, fun hexact => hdrain (hkeep hexact)⟩
  · exact Or.inr ⟨hstate, tasks', hopen', fun hexact => hexact' (hkeep hexact)⟩

theorem handleWrite_advances (files : Nat → Bytes) {c : Conn H} {tasks : List (Task H)}
    (h : Open c tasks) (hopen : c.state ≠ .closed) (hidle : c.running = false)
    (w f : IoResult) :
    ((c.handleWrite files w f).state = .closed ∧
      (Exact files c tasks → w ≠ .error → f ≠ .error →
        ClosedDrained (c.handleWrite files w f))) ∨
    Advances files c tasks (c.handleWrite files w f) := by
  have hnot : c.isClosed = false := by simp [Conn.isClosed, hopen]
  unfold Conn.handleWrite
  by_cases hwriting : c.writing = true
  · rw [hnot, hwriting, if_neg (by decide)]
    rcases writeByteStream_advances files h hopen hidle w with
      ⟨rfl, hret, hclosed⟩ | ⟨hret, hidle1, hstate1, tasks1, hopen1, hexact1⟩
    · left
      dsimp only
      rw [hret, if_pos rfl]
      exact ⟨hclosed, fun _ hw => absurd rfl hw⟩
    · dsimp only
      rw [hret, if_neg (by decide)]
      have hlive1 : (c.writeByteStream w).1.state ≠ .closed := by rw [hstate1]; exact hopen
      rcases writeFile_advances files hopen1 hlive1 hidle1 f with
        ⟨rfl, hret2, hclosed⟩ | ⟨hret2, hidle2, hstate2, tasks2, hopen2, hexact2⟩
      · left
        rw [hret2, if_pos rfl]
        exact ⟨hclosed, fun _ _ hf => absurd rfl hf⟩
      · rw [hret2, if_neg (by decide)]
        have hlive2 : ((c.writeByteStream w).1.writeFile files f).1.state ≠ .closed := by
          rw [hstate2]; exact hlive1
        rcases callHandler_advances files hopen2 hlive2 hidle2 with
          ⟨_, hclosed, hdrain⟩ | ⟨hstate3, tasks3, hopen3, hexact3⟩
        · exact Or.inl ⟨hclosed, fun hexact _ _ => hdrain (hexact2 (hexact1 hexact))⟩
        · exact Or.inr ⟨hstate3.trans (hstate2.trans hstate1), tasks3, hopen3,
            fun hexact => hexact3 (hexact2 (hexact1 hexact))⟩
  · right
    have htest : (c.isClosed || !c.writing) = true := by simp [hwriting]
    rw [if_pos htest]
    exact ⟨rfl, tasks, h, id⟩

end Angel.Connection
