import Angel.Connection.Model
import Angel.Lib.Lanes

/-!
The abstract queue behind the three queues of a connection: one list of tasks,
numbered consecutively from `next_id`. `Open` relates a connection to its task
list; every operation appends tasks, consumes the front of the list or leaves
it alone, as long as the connection is not closed.
-/

namespace Angel.Connection

open Lib

variable {H : Type}

/-- One unit of work in submission order. -/
inductive Task (H : Type) where
  | bytes (data : Bytes)
  | file (f : File)
  | handler (h : H)

def Task.stream? : Task H → Option Nat
  | .bytes data => some data.length
  | _ => none

def Task.file? : Task H → Option File
  | .file f => some f
  | _ => none

def Task.handler? : Task H → Option H
  | .handler h => some h
  | _ => none

/-- The task's share of the output buffer. -/
def Task.buffered : Task H → Bytes
  | .bytes data => data
  | _ => []

/-- The bytes the task will still hand to the socket. -/
def Task.payload (files : Nat → Bytes) : Task H → Bytes
  | .bytes data => data
  | .file f => f.slice files
  | .handler _ => []

/-- A queued task has something left to do. -/
def Task.Live : Task H → Prop
  | .bytes data => data ≠ []
  | .file f => 0 < f.count
  | .handler _ => True

def Action.acceptedBytes : Action H → Bytes
  | .accept bytes => bytes
  | _ => []

def Action.submittedBytes : Action H → Bytes
  | .submit payload => payload
  | _ => []

def Action.registeredId : Action H → List Nat
  | .register id _ => [id]
  | _ => []

def Action.invokedId : Action H → List Nat
  | .invoke id _ => [id]
  | _ => []

/-- The bytes the socket has accepted. -/
def accepted (trace : List (Action H)) : Bytes := trace.flatMap Action.acceptedBytes

/-- The payloads of all submissions, in submission order. -/
def submitted (trace : List (Action H)) : Bytes := trace.flatMap Action.submittedBytes

/-- The completion handlers registered so far, by id. -/
def registered (trace : List (Action H)) : List Nat := trace.flatMap Action.registeredId

/-- The completion handlers invoked so far, by id. -/
def invoked (trace : List (Action H)) : List Nat := trace.flatMap Action.invokedId

@[simp] theorem accepted_append (first second : List (Action H)) :
    accepted (first ++ second) = accepted first ++ accepted second :=
  List.flatMap_append

@[simp] theorem submitted_append (first second : List (Action H)) :
    submitted (first ++ second) = submitted first ++ submitted second :=
  List.flatMap_append

@[simp] theorem registered_append (first second : List (Action H)) :
    registered (first ++ second) = registered first ++ registered second :=
  List.flatMap_append

@[simp] theorem invoked_append (first second : List (Action H)) :
    invoked (first ++ second) = invoked first ++ invoked second :=
  List.flatMap_append

@[simp] theorem accepted_nil : accepted ([] : List (Action H)) = [] := rfl

@[simp] theorem accepted_cons (a : Action H) (rest : List (Action H)) :
    accepted (a :: rest) = a.acceptedBytes ++ accepted rest :=
  List.flatMap_cons

@[simp] theorem submitted_nil : submitted ([] : List (Action H)) = [] := rfl

@[simp] theorem submitted_cons (a : Action H) (rest : List (Action H)) :
    submitted (a :: rest) = a.submittedBytes ++ submitted rest :=
  List.flatMap_cons

@[simp] theorem registered_nil : registered ([] : List (Action H)) = [] := rfl

@[simp] theorem registered_cons (a : Action H) (rest : List (Action H)) :
    registered (a :: rest) = a.registeredId ++ registered rest :=
  List.flatMap_cons

@[simp] theorem invoked_nil : invoked ([] : List (Action H)) = [] := rfl

@[simp] theorem invoked_cons (a : Action H) (rest : List (Action H)) :
    invoked (a :: rest) = a.invokedId ++ invoked rest :=
  List.flatMap_cons

/-- The registered handlers that have not been called yet: the one that is
running is still at the head of its queue. -/
def Conn.pendingHandlers (c : Conn H) : List Nat :=
  (if c.running then c.sendCompleteHandlerQueue.tail else c.sendCompleteHandlerQueue).map
    Prod.fst

/-- The connection's queues, counters and buffer represent `tasks`. -/
structure Open (c : Conn H) (tasks : List (Task H)) : Prop where
  streams : c.byteStreamQueue = lane Task.stream? c.nextId tasks
  sendFiles : c.sendFileQueue = lane Task.file? c.nextId tasks
  handlers : c.sendCompleteHandlerQueue = lane Task.handler? c.nextId tasks
  buffer : c.outputBuf = tasks.flatMap Task.buffered
  ids : c.sendId = c.nextId + tasks.length
  live : ∀ t ∈ tasks, t.Live
  write : tasks ≠ [] → c.writing = true
  atHandler : c.running = true → ∃ h rest, tasks = .handler h :: rest
  pending : registered c.trace = invoked c.trace ++ c.pendingHandlers
  notClosed : Action.closed ∉ c.trace

/-- Accepted bytes followed by the queued ones are the submitted ones. -/
def Exact (files : Nat → Bytes) (c : Conn H) (tasks : List (Task H)) : Prop :=
  accepted c.trace ++ tasks.flatMap (Task.payload files) = submitted c.trace

theorem Exact.accept {files : Nat → Bytes} {c c' : Conn H} {tasks tasks' : List (Task H)}
    {taken : Bytes} (h : Exact files c tasks) (htrace : c'.trace = c.trace ++ [.accept taken])
    (htaken : tasks.flatMap (Task.payload files) =
      taken ++ tasks'.flatMap (Task.payload files)) :
    Exact files c' tasks' := by
  unfold Exact at h ⊢
  rw [htaken] at h
  rw [htrace]
  simpa [Action.acceptedBytes, Action.submittedBytes] using h

theorem Exact.submit {files : Nat → Bytes} {c : Conn H} {tasks : List (Task H)}
    (h : Exact files c tasks) (data : Bytes) :
    accepted (c.emit (.submit data)).trace ++ tasks.flatMap (Task.payload files) ++ data =
      submitted (c.emit (.submit data)).trace := by
  unfold Exact at h
  simp [Conn.emit, Action.acceptedBytes, Action.submittedBytes, ← h]

theorem Exact.submit_accept {files : Nat → Bytes} {c : Conn H}
    (h : Exact files c []) (data : Bytes) (k : Nat) :
    accepted ((c.emit (.submit data)).emit (.accept (data.take k))).trace ++
        ([] : List (Task H)).flatMap (Task.payload files) ++ data.drop k =
      submitted ((c.emit (.submit data)).emit (.accept (data.take k))).trace := by
  have hold : accepted c.trace = submitted c.trace := by simpa [Exact] using h
  simp [Conn.emit, Action.acceptedBytes, Action.submittedBytes, hold]

theorem Open.init (mark : Nat) (markHandler : Bool) (timer : Nat) :
    Open (Conn.init mark markHandler timer : Conn H) [] where
  streams := rfl
  sendFiles := rfl
  handlers := rfl
  buffer := rfl
  ids := rfl
  live := by simp
  write := by simp
  atHandler := by simp [Conn.init]
  pending := rfl
  notClosed := by simp [Conn.init]

theorem Open.emit {c : Conn H} {tasks : List (Task H)} (h : Open c tasks) {a : Action H}
    (hreg : a.registeredId = []) (hinv : a.invokedId = []) (hclosed : a ≠ .closed) :
    Open (c.emit a) tasks where
  streams := h.streams
  sendFiles := h.sendFiles
  handlers := h.handlers
  buffer := h.buffer
  ids := h.ids
  live := h.live
  write := h.write
  atHandler := h.atHandler
  pending := by
    change registered (c.trace ++ [a]) = invoked (c.trace ++ [a]) ++ c.pendingHandlers
    simpa [hreg, hinv] using h.pending
  notClosed := by
    change Action.closed ∉ c.trace ++ [a]
    simpa [h.notClosed] using hclosed.symm

theorem Open.tasks_nil {c : Conn H} {tasks : List (Task H)} (h : Open c tasks)
    (hwriting : c.writing = false) : tasks = [] := by
  by_contra hne
  simp [h.write hne] at hwriting

theorem Open.push {c c' : Conn H} {tasks : List (Task H)} (h : Open c tasks) (t : Task H)
    (hlive : t.Live)
    (hstreams : c'.byteStreamQueue = c.byteStreamQueue ++ lane Task.stream? c.sendId [t])
    (hfiles : c'.sendFileQueue = c.sendFileQueue ++ lane Task.file? c.sendId [t])
    (hhandlers : c'.sendCompleteHandlerQueue =
      c.sendCompleteHandlerQueue ++ lane Task.handler? c.sendId [t])
    (hbuffer : c'.outputBuf = c.outputBuf ++ t.buffered)
    (hsend : c'.sendId = c.sendId + 1) (hnext : c'.nextId = c.nextId)
    (hwriting : c'.writing = true) (hrunning : c'.running = c.running)
    (htrace : registered c'.trace =
      registered c.trace ++ (lane Task.handler? c.sendId [t]).map Prod.fst)
    (hinvoked : invoked c'.trace = invoked c.trace)
    (hclosed : Action.closed ∉ c'.trace) :
    Open c' (tasks ++ [t]) where
  streams := by rw [hstreams, hnext, lane_append, h.streams, h.ids]
  sendFiles := by rw [hfiles, hnext, lane_append, h.sendFiles, h.ids]
  handlers := by rw [hhandlers, hnext, lane_append, h.handlers, h.ids]
  buffer := by simp [hbuffer, h.buffer]
  ids := by
    rw [hsend, hnext, h.ids, List.length_append, List.length_singleton]
    omega
  live := by
    intro x hx
    rcases List.mem_append.mp hx with hold | hnew
    · exact h.live x hold
    · rw [List.mem_singleton] at hnew
      subst hnew
      exact hlive
  write := fun _ => hwriting
  atHandler := by
    intro hrun
    rw [hrunning] at hrun
    obtain ⟨x, rest, rfl⟩ := h.atHandler hrun
    exact ⟨x, rest ++ [t], rfl⟩
  pending := by
    rw [htrace, hinvoked, h.pending, List.append_assoc]
    congr 1
    simp only [Conn.pendingHandlers, hrunning, hhandlers]
    cases hrun : c.running with
    | false => simp
    | true =>
        obtain ⟨x, rest, rfl⟩ := h.atHandler hrun
        rw [h.handlers, lane_cons_some (f := Task.handler?) rfl]
        simp
  notClosed := hclosed

theorem Open.queueBytes {c : Conn H} {tasks : List (Task H)} (h : Open c tasks)
    {bytes : Bytes} (hbytes : bytes ≠ []) :
    Open (c.queueBytes bytes) (tasks ++ [.bytes bytes]) := by
  unfold Conn.queueBytes
  dsimp only
  split
  · refine Open.emit ?_ rfl rfl (by simp)
    exact h.push (.bytes bytes) hbytes rfl (by simp [lane, Task.file?, Conn.enableWrite])
      (by simp [lane, Task.handler?, Conn.enableWrite]) rfl rfl rfl rfl rfl
      (by simp [lane, Task.handler?, Conn.enableWrite]) rfl h.notClosed
  · exact h.push (.bytes bytes) hbytes rfl (by simp [lane, Task.file?, Conn.enableWrite])
      (by simp [lane, Task.handler?, Conn.enableWrite]) rfl rfl rfl rfl rfl
      (by simp [lane, Task.handler?, Conn.enableWrite]) rfl h.notClosed

theorem Open.queueFile {c : Conn H} {tasks : List (Task H)} (h : Open c tasks)
    {f : File} (hf : 0 < f.count) : Open (c.queueFile f) (tasks ++ [.file f]) :=
  h.push (.file f) hf (by simp [lane, Task.stream?, Conn.queueFile, Conn.enableWrite]) rfl
    (by simp [lane, Task.handler?, Conn.queueFile, Conn.enableWrite])
    (by simp [Task.buffered, Conn.queueFile, Conn.enableWrite]) rfl rfl rfl rfl
    (by simp [lane, Task.handler?, Conn.queueFile, Conn.enableWrite]) rfl h.notClosed

theorem Open.setSendCompleteHandler {c : Conn H} {tasks : List (Task H)} (h : Open c tasks)
    (handler : H) :
    Open (c.setSendCompleteHandler handler) (tasks ++ [.handler handler]) :=
  h.push (.handler handler) trivial
    (by simp [lane, Task.stream?, Conn.setSendCompleteHandler, Conn.enableWrite, Conn.emit])
    (by simp [lane, Task.file?, Conn.setSendCompleteHandler, Conn.enableWrite, Conn.emit]) rfl
    (by simp [Task.buffered, Conn.setSendCompleteHandler, Conn.enableWrite, Conn.emit])
    rfl rfl rfl rfl
    (by simp [lane, Task.handler?, Conn.setSendCompleteHandler, Conn.enableWrite, Conn.emit,
      Action.registeredId])
    (by simp [Conn.setSendCompleteHandler, Conn.enableWrite, Conn.emit, Action.invokedId])
    (by simp [Conn.setSendCompleteHandler, Conn.enableWrite, Conn.emit, h.notClosed])

/-- What an operation on an open connection leaves behind: again an open
connection, exact if it was exact before. -/
def Advances (files : Nat → Bytes) (c : Conn H) (tasks : List (Task H)) (c' : Conn H) : Prop :=
  c'.state = c.state ∧
    ∃ tasks', Open c' tasks' ∧ (Exact files c tasks → Exact files c' tasks')

/-- A system call either takes a prefix of the data, reports that nothing was
taken, or closes the connection. -/
theorem transfer_cases (c : Conn H) (data : Bytes) (r : IoResult) (hopen : c.state ≠ .closed) :
    (∃ k, k ≤ data.length ∧ (∃ n, r = .sent n) ∧
      c.transfer data r = (c.emit (.accept (data.take k)), (k : Int))) ∨
    (r = .again ∧ c.transfer data r = (c, -1)) ∨
    (r = .error ∧ (c.transfer data r).1.state = .closed ∧ (c.transfer data r).2 = -2) := by
  cases r with
  | sent n =>
      refine Or.inl ⟨min n data.length, Nat.min_le_right _ _, ⟨n, rfl⟩, ?_⟩
      simp [Conn.transfer, List.take_eq_take_min]
  | again =>
      refine Or.inr (Or.inl ⟨rfl, ?_⟩)
      simp [Conn.transfer, Conn.handleError, Conn.isClosed, hopen]
  | error =>
      refine Or.inr (Or.inr ⟨rfl, ?_⟩)
      simp [Conn.transfer, Conn.handleError, Conn.forceCloseConnection, Conn.handleClose,
        Conn.isClosed, hopen, Conn.enterClosed]

theorem bytesAt_natCast (before : UInt8) (data : Bytes) (k : Nat) :
    bytesAt before data k (data.length - k) = data.drop k := by
  have hk : ((k : Int) + 1).toNat = k + 1 := by omega
  rw [bytesAt, hk, List.drop_succ_cons]
  exact List.take_of_length_le (by simp)

@[simp] theorem queueBytes_accepted (c : Conn H) (bytes : Bytes) :
    accepted (c.queueBytes bytes).trace = accepted c.trace := by
  unfold Conn.queueBytes
  dsimp only
  split <;> simp [Conn.emit, Conn.enableWrite, Action.acceptedBytes]

@[simp] theorem queueBytes_submitted (c : Conn H) (bytes : Bytes) :
    submitted (c.queueBytes bytes).trace = submitted c.trace := by
  unfold Conn.queueBytes
  dsimp only
  split <;> simp [Conn.emit, Conn.enableWrite, Action.submittedBytes]

@[simp] theorem queueBytes_state (c : Conn H) (bytes : Bytes) :
    (c.queueBytes bytes).state = c.state := by
  unfold Conn.queueBytes
  dsimp only
  split <;> rfl

theorem Open.queueRest {c : Conn H} {tasks : List (Task H)} (h : Open c tasks)
    {len : Nat} {rest : Bytes} (hlen : rest.length = len) :
    (if 0 < len then c.queueBytes rest else c).state = c.state ∧
    ∃ tasks', Open (if 0 < len then c.queueBytes rest else c) tasks' ∧
      ∀ files, accepted c.trace ++ tasks.flatMap (Task.payload files) ++ rest =
          submitted c.trace → Exact files (if 0 < len then c.queueBytes rest else c) tasks' := by
  by_cases hrest : rest = []
  · subst hrest hlen
    exact ⟨rfl, tasks, h, fun files hexact => by simpa [Exact] using hexact⟩
  · have hpos : 0 < len := by
      rw [← hlen]
      exact List.length_pos_iff.mpr hrest
    rw [if_pos hpos]
    refine ⟨queueBytes_state c rest, tasks ++ [.bytes rest], h.queueBytes hrest, ?_⟩
    intro files hexact
    simpa [Exact, Task.payload] using hexact

/-- `send_in_loop` was about to write directly and the socket was not ready. -/
def DirectAgain (c : Conn H) (data : Bytes) (r : IoResult) : Prop :=
  r = .again ∧ c.writing = false ∧ c.sendQueueIsEmpty = true ∧ data ≠ []

/-- What is left to send after a call that took `k` bytes, as the code counts
it. -/
private theorem remaining_natCast (total k : Nat) :
    (if (0 : Int) < k then total - (k : Int).toNat else total) = total - k := by
  split <;> omega

theorem sendInLoop_advances (files : Nat → Bytes) {c : Conn H} {tasks : List (Task H)}
    (h : Open c tasks) (hopen : c.state ≠ .closed) (before : UInt8) (data : Bytes)
    (r : IoResult) :
    (r = .error ∧ (c.sendInLoop before data r).state = .closed) ∨
    ((c.sendInLoop before data r).state = c.state ∧
      ∃ tasks', Open (c.sendInLoop before data r) tasks' ∧
        (¬ DirectAgain c data r → Exact files c tasks →
          Exact files (c.sendInLoop before data r) tasks')) := by
  have hnot : c.isClosed = false := by simp [Conn.isClosed, hopen]
  have hsubmit : Open (c.emit (.submit data)) tasks := h.emit rfl rfl (by simp)
  unfold Conn.sendInLoop
  rw [hnot, if_neg (by decide)]
  dsimp only
  by_cases hdirect : (!c.writing && c.sendQueueIsEmpty) = true
  · have hwriting : c.writing = false := by simp_all
    have hempty : c.sendQueueIsEmpty = true := by simp_all
    have hnil : tasks = [] := h.tasks_nil hwriting
    subst hnil
    have htest : (!(c.emit (.submit data)).writing &&
        (c.emit (.submit data)).sendQueueIsEmpty) = true := hdirect
    rw [if_pos htest, Conn.write]
    rcases transfer_cases (c.emit (.submit data)) data r hopen with
      ⟨k, hk, _, hrun⟩ | ⟨rfl, hrun⟩ | ⟨rfl, hclosed, hcode⟩
    · -- the accepted prefix leaves the front of the data, the rest is queued
      right
      rw [hrun]
      dsimp only
      rw [if_neg (by omega), remaining_natCast, bytesAt_natCast]
      have haccept : Open ((c.emit (.submit data)).emit (.accept (data.take k))) [] :=
        hsubmit.emit rfl rfl (by simp)
      obtain ⟨hstate, tasks', hopen', hexact'⟩ :=
        haccept.queueRest (List.length_drop (i := k) (l := data))
      refine ⟨hstate, tasks', hopen', ?_⟩
      intro _ hexact
      exact hexact' files (hexact.submit_accept data k)
    · -- nothing was taken, and the code reads from one byte before the data
      right
      rw [hrun]
      dsimp only
      rw [if_neg (by decide), if_neg (show ¬ (0 : Int) < -1 by decide)]
      have hlen : (bytesAt before data (-1) data.length).length = data.length := by
        simp [bytesAt]
      obtain ⟨hstate, tasks', hopen', hexact'⟩ := hsubmit.queueRest hlen
      refine ⟨hstate, tasks', hopen', ?_⟩
      intro hno hexact
      have hdata : data = [] := by
        by_contra hdata
        exact hno ⟨rfl, hwriting, hempty, hdata⟩
      subst hdata
      exact hexact' files (hexact.submit [])
    · left
      refine ⟨rfl, ?_⟩
      rw [hcode, if_pos rfl]
      exact hclosed
  · -- the channel is busy: everything is queued behind the rest
    right
    have htest : ¬ (!(c.emit (.submit data)).writing &&
        (c.emit (.submit data)).sendQueueIsEmpty) = true := hdirect
    rw [if_neg htest]
    dsimp only
    have hbytes : bytesAt before data 0 data.length = data := by
      simpa using bytesAt_natCast before data 0
    rw [if_neg (by decide), if_neg (Int.lt_irrefl 0), hbytes]
    obtain ⟨hstate, tasks', hopen', hexact'⟩ := hsubmit.queueRest (show data.length = data.length from rfl)
    refine ⟨hstate, tasks', hopen', ?_⟩
    intro _ hexact
    exact hexact' files (hexact.submit data)

theorem File.slice_advance (files : Nat → Bytes) (f : File) (k : Nat) :
    (⟨f.fd, f.offset + k, f.count - k⟩ : File).slice files = (f.slice files).drop k := by
  simp only [File.slice]
  rw [List.drop_take, List.drop_drop]

theorem File.slice_of_count_zero (files : Nat → Bytes) {f : File} (h : f.count = 0) :
    f.slice files = [] := by
  simp [File.slice, h]

theorem Open.queueFileRest {c : Conn H} {tasks : List (Task H)} (h : Open c tasks) (f : File) :
    (if 0 < f.count then c.queueFile f else c).state = c.state ∧
    ∃ tasks', Open (if 0 < f.count then c.queueFile f else c) tasks' ∧
      ∀ files, accepted c.trace ++ tasks.flatMap (Task.payload files) ++ f.slice files =
          submitted c.trace → Exact files (if 0 < f.count then c.queueFile f else c) tasks' := by
  by_cases hf : 0 < f.count
  · rw [if_pos hf]
    refine ⟨rfl, tasks ++ [.file f], h.queueFile hf, ?_⟩
    intro files hexact
    simpa [Exact, Task.payload, Conn.queueFile, Conn.enableWrite] using hexact
  · rw [if_neg hf]
    refine ⟨rfl, tasks, h, ?_⟩
    intro files hexact
    rw [File.slice_of_count_zero files (by omega)] at hexact
    simpa [Exact] using hexact

private theorem advance_natCast (f : File) (k : Nat) :
    (if (0 : Int) < k then (⟨f.fd, f.offset + (k : Int).toNat, f.count - (k : Int).toNat⟩ : File)
      else f) = ⟨f.fd, f.offset + k, f.count - k⟩ := by
  by_cases hk : (0 : Int) < k
  · rw [if_pos hk, Int.toNat_natCast]
  · have hzero : k = 0 := by omega
    subst hzero
    rfl

theorem sendFileInLoop_advances (files : Nat → Bytes) {c : Conn H} {tasks : List (Task H)}
    (h : Open c tasks) (hopen : c.state ≠ .closed) (f : File) (r : IoResult) :
    (r = .error ∧ (c.sendFileInLoop files f r).state = .closed) ∨
      Advances files c tasks (c.sendFileInLoop files f r) := by
  have hnot : c.isClosed = false := by simp [Conn.isClosed, hopen]
  have hsubmit : Open (c.emit (.submit (f.slice files))) tasks := h.emit rfl rfl (by simp)
  unfold Conn.sendFileInLoop Advances
  rw [hnot, if_neg (by decide)]
  dsimp only
  by_cases hdirect : (!c.writing && c.sendQueueIsEmpty) = true
  · have hwriting : c.writing = false := by simp_all
    have hnil : tasks = [] := h.tasks_nil hwriting
    subst hnil
    have htest : (!(c.emit (.submit (f.slice files))).writing &&
        (c.emit (.submit (f.slice files))).sendQueueIsEmpty) = true := hdirect
    rw [if_pos htest, Conn.sendfile]
    rcases transfer_cases (c.emit (.submit (f.slice files))) (f.slice files) r hopen with
      ⟨k, hk, _, hrun⟩ | ⟨rfl, hrun⟩ | ⟨rfl, hclosed, hcode⟩
    · right
      rw [hrun]
      dsimp only
      rw [if_neg (by omega), advance_natCast]
      have haccept : Open ((c.emit (.submit (f.slice files))).emit
          (.accept ((f.slice files).take k))) [] := hsubmit.emit rfl rfl (by simp)
      obtain ⟨hstate, tasks', hopen', hexact'⟩ :=
        haccept.queueFileRest ⟨f.fd, f.offset + k, f.count - k⟩
      refine ⟨hstate, tasks', hopen', ?_⟩
      intro hexact
      apply hexact'
      rw [File.slice_advance]
      exact hexact.submit_accept (f.slice files) k
    · right
      rw [hrun]
      dsimp only
      rw [if_neg (by decide), if_neg (show ¬ (0 : Int) < -1 by decide)]
      obtain ⟨hstate, tasks', hopen', hexact'⟩ := hsubmit.queueFileRest f
      refine ⟨hstate, tasks', hopen', ?_⟩
      intro hexact
      exact hexact' files (hexact.submit (f.slice files))
    · left
      refine ⟨rfl, ?_⟩
      rw [hcode, if_pos rfl]
      exact hclosed
  · right
    have htest : ¬ (!(c.emit (.submit (f.slice files))).writing &&
        (c.emit (.submit (f.slice files))).sendQueueIsEmpty) = true := hdirect
    rw [if_neg htest]
    dsimp only
    rw [if_neg (by decide), if_neg (Int.lt_irrefl 0)]
    obtain ⟨hstate, tasks', hopen', hexact'⟩ := hsubmit.queueFileRest f
    refine ⟨hstate, tasks', hopen', ?_⟩
    intro hexact
    exact hexact' files (hexact.submit (f.slice files))

theorem setSendCompleteHandler_advances (files : Nat → Bytes) {c : Conn H}
    {tasks : List (Task H)} (h : Open c tasks) (handler : H) :
    Advances files c tasks (c.setSendCompleteHandler handler) := by
  refine ⟨rfl, tasks ++ [.handler handler], h.setSendCompleteHandler handler, ?_⟩
  intro hexact
  simpa [Exact, Task.payload, Conn.setSendCompleteHandler, Conn.enableWrite, Conn.emit,
    Action.acceptedBytes, Action.submittedBytes] using hexact

end Angel.Connection
