import Angel.Connection.Runs
import Angel.Lib.History

/-!
Completion handlers and the data in front of them. A handler is registered
under the next id; what is queued behind that id was submitted after the
registration. So when its turn comes, everything submitted before it has left
the queues, and the accepted bytes reach beyond it.
-/

namespace Angel.Connection

open Lib

variable {H : Type}

def Action.registration : Action H → List (Nat × H)
  | .register id handler => [(id, handler)]
  | _ => []

def Action.invocation : Action H → List (Nat × H)
  | .invoke id handler => [(id, handler)]
  | _ => []

/-- The registered handlers with their ids, in registration order. -/
def registrations (trace : List (Action H)) : List (Nat × H) := trace.flatMap Action.registration

/-- The calls of handlers so far, in call order. -/
def invocations (trace : List (Action H)) : List (Nat × H) := trace.flatMap Action.invocation

@[simp] theorem registrations_append (first second : List (Action H)) :
    registrations (first ++ second) = registrations first ++ registrations second :=
  List.flatMap_append

@[simp] theorem invocations_append (first second : List (Action H)) :
    invocations (first ++ second) = invocations first ++ invocations second :=
  List.flatMap_append

@[simp] theorem registrations_singleton (a : Action H) : registrations [a] = a.registration := by
  simp [registrations]

@[simp] theorem invocations_singleton (a : Action H) : invocations [a] = a.invocation := by
  simp [invocations]

/-- A call comes after the registration of the same handler, and by then the socket has accepted
everything that had been submitted before it. -/
def CalledInTurn (before : List (Action H)) (a : Action H) : Prop :=
  ∀ id handler, a = .invoke id handler →
    ∃ earlier later, before = earlier ++ .register id handler :: later ∧
      submitted earlier <+: accepted before

def AfterData (trace : List (Action H)) : Prop := Each CalledInTurn trace

/-- The contract of completion handlers: they are called in registration order,
each at most once, after the data in front of them. -/
structure CompletionOrder (trace : List (Action H)) : Prop where
  order : invocations trace <+: registrations trace
  once : ((registrations trace).map Prod.fst).Pairwise (· < ·)
  afterData : AfterData trace

/-- The total weight of the entries queued behind an id. -/
def weightBehind {α : Type} (weight : α → Nat) (id : Nat) (queue : List (Nat × α)) : Nat :=
  ((queue.filter fun p => id < p.1).map fun p => weight p.2).sum

theorem weightBehind_cons {α : Type} (weight : α → Nat) (id : Nat) (p : Nat × α)
    (queue : List (Nat × α)) :
    weightBehind weight id (p :: queue) =
      (if id < p.1 then weight p.2 else 0) + weightBehind weight id queue := by
  unfold weightBehind
  by_cases hp : id < p.1
  · rw [if_pos hp, List.filter_cons_of_pos (by simpa using hp), List.map_cons, List.sum_cons]
  · rw [if_neg hp, List.filter_cons_of_neg (by simpa using hp), Nat.zero_add]

theorem weightBehind_append {α : Type} (weight : α → Nat) (id : Nat)
    (first second : List (Nat × α)) :
    weightBehind weight id (first ++ second) =
      weightBehind weight id first + weightBehind weight id second := by
  simp [weightBehind]

theorem weightBehind_singleton_le {α : Type} (weight : α → Nat) (id : Nat) (p : Nat × α) :
    weightBehind weight id [p] ≤ weight p.2 := by
  rw [weightBehind_cons]
  split
  · exact Nat.le_refl _
  · exact Nat.zero_le _

theorem weightBehind_shrink {α : Type} {weight : α → Nat} {x y : α} (h : weight y ≤ weight x)
    (id n : Nat) (queue : List (Nat × α)) :
    weightBehind weight id ((n, y) :: queue) ≤ weightBehind weight id ((n, x) :: queue) := by
  rw [weightBehind_cons, weightBehind_cons]
  dsimp only
  split
  · omega
  · omega

theorem weightBehind_tail {α : Type} (weight : α → Nat) (id : Nat) (p : Nat × α)
    (queue : List (Nat × α)) :
    weightBehind weight id queue ≤ weightBehind weight id (p :: queue) := by
  rw [weightBehind_cons]
  exact Nat.le_add_left _ _

/-- How many bytes are queued behind an id, in both data queues. -/
def Conn.queuedBehind (files : Nat → Bytes) (c : Conn H) (id : Nat) : Nat :=
  weightBehind (fun len => len) id c.byteStreamQueue +
    weightBehind (fun f => (f.slice files).length) id c.sendFileQueue

private theorem weightBehind_lanes (files : Nat → Bytes) {id n : Nat} (h : id < n)
    (tasks : List (Task H)) :
    weightBehind (fun len => len) id (lane Task.stream? n tasks) +
      weightBehind (fun f => (File.slice files f).length) id (lane Task.file? n tasks) =
        (tasks.flatMap (Task.payload files)).length := by
  induction tasks generalizing n with
  | nil => rfl
  | cons t rest ih =>
      have hrest := ih (show id < n + 1 by omega)
      rw [List.flatMap_cons, List.length_append, ← hrest]
      cases t with
      | bytes data =>
          rw [lane_cons_some (f := Task.stream?) rfl, lane_cons_none (f := Task.file?) rfl,
            weightBehind_cons, if_pos h]
          exact Nat.add_assoc _ _ _
      | file f =>
          rw [lane_cons_none (f := Task.stream?) rfl, lane_cons_some (f := Task.file?) rfl,
            weightBehind_cons, if_pos h]
          exact Nat.add_left_comm _ _ _
      | handler x =>
          rw [lane_cons_none (f := Task.stream?) rfl, lane_cons_none (f := Task.file?) rfl]
          simp [Task.payload]

/-- Behind a handler whose turn it is stands the payload of the other tasks. -/
theorem Open.queuedBehind_front {c : Conn H} {handler : H} {rest : List (Task H)}
    (h : Open c (.handler handler :: rest)) (files : Nat → Bytes) :
    c.queuedBehind files c.nextId = (rest.flatMap (Task.payload files)).length := by
  rw [Conn.queuedBehind, h.streams, h.sendFiles, lane_cons_none (f := Task.stream?) rfl,
    lane_cons_none (f := Task.file?) rfl]
  exact weightBehind_lanes files (Nat.lt_succ_self _) rest

theorem Open.queuedBehind_sendId {c : Conn H} {tasks : List (Task H)} (h : Open c tasks)
    (files : Nat → Bytes) : c.queuedBehind files c.sendId = 0 := by
  have hnone : ∀ {α : Type} (weight : α → Nat) (queue : List (Nat × α)),
      (∀ p ∈ queue, p.1 < c.sendId) → weightBehind weight c.sendId queue = 0 := by
    intro α weight queue hbelow
    have hfilter : (queue.filter fun p => c.sendId < p.1) = [] := by
      rw [List.filter_eq_nil_iff]
      intro p hp
      have := hbelow p hp
      simp only [decide_eq_true_eq]
      omega
    rw [weightBehind, hfilter]
    rfl
  rw [Conn.queuedBehind, hnone, hnone]
  · intro p hp
    exact ((h.ids_complete p.1).mp (Or.inr (Or.inl (List.mem_map_of_mem hp)))).2
  · intro p hp
    exact ((h.ids_complete p.1).mp (Or.inl (List.mem_map_of_mem hp))).2

theorem handleClose_queues (c : Conn H) (isForced : Bool) :
    (c.handleClose isForced).byteStreamQueue = c.byteStreamQueue ∧
      (c.handleClose isForced).sendFileQueue = c.sendFileQueue := by
  have hcancel : c.cancelTtlTimer.byteStreamQueue = c.byteStreamQueue ∧
      c.cancelTtlTimer.sendFileQueue = c.sendFileQueue := by
    unfold Conn.cancelTtlTimer
    split
    · exact ⟨rfl, rfl⟩
    · exact ⟨rfl, rfl⟩
  unfold Conn.handleClose
  split
  · exact ⟨rfl, rfl⟩
  · dsimp only
    split
    · exact hcancel
    · exact hcancel

theorem transfer_queues (c : Conn H) (data : Bytes) (r : IoResult) :
    (c.transfer data r).1.byteStreamQueue = c.byteStreamQueue ∧
      (c.transfer data r).1.sendFileQueue = c.sendFileQueue := by
  cases r with
  | sent n => exact ⟨rfl, rfl⟩
  | again => exact ⟨rfl, rfl⟩
  | error => exact handleClose_queues c true

/-- From `c` to `c'` no handler is registered, called or dropped, and what is
queued behind any id grows by no more than was submitted on the way and
`balance`. -/
structure Proceeds (files : Nat → Bytes) (balance : Int) (c c' : Conn H) : Prop where
  handlers : c'.sendCompleteHandlerQueue = c.sendCompleteHandlerQueue
  running : c'.running = c.running
  sendId : c.sendId ≤ c'.sendId
  history : ∃ more, c'.trace = c.trace ++ more ∧ registrations more = [] ∧
    invocations more = [] ∧ ∀ id, (c'.queuedBehind files id : Int) ≤
      c.queuedBehind files id + (submitted more).length + balance

namespace Proceeds

variable {files : Nat → Bytes}

theorem trans {first second : Int} {c d e : Conn H} (h : Proceeds files first c d)
    (h' : Proceeds files second d e) : Proceeds files (first + second) c e where
  handlers := h'.handlers.trans h.handlers
  running := h'.running.trans h.running
  sendId := h.sendId.trans h'.sendId
  history := by
    obtain ⟨more, htrace, hreg, hinv, hbehind⟩ := h.history
    obtain ⟨more', htrace', hreg', hinv', hbehind'⟩ := h'.history
    refine ⟨more ++ more', ?_, ?_, ?_, ?_⟩
    · rw [htrace', htrace, List.append_assoc]
    · rw [registrations_append, hreg, hreg']
      rfl
    · rw [invocations_append, hinv, hinv']
      rfl
    · intro id
      have hfirst := hbehind id
      have hsecond := hbehind' id
      rw [submitted_append, List.length_append]
      push_cast
      omega

theorem weaken {first second : Int} {c d : Conn H} (h : Proceeds files first c d)
    (hle : first ≤ second) : Proceeds files second c d where
  handlers := h.handlers
  running := h.running
  sendId := h.sendId
  history := by
    obtain ⟨more, htrace, hreg, hinv, hbehind⟩ := h.history
    refine ⟨more, htrace, hreg, hinv, ?_⟩
    intro id
    have := hbehind id
    omega

theorem andThen {balance : Int} {c d e : Conn H} (h : Proceeds files balance c d)
    (h' : Proceeds files 0 d e) : Proceeds files balance c e :=
  (h.trans h').weaken (Int.le_of_eq (Int.add_zero balance))

theorem of_queues {c c' : Conn H} {balance : Int} (htrace : c'.trace = c.trace)
    (hhandlers : c'.sendCompleteHandlerQueue = c.sendCompleteHandlerQueue)
    (hrunning : c'.running = c.running) (hsendId : c.sendId ≤ c'.sendId)
    (hbehind : ∀ id, (c'.queuedBehind files id : Int) ≤ c.queuedBehind files id + balance) :
    Proceeds files balance c c' where
  handlers := hhandlers
  running := hrunning
  sendId := hsendId
  history := by
    refine ⟨[], by rw [htrace, List.append_nil], rfl, rfl, ?_⟩
    intro id
    simpa using hbehind id

theorem refl (c : Conn H) : Proceeds files 0 c c := by
  apply of_queues rfl rfl rfl (Nat.le_refl _)
  intro id
  exact Int.le_of_eq (Int.add_zero _).symm

theorem keep {c d d' : Conn H} {balance : Int} (h : Proceeds files balance c d)
    (htrace : d'.trace = d.trace)
    (hhandlers : d'.sendCompleteHandlerQueue = d.sendCompleteHandlerQueue)
    (hrunning : d'.running = d.running) (hsendId : d'.sendId = d.sendId)
    (hstreams : d'.byteStreamQueue = d.byteStreamQueue)
    (hfiles : d'.sendFileQueue = d.sendFileQueue) : Proceeds files balance c d' where
  handlers := hhandlers.trans h.handlers
  running := hrunning.trans h.running
  sendId := hsendId ▸ h.sendId
  history := by
    obtain ⟨more, hmore, hreg, hinv, hbehind⟩ := h.history
    refine ⟨more, htrace.trans hmore, hreg, hinv, ?_⟩
    intro id
    rw [Conn.queuedBehind, hstreams, hfiles]
    exact hbehind id

theorem emit (c : Conn H) {a : Action H} (hreg : a.registration = [])
    (hinv : a.invocation = []) : Proceeds files (-(a.submittedBytes.length : Int)) c (c.emit a) where
  handlers := rfl
  running := rfl
  sendId := Nat.le_refl _
  history := by
    refine ⟨[a], rfl, by rw [registrations_singleton, hreg],
      by rw [invocations_singleton, hinv], ?_⟩
    intro id
    change (c.queuedBehind files id : Int) ≤ _
    rw [submitted_cons, submitted_nil, List.append_nil]
    omega

theorem report {c d : Conn H} {balance : Int} (h : Proceeds files balance c d) {a : Action H}
    (hreg : a.registration = []) (hinv : a.invocation = []) (hsubmit : a.submittedBytes = []) :
    Proceeds files balance c (d.emit a) := by
  apply (h.trans (emit d hreg hinv)).weaken
  rw [hsubmit]
  exact Int.le_of_eq (Int.add_zero _)

private theorem cancelTtlTimer (c : Conn H) : Proceeds files 0 c c.cancelTtlTimer := by
  unfold Conn.cancelTtlTimer
  split
  · exact (emit c (a := .cancelTimer c.ttlTimerId) rfl rfl).keep rfl rfl rfl rfl rfl rfl
  · exact refl c

private theorem enterClosed (c : Conn H) : Proceeds files 0 c c.enterClosed :=
  (emit c (a := .closed) rfl rfl).keep rfl rfl rfl rfl rfl rfl

theorem handleClose (c : Conn H) (isForced : Bool) :
    Proceeds files 0 c (c.handleClose isForced) := by
  unfold Conn.handleClose
  split
  · exact refl c
  · dsimp only
    split
    · exact (cancelTtlTimer c).keep rfl rfl rfl rfl rfl rfl
    · exact (cancelTtlTimer c).andThen (enterClosed _)

theorem close (c : Conn H) : Proceeds files 0 c c.close :=
  (emit c (a := .close) rfl rfl).andThen (handleClose _ false)

theorem transfer (c : Conn H) (data : Bytes) (r : IoResult) :
    Proceeds files 0 c (c.transfer data r).1 := by
  cases r with
  | sent n => exact emit c (a := .accept (data.take n)) rfl rfl
  | again => exact refl c
  | error => exact handleClose c true

private theorem pushStream {c c' : Conn H} {len : Nat} (htrace : c'.trace = c.trace)
    (hhandlers : c'.sendCompleteHandlerQueue = c.sendCompleteHandlerQueue)
    (hrunning : c'.running = c.running) (hsendId : c'.sendId = c.sendId + 1)
    (hstreams : c'.byteStreamQueue = c.byteStreamQueue ++ [(c.sendId, len)])
    (hfiles : c'.sendFileQueue = c.sendFileQueue) : Proceeds files len c c' := by
  apply of_queues htrace hhandlers hrunning (by omega)
  intro id
  have hlast : weightBehind (fun len => len) id [(c.sendId, len)] ≤ len :=
    weightBehind_singleton_le _ id _
  rw [Conn.queuedBehind, Conn.queuedBehind, hstreams, hfiles, weightBehind_append]
  omega

private theorem pushFile {c c' : Conn H} {f : File} (htrace : c'.trace = c.trace)
    (hhandlers : c'.sendCompleteHandlerQueue = c.sendCompleteHandlerQueue)
    (hrunning : c'.running = c.running) (hsendId : c'.sendId = c.sendId + 1)
    (hstreams : c'.byteStreamQueue = c.byteStreamQueue)
    (hfiles : c'.sendFileQueue = c.sendFileQueue ++ [(c.sendId, f)]) :
    Proceeds files (f.slice files).length c c' := by
  apply of_queues htrace hhandlers hrunning (by omega)
  intro id
  have hlast : weightBehind (fun f => (File.slice files f).length) id [(c.sendId, f)] ≤
      (f.slice files).length := weightBehind_singleton_le _ id _
  rw [Conn.queuedBehind, Conn.queuedBehind, hstreams, hfiles, weightBehind_append]
  omega

theorem queueBytes (c : Conn H) (bytes : Bytes) :
    Proceeds files bytes.length c (c.queueBytes bytes) := by
  unfold Conn.queueBytes
  dsimp only
  split
  · apply report
    · exact pushStream rfl rfl rfl rfl rfl rfl
    · rfl
    · rfl
    · rfl
  · exact pushStream rfl rfl rfl rfl rfl rfl

theorem queueFile (c : Conn H) (f : File) :
    Proceeds files (f.slice files).length c (c.queueFile f) :=
  pushFile rfl rfl rfl rfl rfl rfl

theorem direct (c : Conn H) (b : Bool) (data : Bytes) (r : IoResult) :
    Proceeds files 0 c (if b = true then c.transfer data r else (c, 0)).1 := by
  split
  · exact transfer c data r
  · exact refl c

theorem sendInLoop (c : Conn H) (before : UInt8) (data : Bytes) (r : IoResult) :
    Proceeds files 0 c (c.sendInLoop before data r) := by
  unfold Conn.sendInLoop
  split
  · exact refl c
  · dsimp only
    have hsubmit : Proceeds files (-(data.length : Int)) c (c.emit (.submit data)) :=
      emit c (a := .submit data) rfl rfl
    generalize c.emit (.submit data) = d at hsubmit ⊢
    have hdirect : Proceeds files 0 d (if (!d.writing && d.sendQueueIsEmpty) = true then
        d.transfer data r else (d, 0)).1 := direct d _ data r
    unfold Conn.write
    generalize (if (!d.writing && d.sendQueueIsEmpty) = true then d.transfer data r
      else (d, 0)) = p at hdirect ⊢
    obtain ⟨c', n⟩ := p
    have hsent := hsubmit.andThen hdirect
    dsimp only at hsent ⊢
    split
    · exact hsent.weaken (by omega)
    · have hlen : (if 0 < n then data.length - n.toNat else data.length) ≤ data.length := by
        split
        · exact Nat.sub_le _ _
        · exact Nat.le_refl _
      generalize (if 0 < n then data.length - n.toNat else data.length) = len at hlen ⊢
      split
      · -- at most `len` bytes are queued, whatever `data + n` points to
        have hbytes : (bytesAt before data n len).length ≤ len := List.length_take_le _ _
        exact (hsent.trans (queueBytes c' _)).weaken (by omega)
      · exact hsent.weaken (by omega)

theorem sendFileInLoop (c : Conn H) (f : File) (r : IoResult) :
    Proceeds files 0 c (c.sendFileInLoop files f r) := by
  unfold Conn.sendFileInLoop
  split
  · exact refl c
  · dsimp only
    have hsubmit : Proceeds files (-((f.slice files).length : Int)) c
        (c.emit (.submit (f.slice files))) := emit c (a := .submit (f.slice files)) rfl rfl
    generalize c.emit (.submit (f.slice files)) = d at hsubmit ⊢
    have hdirect : Proceeds files 0 d (if (!d.writing && d.sendQueueIsEmpty) = true then
        d.transfer (f.slice files) r else (d, 0)).1 := direct d _ (f.slice files) r
    unfold Conn.sendfile
    generalize (if (!d.writing && d.sendQueueIsEmpty) = true then d.transfer (f.slice files) r
      else (d, 0)) = p at hdirect ⊢
    obtain ⟨c', n⟩ := p
    have hsent := hsubmit.andThen hdirect
    dsimp only at hsent ⊢
    split
    · exact hsent.weaken (by omega)
    · have hrest : ((if 0 < n then (⟨f.fd, f.offset + n.toNat, f.count - n.toNat⟩ : File)
          else f).slice files).length ≤ (f.slice files).length := by
        split
        · rw [File.slice_advance, List.length_drop]
          exact Nat.sub_le _ _
        · exact Nat.le_refl _
      generalize (if 0 < n then (⟨f.fd, f.offset + n.toNat, f.count - n.toNat⟩ : File)
        else f) = rest at hrest ⊢
      split
      · exact (hsent.trans (queueFile c' rest)).weaken (by omega)
      · exact hsent.weaken (by omega)

private theorem popStream {c c' : Conn H} {id len : Nat} {rest : List (Nat × Nat)}
    (hqueue : c.byteStreamQueue = (id, len) :: rest) (htrace : c'.trace = c.trace)
    (hhandlers : c'.sendCompleteHandlerQueue = c.sendCompleteHandlerQueue)
    (hrunning : c'.running = c.running) (hsendId : c'.sendId = c.sendId)
    (hfiles : c'.sendFileQueue = c.sendFileQueue)
    (hstreams : c'.byteStreamQueue = rest ∨
      ∃ n, c'.byteStreamQueue = (id, len - n) :: rest) : Proceeds files 0 c c' := by
  apply of_queues htrace hhandlers hrunning (Nat.le_of_eq hsendId.symm)
  intro i
  have hweight : weightBehind (fun len => len) i c'.byteStreamQueue ≤
      weightBehind (fun len => len) i c.byteStreamQueue := by
    rw [hqueue]
    rcases hstreams with hrest | ⟨n, hrest⟩
    · rw [hrest]
      exact weightBehind_tail _ i _ rest
    · rw [hrest]
      exact weightBehind_shrink (Nat.sub_le len n) i id rest
  rw [Conn.queuedBehind, Conn.queuedBehind, hfiles]
  omega

private theorem popFile {c c' : Conn H} {id : Nat} {f : File} {rest : List (Nat × File)}
    (hqueue : c.sendFileQueue = (id, f) :: rest) (htrace : c'.trace = c.trace)
    (hhandlers : c'.sendCompleteHandlerQueue = c.sendCompleteHandlerQueue)
    (hrunning : c'.running = c.running) (hsendId : c'.sendId = c.sendId)
    (hstreams : c'.byteStreamQueue = c.byteStreamQueue)
    (hfiles : c'.sendFileQueue = rest ∨ ∃ n, c'.sendFileQueue =
      (id, ⟨f.fd, f.offset + n, f.count - n⟩) :: rest) : Proceeds files 0 c c' := by
  apply of_queues htrace hhandlers hrunning (Nat.le_of_eq hsendId.symm)
  intro i
  have hweight : weightBehind (fun f => (File.slice files f).length) i c'.sendFileQueue ≤
      weightBehind (fun f => (File.slice files f).length) i c.sendFileQueue := by
    rw [hqueue]
    rcases hfiles with hrest | ⟨n, hrest⟩
    · rw [hrest]
      exact weightBehind_tail _ i _ rest
    · rw [hrest]
      apply weightBehind_shrink
      rw [File.slice_advance, List.length_drop]
      exact Nat.sub_le _ _
  rw [Conn.queuedBehind, Conn.queuedBehind, hstreams]
  omega

theorem writeByteStream (c : Conn H) (r : IoResult) :
    Proceeds files 0 c (c.writeByteStream r).1 := by
  unfold Conn.writeByteStream
  split
  · exact refl c
  · next id len rest hqueue =>
      split
      · have hwrite : Proceeds files 0 c (c.transfer (c.outputBuf.take len) r).1 := transfer c _ r
        have hfront := (transfer_queues c (c.outputBuf.take len) r).1
        unfold Conn.write
        generalize c.transfer (c.outputBuf.take len) r = p at hwrite hfront ⊢
        obtain ⟨c', n⟩ := p
        dsimp only at hwrite hfront ⊢
        rw [hqueue] at hfront
        split
        · split
          · apply hwrite.andThen
            exact popStream hfront rfl rfl rfl rfl rfl (Or.inl rfl)
          · apply hwrite.andThen
            exact popStream hfront rfl rfl rfl rfl rfl (Or.inr ⟨n.toNat, rfl⟩)
        · exact hwrite
      · exact refl c

theorem writeFile (c : Conn H) (r : IoResult) :
    Proceeds files 0 c (c.writeFile files r).1 := by
  unfold Conn.writeFile
  split
  · exact refl c
  · next id f rest hqueue =>
      split
      · have hwrite : Proceeds files 0 c (c.transfer (f.slice files) r).1 := transfer c _ r
        have hfront := (transfer_queues c (f.slice files) r).2
        unfold Conn.sendfile
        generalize c.transfer (f.slice files) r = p at hwrite hfront ⊢
        obtain ⟨c', n⟩ := p
        dsimp only at hwrite hfront ⊢
        rw [hqueue] at hfront
        split
        · split
          · apply hwrite.andThen
            exact popFile hfront rfl rfl rfl rfl rfl (Or.inl rfl)
          · apply hwrite.andThen
            exact popFile hfront rfl rfl rfl rfl rfl (Or.inr ⟨n.toNat, rfl⟩)
        · exact hwrite
      · exact refl c

theorem finishWrite (c : Conn H) : Proceeds files 0 c c.finishWrite := by
  unfold Conn.finishWrite
  split
  · dsimp only
    have hdisable : Proceeds files 0 c c.disableWrite := (refl c).keep rfl rfl rfl rfl rfl rfl
    split
    · exact hdisable.andThen (handleClose _ true)
    · exact hdisable
  · exact refl c

end Proceeds

/-- Only the result that makes `handle_write` return leaves the connection closed. -/
theorem transfer_live {c : Conn H} (hlive : c.state ≠ .closed) (data : Bytes) (r : IoResult)
    (hresult : (c.transfer data r).2 ≠ -2) : (c.transfer data r).1.state ≠ .closed := by
  rcases transfer_cases c data r hlive with ⟨k, _, _, hrun⟩ | ⟨_, hrun⟩ | ⟨_, _, hcode⟩
  · rw [hrun]
    exact hlive
  · rw [hrun]
    exact hlive
  · exact absurd hcode hresult

theorem writeByteStream_live {c : Conn H} (hlive : c.state ≠ .closed) {r : IoResult}
    (hreturned : (c.writeByteStream r).2 ≠ true) : (c.writeByteStream r).1.state ≠ .closed := by
  unfold Conn.writeByteStream Conn.write at hreturned ⊢
  split
  · exact hlive
  · next id len rest hqueue =>
      rw [hqueue] at hreturned
      dsimp only at hreturned
      split
      · next hid =>
          rw [if_pos hid] at hreturned
          have hwrite := transfer_live hlive (c.outputBuf.take len) r
          generalize c.transfer (c.outputBuf.take len) r = p at hwrite hreturned ⊢
          obtain ⟨c', n⟩ := p
          dsimp only at hwrite hreturned ⊢
          split
          · next hn =>
              split
              · exact hwrite (by omega)
              · exact hwrite (by omega)
          · next hn =>
              rw [if_neg hn] at hreturned
              exact hwrite (by simpa using hreturned)
      · exact hlive

theorem writeFile_live {files : Nat → Bytes} {c : Conn H} (hlive : c.state ≠ .closed)
    {r : IoResult} (hreturned : (c.writeFile files r).2 ≠ true) :
    (c.writeFile files r).1.state ≠ .closed := by
  unfold Conn.writeFile Conn.sendfile at hreturned ⊢
  split
  · exact hlive
  · next id f rest hqueue =>
      rw [hqueue] at hreturned
      dsimp only at hreturned
      split
      · next hid =>
          rw [if_pos hid] at hreturned
          have hwrite := transfer_live hlive (f.slice files) r
          generalize c.transfer (f.slice files) r = p at hwrite hreturned ⊢
          obtain ⟨c', n⟩ := p
          dsimp only at hwrite hreturned ⊢
          split
          · next hn =>
              split
              · exact hwrite (by omega)
              · exact hwrite (by omega)
          · next hn =>
              rw [if_neg hn] at hreturned
              exact hwrite (by simpa using hreturned)
      · exact hlive

/-- The loop thread enters the handler at the head of the queue. -/
def Conn.call (c : Conn H) (handler : H) : Conn H :=
  { c.emit (.invoke c.nextId handler) with running := true }

/-- What one step does to the completion handlers. -/
inductive Moves (files : Nat → Bytes) (c : Conn H) : Event H → Conn H → Prop where
  | proceed {e : Event H} {c' : Conn H} (h : Proceeds files 0 c c') : Moves files c e c'
  | register (handler : H) :
      Moves files c (.setSendCompleteHandler handler) (c.setSendCompleteHandler handler)
  | invoke {e : Event H} {d : Conn H} {handler : H} {rest : List (Nat × H)}
      (h : Proceeds files 0 c d) (hlive : d.state ≠ .closed) (hidle : d.running = false)
      (hqueue : d.sendCompleteHandlerQueue = (d.nextId, handler) :: rest) :
      Moves files c e (d.call handler)
  | handlerReturn {e : Event H} {c' : Conn H} (hrunning : c.running = true)
      (h : Proceeds files 0 { c with
        running := false
        sendCompleteHandlerQueue := c.sendCompleteHandlerQueue.tail
        nextId := c.nextId + 1 } c') : Moves files c e c'

private theorem handleWrite_moves (files : Nat → Bytes) {c : Conn H} (hidle : c.running = false)
    (w f : IoResult) : Moves files c (.writable w f) (c.handleWrite files w f) := by
  unfold Conn.handleWrite
  split
  · exact .proceed (.refl c)
  · next hskip =>
    have hlive : c.state ≠ .closed := by
      intro hclosed
      exact hskip (by simp [Conn.isClosed, hclosed])
    dsimp only
    have hbytes : Proceeds files 0 c (c.writeByteStream w).1 := .writeByteStream c w
    have hbytesLive := @writeByteStream_live _ c hlive w
    generalize c.writeByteStream w = p at hbytes hbytesLive ⊢
    obtain ⟨d, returned⟩ := p
    dsimp only at hbytes hbytesLive ⊢
    split
    · exact .proceed hbytes
    · next hreturned =>
      have hfile : Proceeds files 0 c (d.writeFile files f).1 := hbytes.andThen (.writeFile d f)
      have hfileLive := @writeFile_live _ files d (hbytesLive hreturned) f
      generalize d.writeFile files f = q at hfile hfileLive ⊢
      obtain ⟨d', returned'⟩ := q
      dsimp only at hfile hfileLive ⊢
      split
      · exact .proceed hfile
      · next hreturned' =>
        unfold Conn.callHandler
        split
        · next id handler rest hqueue =>
            split
            · next hid =>
                subst hid
                exact .invoke hfile (hfileLive hreturned') (hfile.running.trans hidle) hqueue
            · exact .proceed (hfile.andThen (.finishWrite d'))
        · exact .proceed (hfile.andThen (.finishWrite d'))

theorem step_moves (files : Nat → Bytes) (c : Conn H) (e : Event H) :
    Moves files c e (c.step files e) := by
  cases e with
  | send before data r => exact .proceed (.sendInLoop c before data r)
  | sendFile f r => exact .proceed (.sendFileInLoop c f r)
  | setSendCompleteHandler handler => exact .register handler
  | close => exact .proceed (.close c)
  | writable w f =>
      unfold Conn.step
      dsimp only
      split
      · exact .proceed (.refl c)
      · next hrunning => exact handleWrite_moves files (by simpa using hrunning) w f
  | handlerReturn =>
      unfold Conn.step
      dsimp only
      split
      · next hrunning => exact .handlerReturn hrunning (.finishWrite _)
      · exact .proceed (.refl c)
  | reset =>
      unfold Conn.step
      dsimp only
      split
      · exact .proceed (.refl c)
      · exact .proceed (.handleClose c true)

theorem AfterData.quiet {trace more : List (Action H)} (h : AfterData trace)
    (hmore : invocations more = []) : AfterData (trace ++ more) := by
  apply Each.append h
  apply each_of_forall
  rintro a ha before id handler rfl
  have hcall := List.flatMap_eq_nil_iff.mp hmore _ ha
  cases hcall

/-- The registered handlers that have not been called: the running one is still
at the head of its queue. -/
def Conn.uncalled (c : Conn H) : List (Nat × H) :=
  if c.running then c.sendCompleteHandlerQueue.tail else c.sendCompleteHandlerQueue

/-- What is queued behind a handler was submitted after its registration. -/
def Waits (files : Nat → Bytes) (c : Conn H) (p : Nat × H) : Prop :=
  ∃ earlier later, c.trace = earlier ++ .register p.1 p.2 :: later ∧
    c.queuedBehind files p.1 ≤ (submitted later).length

theorem Waits.append {files : Nat → Bytes} {c c' : Conn H} {p : Nat × H} (h : Waits files c p)
    {more : List (Action H)} (htrace : c'.trace = c.trace ++ more)
    (hbehind : c'.queuedBehind files p.1 ≤ c.queuedBehind files p.1 + (submitted more).length) :
    Waits files c' p := by
  obtain ⟨earlier, later, hsplit, hle⟩ := h
  refine ⟨earlier, later ++ more, ?_, ?_⟩
  · rw [htrace, hsplit, List.append_assoc, List.cons_append]
  · rw [submitted_append, List.length_append]
    omega

/-- The invariant of the completion handlers. -/
structure Ordered (files : Nat → Bytes) (c : Conn H) : Prop where
  history : registrations c.trace = invocations c.trace ++ c.uncalled
  atHandler : c.running = true → c.sendCompleteHandlerQueue ≠ []
  once : ((registrations c.trace).map Prod.fst).Pairwise (· < ·)
  fresh : ∀ p ∈ registrations c.trace, p.1 < c.sendId
  waits : c.state ≠ .closed → ∀ p ∈ c.sendCompleteHandlerQueue, Waits files c p
  afterData : AfterData c.trace

theorem Ordered.init (files : Nat → Bytes) (mark : Nat) (markHandler : Bool) (timer : Nat) :
    Ordered files (Conn.init mark markHandler timer : Conn H) where
  history := rfl
  atHandler := by simp [Conn.init]
  once := List.Pairwise.nil
  fresh := by simp [Conn.init, registrations]
  waits := by simp [Conn.init]
  afterData := each_nil

theorem Ordered.proceed {files : Nat → Bytes} {c c' : Conn H} (h : Ordered files c)
    (hproceeds : Proceeds files 0 c c') (hlive : c'.state ≠ .closed → c.state ≠ .closed) :
    Ordered files c' := by
  obtain ⟨more, htrace, hreg, hinv, hbehind⟩ := hproceeds.history
  have hregistrations : registrations c'.trace = registrations c.trace := by
    rw [htrace, registrations_append, hreg, List.append_nil]
  exact
    { history := by
        rw [hregistrations, htrace, invocations_append, hinv, List.append_nil, Conn.uncalled,
          hproceeds.running, hproceeds.handlers]
        exact h.history
      atHandler := by
        rw [hproceeds.running, hproceeds.handlers]
        exact h.atHandler
      once := hregistrations ▸ h.once
      fresh := by
        intro p hp
        rw [hregistrations] at hp
        exact Nat.lt_of_lt_of_le (h.fresh p hp) hproceeds.sendId
      waits := by
        intro hstate p hp
        rw [hproceeds.handlers] at hp
        apply (h.waits (hlive hstate) p hp).append htrace
        have := hbehind p.1
        omega
      afterData := by
        rw [htrace]
        exact h.afterData.quiet hinv }

theorem Ordered.handlerReturn {files : Nat → Bytes} {c : Conn H} (h : Ordered files c)
    (hrunning : c.running = true) : Ordered files { c with
      running := false
      sendCompleteHandlerQueue := c.sendCompleteHandlerQueue.tail
      nextId := c.nextId + 1 } where
  history := by
    have hhistory := h.history
    rw [Conn.uncalled, if_pos hrunning] at hhistory
    exact hhistory
  atHandler := by simp
  once := h.once
  fresh := h.fresh
  waits := fun hstate p hp => h.waits hstate p (List.mem_of_mem_tail hp)
  afterData := h.afterData

theorem Ordered.register {files : Nat → Bytes} {c : Conn H} (h : Ordered files c)
    (hrepresented : Represented c) (handler : H) :
    Ordered files (c.setSendCompleteHandler handler) where
  history := by
    have hreg : registrations (c.setSendCompleteHandler handler).trace =
        registrations c.trace ++ [(c.sendId, handler)] := by
      simp [Conn.setSendCompleteHandler, Conn.enableWrite, Conn.emit, Action.registration]
    have hinv : invocations (c.setSendCompleteHandler handler).trace = invocations c.trace := by
      simp [Conn.setSendCompleteHandler, Conn.enableWrite, Conn.emit, Action.invocation]
    have huncalled : (c.setSendCompleteHandler handler).uncalled =
        c.uncalled ++ [(c.sendId, handler)] := by
      unfold Conn.uncalled
      change (if c.running = true then (c.sendCompleteHandlerQueue ++ [(c.sendId, handler)]).tail
        else c.sendCompleteHandlerQueue ++ [(c.sendId, handler)]) = _
      split
      · next hrunning => exact List.tail_append_of_ne_nil (h.atHandler hrunning)
      · rfl
    rw [hreg, hinv, huncalled, h.history, List.append_assoc]
  atHandler := by simp [Conn.setSendCompleteHandler, Conn.enableWrite]
  once := by
    change ((registrations (c.trace ++ [.register c.sendId handler])).map Prod.fst).Pairwise
      (· < ·)
    rw [registrations_append, List.map_append, List.pairwise_append]
    refine ⟨h.once, by simp [Action.registration], ?_⟩
    intro i hi j hj
    obtain ⟨p, hp, rfl⟩ := List.mem_map.mp hi
    have hid : j = c.sendId := by simpa [Action.registration] using hj
    rw [hid]
    exact h.fresh p hp
  fresh := by
    intro p hp
    change p ∈ registrations (c.trace ++ [.register c.sendId handler]) at hp
    change p.1 < c.sendId + 1
    rw [registrations_append, List.mem_append] at hp
    rcases hp with hold | hnew
    · exact Nat.lt_succ_of_lt (h.fresh p hold)
    · have hid : p = (c.sendId, handler) := by simpa [Action.registration] using hnew
      rw [hid]
      exact Nat.lt_succ_self _
  waits := by
    intro hstate p hp
    have htrace : (c.setSendCompleteHandler handler).trace =
        c.trace ++ [.register c.sendId handler] := rfl
    rcases List.mem_append.mp hp with hold | hnew
    · exact (h.waits hstate p hold).append htrace (Nat.le_add_right _ _)
    · -- ids are given out in order, so nothing is queued behind the new one
      rw [List.mem_singleton] at hnew
      subst hnew
      obtain ⟨tasks, hopen⟩ := hrepresented hstate
      have hzero : (c.setSendCompleteHandler handler).queuedBehind files c.sendId = 0 :=
        hopen.queuedBehind_sendId files
      exact ⟨c.trace, [], htrace, Nat.le_trans (Nat.le_of_eq hzero) (Nat.zero_le _)⟩
  afterData := h.afterData.quiet (by simp [Action.invocation])

@[simp] theorem call_registrations (c : Conn H) (handler : H) :
    registrations (c.call handler).trace = registrations c.trace := by
  simp [Conn.call, Conn.emit, Action.registration]

@[simp] theorem call_invocations (c : Conn H) (handler : H) :
    invocations (c.call handler).trace = invocations c.trace ++ [(c.nextId, handler)] := by
  simp [Conn.call, Conn.emit, Action.invocation]

/-- A handler whose turn it is has the data in front of it accepted: the rest
of what was submitted is queued behind it. -/
theorem Waits.accepted {files : Nat → Bytes} {c : Conn H} {handler : H} {rest : List (Task H)}
    (h : Waits files c (c.nextId, handler)) (hopen : Open (c.call handler) (.handler handler :: rest))
    (hexact : Exact files (c.call handler) (.handler handler :: rest)) :
    ∃ earlier later, c.trace = earlier ++ .register c.nextId handler :: later ∧
      submitted earlier <+: Connection.accepted c.trace := by
  obtain ⟨earlier, later, hsplit, hbehind⟩ := h
  dsimp only at hsplit hbehind
  have hqueued : c.queuedBehind files c.nextId = (rest.flatMap (Task.payload files)).length :=
    hopen.queuedBehind_front files
  have hstream : Connection.accepted c.trace ++ rest.flatMap (Task.payload files) =
      submitted c.trace := by
    simpa [Exact, Conn.call, Conn.emit, Task.payload, Action.acceptedBytes,
      Action.submittedBytes] using hexact
  have hsubmitted : submitted c.trace = submitted earlier ++ submitted later := by
    rw [hsplit, submitted_append, submitted_cons]
    rfl
  refine ⟨earlier, later, hsplit, ?_⟩
  have hlength := congrArg List.length (hstream.trans hsubmitted)
  rw [List.length_append, List.length_append] at hlength
  exact List.prefix_of_prefix_length_le ⟨submitted later, hsubmitted.symm⟩ ⟨_, hstream⟩ (by omega)

theorem Ordered.call {files : Nat → Bytes} {d : Conn H} {handler : H} {rest : List (Nat × H)}
    (h : Ordered files d) (hidle : d.running = false)
    (hqueue : d.sendCompleteHandlerQueue = (d.nextId, handler) :: rest) (hlive : d.state ≠ .closed)
    (hexact : ExactlyRepresented files (d.call handler)) : Ordered files (d.call handler) where
  history := by
    have huncalled : d.uncalled = (d.nextId, handler) :: rest := by
      rw [Conn.uncalled, hidle, if_neg (by simp), hqueue]
    have hcalled : (d.call handler).uncalled = rest := by
      change d.sendCompleteHandlerQueue.tail = rest
      rw [hqueue, List.tail_cons]
    rw [call_registrations, call_invocations, hcalled, h.history, huncalled, List.append_assoc]
    rfl
  atHandler := by
    intro _
    change d.sendCompleteHandlerQueue ≠ []
    rw [hqueue]
    exact List.cons_ne_nil _ _
  once := by
    rw [call_registrations]
    exact h.once
  fresh := by
    rw [call_registrations]
    exact h.fresh
  waits := by
    intro _ p hp
    have htrace : (d.call handler).trace = d.trace ++ [.invoke d.nextId handler] := rfl
    exact (h.waits hlive p hp).append htrace (Nat.le_add_right _ _)
  afterData := by
    have hwaits : Waits files d (d.nextId, handler) := by
      apply h.waits hlive
      rw [hqueue]
      exact List.mem_cons_self
    obtain ⟨tasks, hopen, hstream⟩ := hexact hlive
    obtain ⟨x, more, rfl⟩ := hopen.atHandler rfl
    have hx : x = handler := by
      have hhead := hqueue.symm.trans hopen.handlers
      rw [lane_cons_some (f := Task.handler?) rfl] at hhead
      exact (congrArg Prod.snd (List.cons.inj hhead).1).symm
    subst hx
    apply Each.append h.afterData
    apply each_singleton
    intro id handler hcall
    obtain ⟨rfl, rfl⟩ := Action.invoke.inj hcall
    rw [List.append_nil]
    exact hwaits.accepted hopen hstream

private theorem ordered_step {files : Nat → Bytes} {c : Conn H} {e : Event H} (h : Ordered files c)
    (hexact : ExactlyRepresented files c) (hok : ¬ e.DirectAgain c) :
    Ordered files (c.step files e) := by
  have hexact' := exactlyRepresented_step files hexact hok
  have hlive : (c.step files e).state ≠ .closed → c.state ≠ .closed :=
    fun hstate hclosed => hstate (step_closed files hclosed e).1
  have hrepresented : Represented c := by
    intro hstate
    obtain ⟨tasks, hopen, _⟩ := hexact hstate
    exact ⟨tasks, hopen⟩
  have hmoves := step_moves files c e
  generalize c.step files e = c' at hmoves hexact' hlive ⊢
  cases hmoves with
  | proceed hproceeds => exact h.proceed hproceeds hlive
  | register handler => exact h.register hrepresented handler
  | invoke hproceeds hlive' hidle hqueue =>
      exact (h.proceed hproceeds hlive).call hidle hqueue hlive' hexact'
  | handlerReturn hrunning hproceeds =>
      exact (h.handlerReturn hrunning).proceed hproceeds hlive

theorem Ordered.completionOrder {files : Nat → Bytes} {c : Conn H} (h : Ordered files c) :
    CompletionOrder c.trace where
  order := ⟨c.uncalled, h.history.symm⟩
  once := h.once
  afterData := h.afterData

/-- In every run in which no direct write finds the socket unready, completion
handlers are called in registration order, at most once each, after the data in
front of them. -/
theorem handlers_follow_data (files : Nat → Bytes) (mark : Nat) (markHandler : Bool)
    (timer : Nat) (events : List (Event H))
    (hrun : Admissible (Conn.step files) (fun c e => ¬ Event.DirectAgain c e)
      (Conn.init mark markHandler timer) events) :
    CompletionOrder (run (Conn.step files) (Conn.init mark markHandler timer) events).trace := by
  have hstep : ∀ (c : Conn H) (e : Event H), ExactlyRepresented files c ∧ Ordered files c →
      ¬ e.DirectAgain c →
        ExactlyRepresented files (c.step files e) ∧ Ordered files (c.step files e) :=
    fun _ _ h hok => ⟨exactlyRepresented_step files h.1 hok, ordered_step h.2 h.1 hok⟩
  have hstart : ExactlyRepresented files (Conn.init mark markHandler timer : Conn H) ∧
      Ordered files (Conn.init mark markHandler timer : Conn H) :=
    ⟨exactlyRepresented_init files mark markHandler timer,
      Ordered.init files mark markHandler timer⟩
  exact (run_invariant hstep hstart hrun).2.completionOrder

/-- Two handlers with a byte and a file between them; the first submits more
from inside its call. -/
theorem handlers_follow_byte_and_file :
    CompletionOrder (run (Conn.step (fun _ => [1, 2])) (Conn.init 0 false 0 : Conn Nat)
      [.send 0 [7, 8] (.sent 1), .setSendCompleteHandler 1, .sendFile ⟨3, 0, 2⟩ .again,
        .setSendCompleteHandler 2, .writable (.sent 1) .again, .send 0 [9] .again,
        .handlerReturn, .writable .again (.sent 1), .writable .again (.sent 1)]).trace := by
  apply handlers_follow_data
  refine ⟨?_, ?_, ?_, ?_, ?_, ?_, ?_, ?_, ?_, trivial⟩
  all_goals simp [Event.DirectAgain, DirectAgain]
  decide

/-- A direct write that finds the socket unready queues a wrong byte: the
handler is called when that one has been taken and the submitted one has not. -/
theorem handler_called_after_wrong_byte :
    ¬ CompletionOrder (run (Conn.step (fun _ => [])) (Conn.init 0 false 0 : Conn Nat)
      [.send 0 [97] .again, .setSendCompleteHandler 1, .writable (.sent 1) .again]).trace := by
  intro h
  obtain ⟨earlier, later, hsplit, haccepted⟩ := h.afterData
    [.submit [97], .register 2 1, .accept [0]] (.invoke 2 1) [] (by decide) 2 1 rfl
  have hearlier : earlier = [.submit [97]] := by
    rcases earlier with _ | ⟨a, _ | ⟨b, _ | ⟨x, earlier⟩⟩⟩
    · simp at hsplit
    · simp only [List.cons_append, List.nil_append, List.cons.injEq] at hsplit
      rw [hsplit.1]
    · simp at hsplit
    · simp at hsplit
  rw [hearlier] at haccepted
  exact absurd haccepted (by decide)

end Angel.Connection
