import Angel.Ssl.Refinement
import Mathlib.Data.List.Chain

/-!
How an `SSL_write` that has to be repeated is repeated. OpenSSL wants the same bytes again, and the
connection keeps them: they are the front of what is queued, and stay it until the call is made
again. Only data that `send_in_loop` wrote directly comes again from one byte earlier in memory.
-/

namespace Angel.Ssl

open Lib Connection

variable {H : Type}

/-- What a call is repeated with. A direct call with the bytes of the user is repeated from
`output_buf`, where the byte in front of them came with them, and the last one did not. -/
def Call.again (a : Call) : Origin × Bytes :=
  match a.origin with
  | .user before => (.outputBuf, (before :: a.bytes).take a.bytes.length)
  | .outputBuf => (.outputBuf, a.bytes)
  | .mapped => (.mapped, a.bytes)

/-- A call follows another one that had to be repeated. -/
def Repeats (a b : Call) : Prop := a.result.Wants → (b.origin, b.bytes) = a.again

/-- OpenSSL does not define a call with no bytes. -/
def Event.Filled : Event H → Prop
  | .send _ data _ => data ≠ []
  | .sendFile f _ => 0 < f.count
  | _ => True

/-- The call that a task at the front of the queues comes to. -/
def offer (files : Nat → Bytes) : Connection.Task H → Option (Origin × Bytes)
  | .bytes data => some (.outputBuf, data)
  | .file f => some (.mapped, chunk files f)
  | .handler _ => none

/-- What an event does to an open connection with these tasks, by these calls: the first of them is
what the front of the queues comes to, and what has to be repeated is the front afterwards. -/
structure Offers (files : Nat → Bytes) (tasks : List (Connection.Task H)) (new : List Call) (c' : Conn H) :
    Prop where
  first : ∀ b ∈ new.head?, ∀ t ∈ tasks.head?, offer files t = some (b.origin, b.bytes)
  chain : new.IsChain Repeats
  next : c'.state ≠ .closed → ∃ tasks', Open c' tasks' ∧
    (∀ a ∈ new.getLast?, a.result.Wants → ∃ t ∈ tasks'.head?, offer files t = some a.again) ∧
    (new = [] → ∀ t ∈ tasks.head?, offer files t ≠ none → t ∈ tasks'.head?)

section Steps

variable {files : Nat → Bytes} {c c' : Conn H} {tasks : List (Connection.Task H)} {t : Connection.Task H}

private theorem WriteResult.Wants.plain {r : WriteResult} (h : r.Wants) : r.plain = .again := by
  obtain rfl | rfl := h <;> rfl

private theorem WriteResult.Wants.plainFile {r : WriteResult} (h : r.Wants) :
    r.plainFile = .again := by
  obtain rfl | rfl := h <;> rfl

namespace Offers

theorem quiet {tasks' : List (Connection.Task H)} (h : Open c' tasks')
    (hfront : ∀ t ∈ tasks.head?, offer files t ≠ none → t ∈ tasks'.head?) :
    Offers files tasks [] c' where
  first := by simp
  chain := .nil
  next _ := ⟨tasks', h, by simp, fun _ => hfront⟩

theorem closes (h : c'.state = .closed) : Offers files tasks [] c' where
  first := by simp
  chain := .nil
  next hopen := absurd h hopen

theorem one {b : Call} (hfirst : ∀ t ∈ tasks.head?, offer files t = some (b.origin, b.bytes))
    (hlive : Represented c')
    (hwants : b.result.Wants → ∃ tasks', Open c' tasks' ∧
      ∃ t ∈ tasks'.head?, offer files t = some b.again) : Offers files tasks [b] c' where
  first := by simpa using hfirst
  chain := .singleton b
  next hopen := by
    by_cases hb : b.result.Wants
    · obtain ⟨tasks', htasks', hfront⟩ := hwants hb
      exact ⟨tasks', htasks', by simpa using fun _ => hfront, by simp⟩
    · obtain ⟨tasks', htasks'⟩ := hlive hopen
      exact ⟨tasks', htasks', by simpa using fun h => absurd h hb, by simp⟩

theorem cons {b : Call} {rest : List (Connection.Task H)} {new : List Call}
    (hb : offer files t = some (b.origin, b.bytes)) (hdone : ¬ b.result.Wants)
    (hlive : Represented c') (h : Offers files tasks new c') :
    Offers files (t :: rest) (b :: new) c' where
  first := by
    intro b' hb' t' ht'
    obtain rfl : b = b' := by simpa using hb'
    obtain rfl : t = t' := by simpa using ht'
    exact hb
  chain := h.chain.cons fun _ _ hwants => absurd hwants hdone
  next hopen := by
    cases new with
    | nil =>
        obtain ⟨tasks', htasks'⟩ := hlive hopen
        exact ⟨tasks', htasks', by simpa using fun h => absurd h hdone, by simp⟩
    | cons b' new =>
        obtain ⟨tasks', htasks', hlast, -⟩ := h.next hopen
        exact ⟨tasks', htasks', by simpa using hlast, by simp⟩

end Offers

private theorem streamTurn_front {data : Bytes} {rest : List (Connection.Task H)}
    (h : Open c (.bytes data :: rest)) : streamTurn c = some data := by
  have hqueue : c.byteStreamQueue =
      (c.nextId, data.length) :: lane Task.stream? (c.nextId + 1) rest := h.streams
  have hfront : c.outputBuf.take data.length = data := by
    rw [h.buffer, List.flatMap_cons]
    exact List.take_left
  simp [streamTurn, hqueue, hfront]

private theorem streamTurn_waits (h : Open c tasks)
    (hfront : ∀ t ∈ tasks.head?, t.stream? = none) : streamTurn c = none := by
  have hstreams := h.streams
  unfold streamTurn
  split
  · rfl
  · next id len more hqueue =>
    rw [hqueue] at hstreams
    rcases tasks with _ | ⟨t, rest⟩
    · cases hstreams
    · rw [if_neg (lane_cons_none_head (hfront t rfl) hstreams.symm)]

private theorem fileTurn_front {f : File} {rest : List (Connection.Task H)}
    (h : Open c (.file f :: rest)) : fileTurn c = some f := by
  have hqueue : c.sendFileQueue = (c.nextId, f) :: lane Task.file? (c.nextId + 1) rest :=
    h.sendFiles
  simp [fileTurn, hqueue]

private theorem fileTurn_waits (h : Open c tasks)
    (hfront : ∀ t ∈ tasks.head?, t.file? = none) : fileTurn c = none := by
  have hfiles := h.sendFiles
  unfold fileTurn
  split
  · rfl
  · next id f more hqueue =>
    rw [hqueue] at hfiles
    rcases tasks with _ | ⟨t, rest⟩
    · cases hfiles
    · rw [if_neg (lane_cons_none_head (hfront t rfl) hfiles.symm)]

/-- Data at the front keeps `handle_write` from the completion handlers and from its end. -/
private theorem callHandler_waits (h : Open c (t :: tasks)) (hfront : t.handler? = none) :
    c.callHandler = c := by
  have hqueue : c.sendQueueIsEmpty = false := by
    cases t with
    | bytes data =>
        have hstreams : c.byteStreamQueue = _ :: _ := h.streams
        simp [Conn.sendQueueIsEmpty, hstreams]
    | file f =>
        have hfiles : c.sendFileQueue = _ :: _ := h.sendFiles
        simp [Conn.sendQueueIsEmpty, hfiles]
    | handler x => cases hfront
  have hfinish : c.finishWrite = c := by simp [Conn.finishWrite, hqueue]
  have hhandlers := h.handlers
  unfold Conn.callHandler
  split
  · next id x more hhead =>
    rw [hhead] at hhandlers
    rw [if_neg (lane_cons_none_head hfront hhandlers.symm), hfinish]
  · exact hfinish

/-- `handle_write` behind the byte streams. -/
private def fileStage (files : Nat → Bytes) (c : Conn H) (f : IoResult) : Conn H :=
  let (c, returned) := c.writeFile files f
  if returned then c else c.callHandler

private theorem fileStage_live (h : Open c tasks) (hopen : c.state ≠ .closed)
    (hidle : c.running = false) (r : IoResult) : Represented (fileStage files c r) := by
  intro hstate
  unfold fileStage at hstate ⊢
  dsimp only at hstate ⊢
  obtain ⟨-, hret, hclosed⟩ | ⟨hret, hidle₁, hstate₁, tasks₁, hopen₁, -⟩ :=
    writeFile_advances files h hopen hidle r
  · rw [hret, if_pos rfl] at hstate
    exact absurd hclosed hstate
  · rw [hret, if_neg Bool.false_ne_true] at hstate ⊢
    obtain ⟨-, hclosed, -⟩ | ⟨-, tasks₂, hopen₂, -⟩ :=
      callHandler_advances files hopen₁ (hstate₁ ▸ hopen) hidle₁
    · exact absurd hclosed hstate
    · exact ⟨tasks₂, hopen₂⟩

private theorem fileStage_offers (h : Open c tasks) (hopen : c.state ≠ .closed)
    (hidle : c.running = false) (r : WriteResult) :
    Offers files tasks (fileCalls files c r) (fileStage files c r.plainFile) := by
  have hlive : Represented (fileStage files c r.plainFile) :=
    fileStage_live h hopen hidle r.plainFile
  cases tasks with
  | nil =>
      have hcalls : fileCalls files c r = [] := by
        simp [fileCalls, fileTurn_waits h (by simp)]
      rw [hcalls]
      exact ⟨by simp, .nil, fun hstate => (hlive hstate).imp fun _ htasks' =>
        ⟨htasks', by simp, by simp⟩⟩
  | cons t rest =>
      cases t with
      | bytes data =>
          have hcalls : fileCalls files c r = [] := by
            simp [fileCalls, fileTurn_waits h (by simp [Task.file?])]
          have hsame : fileStage files c r.plainFile = c := by
            simp [fileStage, writeFile_waits files h (by simp [Task.file?]),
              callHandler_waits h rfl]
          rw [hcalls, hsame]
          exact .quiet h fun _ ht _ => ht
      | handler x =>
          have hcalls : fileCalls files c r = [] := by
            simp [fileCalls, fileTurn_waits h (by simp [Task.file?])]
          rw [hcalls]
          exact ⟨by simp, .nil, fun hstate => (hlive hstate).imp fun _ htasks' =>
            ⟨htasks', by simp, by simp [offer]⟩⟩
      | file f =>
          have hcalls : fileCalls files c r = [⟨.mapped, chunk files f, r⟩] := by
            simp [fileCalls, fileTurn_front h]
          rw [hcalls]
          refine .one (by simp [offer]) hlive ?_
          intro hwants
          have hwrite : c.writeFile files r.plainFile = (c, false) := by
            have hqueue : c.sendFileQueue = (c.nextId, f) :: lane Task.file? (c.nextId + 1) rest :=
              h.sendFiles
            have hnot : c.isClosed = false := by simp [Conn.isClosed, hopen]
            simp [hwants.plainFile, Conn.writeFile, hqueue, Conn.sendfile, Conn.transfer,
              Conn.handleError, hnot]
          have hsame : fileStage files c r.plainFile = c := by
            simp [fileStage, hwrite, callHandler_waits h rfl]
          rw [hsame]
          exact ⟨.file f :: rest, h, .file f, rfl, rfl⟩

private theorem handleWrite_offers (h : Open c tasks) (hopen : c.state ≠ .closed)
    (hidle : c.running = false) (w f : WriteResult) :
    Offers files tasks (writeCalls files c w f)
      (c.handleWrite files w.plain f.plainFile) := by
  unfold writeCalls Conn.handleWrite
  split
  · exact .quiet h fun _ ht _ => ht
  · change Offers files tasks
      (streamCalls c w ++ if (c.writeByteStream w.plain).2 = true then []
        else fileCalls files (c.writeByteStream w.plain).1 f)
      (if (c.writeByteStream w.plain).2 = true then (c.writeByteStream w.plain).1
        else fileStage files (c.writeByteStream w.plain).1 f.plainFile)
    by_cases hfront : ∀ t ∈ tasks.head?, t.stream? = none
    · have hcalls : streamCalls c w = [] := by simp [streamCalls, streamTurn_waits h hfront]
      rw [writeByteStream_waits h hfront, hcalls, List.nil_append]
      exact fileStage_offers h hopen hidle f
    · obtain ⟨data, rest, rfl⟩ : ∃ data rest, tasks = .bytes data :: rest := by
        rcases tasks with _ | ⟨_ | _ | _, rest⟩
        · simp at hfront
        · exact ⟨_, rest, rfl⟩
        · simp [Task.stream?] at hfront
        · simp [Task.stream?] at hfront
      have hcalls : streamCalls c w = [⟨.outputBuf, data, w⟩] := by
        simp [streamCalls, streamTurn_front h]
      rw [hcalls, List.singleton_append]
      by_cases hwants : w.Wants
      · -- nothing is taken, and the data stays at the front
        have hwrite : c.writeByteStream w.plain = (c, false) := by
          have hqueue : c.byteStreamQueue =
              (c.nextId, data.length) :: lane Task.stream? (c.nextId + 1) rest := h.streams
          have hnot : c.isClosed = false := by simp [Conn.isClosed, hopen]
          simp [hwants.plain, Conn.writeByteStream, hqueue, Conn.write, Conn.transfer,
            Conn.handleError, hnot]
        have hfile : fileCalls files c f = [] := by
          simp [fileCalls, fileTurn_waits h (by simp [Task.file?])]
        have hsame : fileStage files c f.plainFile = c := by
          simp [fileStage, writeFile_waits files h (by simp [Task.file?]), callHandler_waits h rfl]
        rw [hwrite, if_neg Bool.false_ne_true, if_neg Bool.false_ne_true, hfile, hsame]
        exact .one (by simp [offer]) (fun _ => ⟨_, h⟩) fun _ => ⟨_, h, _, rfl, rfl⟩
      · obtain ⟨-, hret, hclosed⟩ | ⟨hret, hidle₁, hstate₁, tasks₁, hopen₁, -⟩ :=
          writeByteStream_front files h hopen hidle w.plain
        · rw [hret, if_pos rfl, if_pos rfl]
          exact .one (by simp [offer]) (fun hstate => absurd hclosed hstate)
            fun h => absurd h hwants
        · rw [hret, if_neg Bool.false_ne_true, if_neg Bool.false_ne_true]
          have hlive₁ : (c.writeByteStream w.plain).1.state ≠ .closed := hstate₁ ▸ hopen
          exact .cons rfl hwants (fileStage_live hopen₁ hlive₁ hidle₁ f.plainFile)
            (fileStage_offers hopen₁ hlive₁ hidle₁ f)

private theorem sendInLoop_offers (h : Open c tasks) (hopen : c.state ≠ .closed)
    (before : UInt8) {data : Bytes} (hdata : data ≠ []) (r : WriteResult) :
    Offers files tasks (callsOf files c (.send before data r))
      (c.sendInLoop before data r.plain) := by
  have hnot : c.isClosed = false := by simp [Conn.isClosed, hopen]
  have hsubmit : Open (c.emit (.submit data)) tasks := h.emit rfl rfl (by simp)
  have hpos : 0 < data.length := List.length_pos_iff.mpr hdata
  have hlive : Represented (c.sendInLoop before data r.plain) := by
    intro hstate
    obtain ⟨-, hclosed⟩ | ⟨-, tasks', htasks', -⟩ :=
      sendInLoop_advances files h hopen before data r.plain
    · exact absurd hclosed hstate
    · exact ⟨tasks', htasks'⟩
  by_cases hdirect : Direct c
  · obtain rfl : tasks = [] := h.tasks_nil hdirect.2.1
    simp only [callsOf, if_pos hdirect]
    refine .one (by simp) hlive ?_
    intro hwants
    have htest : (!(c.emit (.submit data)).writing &&
        (c.emit (.submit data)).sendQueueIsEmpty) = true := by
      change (!c.writing && c.sendQueueIsEmpty) = true
      simp [hdirect.2.1, hdirect.2.2]
    have hlater : (c.emit (.submit data)).isClosed = false := hnot
    have hqueue : c.sendInLoop before data r.plain =
        (c.emit (.submit data)).queueBytes (bytesAt before data (-1) data.length) := by
      simp [hwants.plain, Conn.sendInLoop, hnot, htest, Conn.write, Conn.transfer,
        Conn.handleError, hlater, hpos]
    have hbytes : bytesAt before data (-1) data.length ≠ [] := by simpa [bytesAt] using hdata
    rw [hqueue]
    exact ⟨_, hsubmit.queueBytes hbytes, _, rfl, rfl⟩
  · simp only [callsOf, if_neg hdirect]
    have htest : (!(c.emit (.submit data)).writing &&
        (c.emit (.submit data)).sendQueueIsEmpty) = false := by
      change (!c.writing && c.sendQueueIsEmpty) = false
      simpa [Direct, hnot] using hdirect
    have hbytes : bytesAt before data 0 data.length = data := by
      simpa using bytesAt_natCast before data 0
    have hqueue : c.sendInLoop before data r.plain = (c.emit (.submit data)).queueBytes data := by
      simp [Conn.sendInLoop, hnot, htest, hbytes, hpos]
    rw [hqueue]
    refine .quiet (hsubmit.queueBytes hdata) ?_
    intro t ht _
    simp only [List.head?_append, Option.mem_def.mp ht, Option.some_or, Option.mem_some_iff]

private theorem sendFileInLoop_offers (h : Open c tasks) (hopen : c.state ≠ .closed) {f : File}
    (hf : 0 < f.count) (r : WriteResult) :
    Offers files tasks (callsOf files c (.sendFile f r))
      (c.sendFileInLoop files f r.plainFile) := by
  have hnot : c.isClosed = false := by simp [Conn.isClosed, hopen]
  have hsubmit : Open (c.emit (.submit (f.slice files))) tasks := h.emit rfl rfl (by simp)
  have hlive : Represented (c.sendFileInLoop files f r.plainFile) := by
    intro hstate
    obtain ⟨-, hclosed⟩ | ⟨-, tasks', htasks', -⟩ :=
      sendFileInLoop_advances files h hopen f r.plainFile
    · exact absurd hclosed hstate
    · exact ⟨tasks', htasks'⟩
  by_cases hdirect : Direct c
  · obtain rfl : tasks = [] := h.tasks_nil hdirect.2.1
    simp only [callsOf, if_pos hdirect]
    refine .one (by simp) hlive ?_
    intro hwants
    have htest : (!(c.emit (.submit (f.slice files))).writing &&
        (c.emit (.submit (f.slice files))).sendQueueIsEmpty) = true := by
      change (!c.writing && c.sendQueueIsEmpty) = true
      simp [hdirect.2.1, hdirect.2.2]
    have hlater : (c.emit (.submit (f.slice files))).isClosed = false := hnot
    have hqueue : c.sendFileInLoop files f r.plainFile =
        (c.emit (.submit (f.slice files))).queueFile f := by
      simp [hwants.plainFile, Conn.sendFileInLoop, hnot, htest, Conn.sendfile, Conn.transfer,
        Conn.handleError, hlater, hf]
    rw [hqueue]
    exact ⟨_, hsubmit.queueFile hf, _, rfl, rfl⟩
  · simp only [callsOf, if_neg hdirect]
    have htest : (!(c.emit (.submit (f.slice files))).writing &&
        (c.emit (.submit (f.slice files))).sendQueueIsEmpty) = false := by
      change (!c.writing && c.sendQueueIsEmpty) = false
      simpa [Direct, hnot] using hdirect
    have hqueue : c.sendFileInLoop files f r.plainFile =
        (c.emit (.submit (f.slice files))).queueFile f := by
      simp [Conn.sendFileInLoop, hnot, htest, hf]
    rw [hqueue]
    refine .quiet (hsubmit.queueFile hf) ?_
    intro t ht _
    simp only [List.head?_append, Option.mem_def.mp ht, Option.some_or, Option.mem_some_iff]

theorem step_offers (files : Nat → Bytes) (h : Open c tasks) (hopen : c.state ≠ .closed)
    {e : Event H} (hfilled : e.Filled) :
    Offers files tasks (callsOf files c e) (c.step files e.plain) := by
  cases e with
  | send before data r => exact sendInLoop_offers h hopen before hfilled r
  | sendFile f r => exact sendFileInLoop_offers h hopen hfilled r
  | setSendCompleteHandler handler =>
      refine .quiet (h.setSendCompleteHandler handler) ?_
      intro t ht _
      simp only [List.head?_append, Option.mem_def.mp ht, Option.some_or, Option.mem_some_iff]
  | close =>
      obtain ⟨hclosed, -⟩ | ⟨-, hkept, -⟩ := close_outcome files h hopen
      · exact .closes hclosed
      · exact .quiet hkept fun _ ht _ => ht
  | writable w f =>
      simp only [callsOf, Event.plain, Conn.step]
      split
      · exact .quiet h fun _ ht _ => ht
      case isFalse hrunning =>
        exact handleWrite_offers h hopen (Bool.eq_false_of_not_eq_true hrunning) w f
  | handlerReturn =>
      simp only [callsOf, Event.plain, Conn.step]
      split
      case isTrue hrunning =>
        obtain ⟨handler, rest, rfl⟩ := h.atHandler hrunning
        obtain ⟨-, hclosed, -⟩ | ⟨-, tasks', htasks', -⟩ :=
          handlerReturn_advances files h hopen hrunning
        · exact .closes hclosed
        · exact .quiet htasks' (by simp [offer])
      case isFalse => exact .quiet h fun _ ht _ => ht
  | reset =>
      simp only [callsOf, Event.plain, Conn.step]
      split
      · exact .quiet h fun _ ht _ => ht
      · exact .closes (by simp [Conn.forceCloseConnection, Conn.handleClose, Conn.isClosed, hopen,
          Conn.enterClosed])

private theorem callsOf_closed (hclosed : c.state = .closed) (e : Event H) :
    callsOf files c e = [] := by
  have hnot : c.isClosed = true := by simp [Conn.isClosed, hclosed]
  cases e <;> simp [callsOf, Direct, writeCalls, hnot]

end Steps

namespace Session

variable {pagesize : Nat} {files : Nat → Bytes} {s : Session H} {e : Event H}

/-- What is sent is something, and a file part lies inside its file. -/
def Proper (files : Nat → Bytes) (_ : Session H) (e : Event H) : Prop :=
  e.Ranged files ∧ e.Filled

/-- A call that has to be repeated is what the front of the queues comes to. -/
structure Keeps (files : Nat → Bytes) (s : Session H) : Prop where
  ranged : Ranged files s.conn
  chain : s.calls.IsChain Repeats
  front : s.conn.state ≠ .closed → ∃ tasks, Open s.conn tasks ∧
    ∀ a ∈ s.calls.getLast?, a.result.Wants → ∃ t ∈ tasks.head?, offer files t = some a.again

private theorem init_keeps (files : Nat → Bytes) (mark : Nat) (markHandler : Bool) (timer : Nat) :
    Keeps files (init mark markHandler timer : Session H) where
  ranged _ _ hmem := absurd hmem List.not_mem_nil
  chain := .nil
  front _ := ⟨[], Open.init mark markHandler timer, by simp [init]⟩

private theorem step_keeps (pagesize : Nat) (s : Session H) (e : Event H) (h : Keeps files s)
    (hok : Proper files s e) : Keeps files (s.step pagesize files e) := by
  obtain ⟨hevent, hfilled⟩ := hok
  rw [step_eq h.ranged hevent]
  have hranged := step_ranged h.ranged hevent
  obtain hclosed | hopen := eq_or_ne s.conn.state .closed
  · have hnext := (step_closed files hclosed e.plain).1
    refine ⟨hranged, ?_, fun hlive => absurd hnext hlive⟩
    simpa [callsOf_closed hclosed] using h.chain
  obtain ⟨tasks, htasks, hfront⟩ := h.front hopen
  obtain ⟨hfirst, hchain, hnext⟩ := step_offers files htasks hopen hfilled
  refine ⟨hranged, h.chain.append hchain ?_, ?_⟩
  · intro a ha b hb hwants
    obtain ⟨t, ht, hoffer⟩ := hfront a ha hwants
    exact Option.some.inj ((hfirst b hb t ht).symm.trans hoffer)
  · intro hlive
    obtain ⟨tasks', htasks', hlast, hkeep⟩ := hnext hlive
    refine ⟨tasks', htasks', ?_⟩
    intro a ha hwants
    cases hnew : callsOf files s.conn e with
    | nil =>
        obtain ⟨t, ht, hoffer⟩ := hfront a (by simpa [hnew] using ha) hwants
        exact ⟨t, hkeep hnew t ht (by simp [hoffer]), hoffer⟩
    | cons b more =>
        have hlater : a ∈ (callsOf files s.conn e).getLast? := by
          rw [hnew] at ha ⊢
          simpa [List.getLast?_append] using ha
        exact hlast a hlater hwants

/-- In every run, an `SSL_write` that has to be repeated is repeated before any other, with the same
bytes from the same kind of place; after a direct write of data, with what `send_in_loop` queued of
it. -/
theorem calls_repeated (pagesize : Nat) (files : Nat → Bytes) (mark : Nat) (markHandler : Bool)
    (timer : Nat) {events : List (Event H)}
    (hrun : Admissible (step pagesize files) (Proper files) (init mark markHandler timer) events) :
    (run (step pagesize files) (init mark markHandler timer) events).calls.IsChain Repeats :=
  (run_invariant (step_keeps pagesize) (init_keeps files mark markHandler timer) hrun).chain

/-- A file part that is offered three times, and data that comes again with the byte in front of
it. -/
def repeatedEvents : List (Event Unit) :=
  [.sendFile ⟨3, 4, 4⟩ .wantWrite, .writable .failed .wantRead, .writable .failed (.written 4),
    .send 6 [7, 8] .wantRead, .writable (.written 2) .failed]

theorem calls_repeated_shifted :
    let s := run (step 4 fun _ => [0, 1, 2, 3, 4, 5, 6, 7]) (init 0 false 0) repeatedEvents
    s.calls.map (fun call => (call.bytes, call.result)) =
      [([4, 5, 6, 7], .wantWrite), ([4, 5, 6, 7], .wantRead), ([4, 5, 6, 7], .written 4),
        ([7, 8], .wantRead), ([6, 7], .written 2)] ∧ s.calls.IsChain Repeats := by
  intro s
  have hfile : 4 + 4 ≤ 8 ∧ 0 < 4 := by decide
  have hrun : Admissible (step 4 fun _ => [0, 1, 2, 3, 4, 5, 6, 7])
      (Proper fun _ => [0, 1, 2, 3, 4, 5, 6, 7]) (init 0 false 0) repeatedEvents :=
    ⟨hfile, ⟨trivial, trivial⟩, ⟨trivial, trivial⟩, ⟨trivial, List.cons_ne_nil _ _⟩,
      ⟨trivial, trivial⟩, trivial⟩
  exact ⟨by decide, calls_repeated 4 (fun _ => [0, 1, 2, 3, 4, 5, 6, 7]) 0 false 0 hrun⟩

end Session

end Angel.Ssl
