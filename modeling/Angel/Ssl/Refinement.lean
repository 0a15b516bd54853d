import Angel.Connection.Completion
import Angel.Ssl.Sending

/-!
An `ssl_connection` does what a `connection` does. As long as the parts of files lie inside their
files, the mapped window is the front of the file part, and each step is the step of `connection`
where the system calls come to what `SSL_write` came to. What it adds are the calls of `SSL_write`,
which are read off the connection before the step.
-/

namespace Angel.Ssl

open Lib Connection

variable {H : Type}

/-- The result of a system call that does the same to the connection. -/
def WriteResult.plain : WriteResult → IoResult
  | .written n => .sent n
  | .wantRead => .again
  | .wantWrite => .again
  | .failed => .error

/-- A chunk of a file is all that is offered. -/
def WriteResult.plainFile : WriteResult → IoResult
  | .written n => .sent (min n chunkSize)
  | r => r.plain

def Event.plain : Event H → Connection.Event H
  | .send before data r => .send before data r.plain
  | .sendFile f r => .sendFile f r.plainFile
  | .setSendCompleteHandler handler => .setSendCompleteHandler handler
  | .close => .close
  | .writable w f => .writable w.plain f.plainFile
  | .handlerReturn => .handlerReturn
  | .reset => .reset

/-- A submission is written directly. -/
def Direct (c : Conn H) : Prop := c.isClosed = false ∧ c.writing = false ∧ c.sendQueueIsEmpty = true

instance (c : Conn H) : Decidable (Direct c) := inferInstanceAs (Decidable (_ ∧ _ ∧ _))

/-- The first chunk of a file part. -/
def chunk (files : Nat → Bytes) (f : File) : Bytes := (f.slice files).take chunkSize

/-- The byte stream that has its turn. -/
def streamTurn (c : Conn H) : Option Bytes :=
  match c.byteStreamQueue with
  | [] => none
  | (id, len) :: _ => if id = c.nextId then some (c.outputBuf.take len) else none

/-- The file part that has its turn. -/
def fileTurn (c : Conn H) : Option File :=
  match c.sendFileQueue with
  | [] => none
  | (id, f) :: _ => if id = c.nextId then some f else none

def streamCalls (c : Conn H) (r : WriteResult) : List Call :=
  ((streamTurn c).map (⟨.outputBuf, ·, r⟩)).toList

def fileCalls (files : Nat → Bytes) (c : Conn H) (r : WriteResult) : List Call :=
  ((fileTurn c).map (⟨.mapped, chunk files ·, r⟩)).toList

/-- The calls of `SSL_write` in `handle_write`. -/
def writeCalls (files : Nat → Bytes) (c : Conn H) (w f : WriteResult) : List Call :=
  if c.isClosed || !c.writing then []
  else
    let (c', returned) := c.writeByteStream w.plain
    streamCalls c w ++ if returned then [] else fileCalls files c' f

/-- The calls of `SSL_write` that an event comes to. -/
def callsOf (files : Nat → Bytes) (c : Conn H) : Event H → List Call
  | .send before data r => if Direct c then [⟨.user before, data, r⟩] else []
  | .sendFile f r => if Direct c then [⟨.mapped, chunk files f, r⟩] else []
  | .writable w f => if c.running then [] else writeCalls files c w f
  | _ => []

/-- The parts of files that are queued lie inside their files. -/
def InFile (files : Nat → Bytes) (f : File) : Prop := f.offset + f.count ≤ (files f.fd).length

instance (files : Nat → Bytes) (f : File) : Decidable (InFile files f) :=
  inferInstanceAs (Decidable (_ ≤ _))

def Ranged (files : Nat → Bytes) (c : Conn H) : Prop :=
  ∀ id f, (id, f) ∈ c.sendFileQueue → InFile files f

def Event.Ranged (files : Nat → Bytes) : Event H → Prop
  | .sendFile f _ => InFile files f
  | _ => True

section Ranges

variable {files : Nat → Bytes} {c c' : Conn H}

private theorem Ranged.congr (h : Ranged files c) (hqueue : c'.sendFileQueue = c.sendFileQueue) :
    Ranged files c' := by
  intro id f hmem
  exact h id f (hqueue ▸ hmem)

private theorem Ranged.emit (h : Ranged files c) (a : Action H) : Ranged files (c.emit a) := h

private theorem handleClose_ranged (h : Ranged files c) (isForced : Bool) :
    Ranged files (c.handleClose isForced) :=
  h.congr (handleClose_queues c isForced).2

private theorem transfer_ranged (h : Ranged files c) (data : Bytes) (r : IoResult) :
    Ranged files (c.transfer data r).1 :=
  h.congr (transfer_queues c data r).2

private theorem queueBytes_ranged (h : Ranged files c) (bytes : Bytes) :
    Ranged files (c.queueBytes bytes) := by
  unfold Conn.queueBytes
  dsimp only
  split <;> exact h.congr rfl

private theorem InFile.advance {f : File} (h : InFile files f) (k : Nat) :
    InFile files ⟨f.fd, f.offset + min k f.count, f.count - min k f.count⟩ := by
  unfold InFile at h ⊢
  simp only
  omega

private theorem sendfile_count (files : Nat → Bytes) (c : Conn H) (f : File) (r : IoResult) :
    ∃ k, (c.sendfile files f r).2.toNat = min k f.count := by
  have hslice : (f.slice files).length ≤ f.count := List.length_take_le _ _
  cases r with
  | sent n =>
      refine ⟨min n (f.slice files).length, ?_⟩
      simp only [Conn.sendfile, Conn.transfer, List.length_take, Int.toNat_natCast]
      omega
  | again =>
      refine ⟨0, ?_⟩
      simp only [Conn.sendfile, Conn.transfer]
      split <;> simp
  | error =>
      refine ⟨0, ?_⟩
      simp only [Conn.sendfile, Conn.transfer]
      split <;> simp

private theorem sendInLoop_ranged (h : Ranged files c) (before : UInt8) (data : Bytes)
    (r : IoResult) : Ranged files (c.sendInLoop before data r) := by
  unfold Conn.sendInLoop
  split
  · exact h
  · dsimp only
    have hwrite : Ranged files (if (!(c.emit (.submit data)).writing &&
        (c.emit (.submit data)).sendQueueIsEmpty) = true then (c.emit (.submit data)).write data r
        else (c.emit (.submit data), 0)).1 := by
      split
      · exact transfer_ranged (h.emit _) data r
      · exact h.congr rfl
    generalize (if (!(c.emit (.submit data)).writing &&
      (c.emit (.submit data)).sendQueueIsEmpty) = true then (c.emit (.submit data)).write data r
      else (c.emit (.submit data), 0)) = p at hwrite ⊢
    obtain ⟨c', n⟩ := p
    dsimp only at hwrite ⊢
    split
    · exact hwrite
    · generalize (if 0 < n then data.length - n.toNat else data.length) = len
      split
      · exact queueBytes_ranged hwrite _
      · exact hwrite

private theorem sendFileInLoop_ranged (h : Ranged files c) {f : File} (hin : InFile files f)
    (r : IoResult) : Ranged files (c.sendFileInLoop files f r) := by
  unfold Conn.sendFileInLoop
  split
  · exact h
  · dsimp only
    have hwrite : Ranged files (if (!(c.emit (.submit (f.slice files))).writing &&
        (c.emit (.submit (f.slice files))).sendQueueIsEmpty) = true then
          (c.emit (.submit (f.slice files))).sendfile files f r
        else (c.emit (.submit (f.slice files)), 0)).1 ∧
        ∃ k, (if (!(c.emit (.submit (f.slice files))).writing &&
          (c.emit (.submit (f.slice files))).sendQueueIsEmpty) = true then
            (c.emit (.submit (f.slice files))).sendfile files f r
          else (c.emit (.submit (f.slice files)), 0)).2.toNat = min k f.count := by
      split
      · exact ⟨transfer_ranged (h.emit _) _ r, sendfile_count _ _ f r⟩
      · exact ⟨h.congr rfl, 0, by simp⟩
    generalize (if (!(c.emit (.submit (f.slice files))).writing &&
      (c.emit (.submit (f.slice files))).sendQueueIsEmpty) = true then
        (c.emit (.submit (f.slice files))).sendfile files f r
      else (c.emit (.submit (f.slice files)), 0)) = p at hwrite ⊢
    obtain ⟨c', n⟩ := p
    obtain ⟨hwrite, k, hk⟩ := hwrite
    dsimp only at hwrite hk ⊢
    split
    · exact hwrite
    · have hrest : InFile files (if 0 < n then
          (⟨f.fd, f.offset + n.toNat, f.count - n.toNat⟩ : File) else f) := by
        split
        · exact hk ▸ hin.advance k
        · exact hin
      generalize (if 0 < n then (⟨f.fd, f.offset + n.toNat, f.count - n.toNat⟩ : File)
        else f) = rest at hrest ⊢
      split
      · intro id g hmem
        obtain hold | hnew := List.mem_append.mp hmem
        · exact hwrite id g hold
        · obtain ⟨-, rfl⟩ := Prod.mk.inj (List.mem_singleton.mp hnew)
          exact hrest
      · exact hwrite

private theorem writeByteStream_files (c : Conn H) (r : IoResult) :
    (c.writeByteStream r).1.sendFileQueue = c.sendFileQueue := by
  unfold Conn.writeByteStream
  split
  · rfl
  · split
    · rename_i id len rest _ _
      have hwrite := (transfer_queues c (c.outputBuf.take len) r).2
      change (c.write (c.outputBuf.take len) r).1.sendFileQueue = _ at hwrite
      generalize c.write (c.outputBuf.take len) r = p at hwrite ⊢
      obtain ⟨c', n⟩ := p
      dsimp only at hwrite ⊢
      split
      · split <;> exact hwrite
      · exact hwrite
    · rfl

private theorem writeFile_ranged (h : Ranged files c) (r : IoResult) :
    Ranged files (c.writeFile files r).1 := by
  unfold Conn.writeFile
  split
  · exact h
  · rename_i id f rest hqueue
    split
    · have hwrite : Ranged files (c.sendfile files f r).1 := transfer_ranged h _ r
      obtain ⟨k, hk⟩ := sendfile_count files c f r
      generalize c.sendfile files f r = p at hwrite hk ⊢
      obtain ⟨c', n⟩ := p
      dsimp only at hwrite hk ⊢
      have hrest : ∀ i g, (i, g) ∈ rest → InFile files g :=
        fun i g hmem => h i g (by simp [hqueue, hmem])
      have hfront : InFile files f := h id f (by simp [hqueue])
      split
      · split
        · exact hrest
        · intro i g hmem
          obtain heq | hmem := List.mem_cons.mp hmem
          · obtain ⟨-, rfl⟩ := Prod.mk.inj heq
            exact hk ▸ hfront.advance k
          · exact hrest i g hmem
      · exact hwrite
    · exact h

private theorem finishWrite_ranged (h : Ranged files c) : Ranged files c.finishWrite := by
  unfold Conn.finishWrite
  split
  · dsimp only
    have hdisabled : Ranged files c.disableWrite := h
    split
    · exact handleClose_ranged hdisabled true
    · exact hdisabled
  · exact h

private theorem callHandler_ranged (h : Ranged files c) : Ranged files c.callHandler := by
  unfold Conn.callHandler
  split
  · split
    · exact h.congr rfl
    · exact finishWrite_ranged h
  · exact finishWrite_ranged h

private theorem handleWrite_ranged (h : Ranged files c) (w f : IoResult) :
    Ranged files (c.handleWrite files w f) := by
  unfold Conn.handleWrite
  have hstream : Ranged files (c.writeByteStream w).1 := h.congr (writeByteStream_files c w)
  have hfile := writeFile_ranged hstream f
  split
  · exact h
  · dsimp only
    split
    · exact hstream
    · split
      · exact hfile
      · exact callHandler_ranged hfile

theorem step_ranged (h : Ranged files c) {e : Event H} (hin : e.Ranged files) :
    Ranged files (c.step files e.plain) := by
  cases e with
  | send before data r => exact sendInLoop_ranged h before data r.plain
  | sendFile f r => exact sendFileInLoop_ranged h hin r.plainFile
  | setSendCompleteHandler handler => exact h.congr rfl
  | close => exact handleClose_ranged (h.emit _) false
  | writable w f =>
      simp only [Event.plain, Conn.step]
      split
      · exact h
      · exact handleWrite_ranged h w.plain f.plainFile
  | handlerReturn =>
      simp only [Event.plain, Conn.step]
      split
      · exact finishWrite_ranged (h.congr rfl)
      · exact h
  | reset =>
      simp only [Event.plain, Conn.step]
      split
      · exact h
      · exact handleClose_ranged h true

end Ranges

private theorem window_eq (pagesize : Nat) {content : Bytes} {offset count : Nat}
    (hin : offset + count ≤ content.length) :
    let diff := offset - pageAligned pagesize offset
    let size := min chunkSize count + diff
    ((mmap content (pageAligned pagesize offset) size).drop diff).take (size - diff) =
      ((content.drop offset).take count).take chunkSize := by
  intro diff size
  have hle : pageAligned pagesize offset ≤ offset := Nat.div_mul_le_self offset pagesize
  have hoffset : pageAligned pagesize offset + diff = offset := Nat.add_sub_cancel' hle
  have hsize : size - diff = min chunkSize count := Nat.add_sub_cancel _ diff
  have hlong : size ≤ (content.drop (pageAligned pagesize offset)).length := by
    simp only [size, List.length_drop]
    omega
  rw [mmap, List.takeD_eq_take _ hlong, List.drop_take, List.drop_drop, hoffset, hsize,
    List.take_take, List.take_take, Nat.min_self]

namespace Session

variable {pagesize : Nat} {files : Nat → Bytes} {s : Session H}

theorem write_eq (hopen : s.conn.state ≠ .closed) (origin : Origin) (data : Bytes)
    (r : WriteResult) : s.write origin data r =
      (⟨(s.conn.write data r.plain).1, s.calls ++ [⟨origin, data, r⟩]⟩,
        (s.conn.write data r.plain).2) := by
  have hnot : s.conn.isClosed = false := by simp [Conn.isClosed, hopen]
  cases r with
  | written n => rfl
  | wantRead => simp [write, Conn.write, Conn.transfer, WriteResult.plain, Conn.handleError, hnot]
  | wantWrite => simp [write, Conn.write, Conn.transfer, WriteResult.plain, Conn.handleError, hnot]
  | failed =>
      simp [write, update, Conn.write, Conn.transfer, WriteResult.plain, Conn.handleError,
        Conn.forceCloseConnection, Conn.handleClose, hnot, Conn.enterClosed]
      simp [Conn.isClosed]

theorem sendfile_eq (hopen : s.conn.state ≠ .closed) {f : File} (hin : InFile files f)
    (r : WriteResult) : s.sendfile pagesize files f r =
      (⟨(s.conn.sendfile files f r.plainFile).1, s.calls ++ [⟨.mapped, chunk files f, r⟩]⟩,
        (s.conn.sendfile files f r.plainFile).2) := by
  have hwindow := window_eq pagesize hin
  simp only [sendfile, hwindow, write_eq hopen]
  cases r with
  | written n =>
      simp [WriteResult.plain, WriteResult.plainFile, Conn.write, Conn.sendfile, Conn.transfer,
        chunk, File.slice, List.take_take]
  | wantRead => rfl
  | wantWrite => rfl
  | failed => rfl

theorem sendInLoop_eq (before : UInt8) (data : Bytes) (r : WriteResult) :
    s.sendInLoop before data r = ⟨s.conn.sendInLoop before data r.plain,
      s.calls ++ callsOf files s.conn (.send before data r)⟩ := by
  unfold sendInLoop Conn.sendInLoop callsOf
  split
  case isTrue hclosed => simp [Direct, hclosed]
  case isFalse hclosed =>
    have hlive : s.conn.state ≠ .closed := by simpa [Conn.isClosed] using hclosed
    have hopen : (s.update (·.emit (.submit data))).conn.state ≠ .closed := hlive
    have hconn : (s.update (·.emit (.submit data))).conn = s.conn.emit (.submit data) := rfl
    dsimp only
    by_cases hdirect : (!s.conn.writing && s.conn.sendQueueIsEmpty) = true
    · have hnow : Direct s.conn := by simpa [Direct, hclosed] using hdirect
      have htest : (!(s.conn.emit (.submit data)).writing &&
          (s.conn.emit (.submit data)).sendQueueIsEmpty) = true := hdirect
      have htest' : (!(s.update (·.emit (.submit data))).conn.writing &&
          (s.update (·.emit (.submit data))).conn.sendQueueIsEmpty) = true := hdirect
      rw [if_pos htest, if_pos htest', if_pos hnow, write_eq hopen, hconn]
      generalize (s.conn.emit (.submit data)).write data r.plain = p
      obtain ⟨c, n⟩ := p
      dsimp only [update]
      split
      · rfl
      · generalize (if 0 < n then data.length - n.toNat else data.length) = len
        split <;> rfl
    · have hnot : ¬ Direct s.conn := by
        intro hnow
        exact hdirect (by simp [hnow.2.1, hnow.2.2])
      have htest : ¬ (!(s.conn.emit (.submit data)).writing &&
          (s.conn.emit (.submit data)).sendQueueIsEmpty) = true := hdirect
      have htest' : ¬ (!(s.update (·.emit (.submit data))).conn.writing &&
          (s.update (·.emit (.submit data))).conn.sendQueueIsEmpty) = true := hdirect
      rw [if_neg htest, if_neg htest', if_neg hnot, List.append_nil]
      dsimp only [update]
      split
      · rfl
      · generalize (if (0 : Int) < 0 then data.length - (0 : Int).toNat else data.length) = len
        split <;> rfl

theorem sendFileInLoop_eq {f : File} (hin : InFile files f) (r : WriteResult) :
    s.sendFileInLoop pagesize files f r = ⟨s.conn.sendFileInLoop files f r.plainFile,
      s.calls ++ callsOf files s.conn (.sendFile f r)⟩ := by
  unfold sendFileInLoop Conn.sendFileInLoop callsOf
  split
  case isTrue hclosed => simp [Direct, hclosed]
  case isFalse hclosed =>
    have hlive : s.conn.state ≠ .closed := by simpa [Conn.isClosed] using hclosed
    have hopen : (s.update (·.emit (.submit (f.slice files)))).conn.state ≠ .closed := hlive
    have hconn : (s.update (·.emit (.submit (f.slice files)))).conn =
        s.conn.emit (.submit (f.slice files)) := rfl
    dsimp only
    by_cases hdirect : (!s.conn.writing && s.conn.sendQueueIsEmpty) = true
    · have hnow : Direct s.conn := by simpa [Direct, hclosed] using hdirect
      have htest : (!(s.conn.emit (.submit (f.slice files))).writing &&
          (s.conn.emit (.submit (f.slice files))).sendQueueIsEmpty) = true := hdirect
      have htest' : (!(s.update (·.emit (.submit (f.slice files)))).conn.writing &&
          (s.update (·.emit (.submit (f.slice files)))).conn.sendQueueIsEmpty) = true := hdirect
      rw [if_pos htest, if_pos htest', if_pos hnow, sendfile_eq hopen hin, hconn]
      generalize (s.conn.emit (.submit (f.slice files))).sendfile files f r.plainFile = p
      obtain ⟨c, n⟩ := p
      dsimp only [update]
      split
      · rfl
      · generalize (if 0 < n then (⟨f.fd, f.offset + n.toNat, f.count - n.toNat⟩ : File)
          else f) = rest
        split <;> rfl
    · have hnot : ¬ Direct s.conn := by
        intro hnow
        exact hdirect (by simp [hnow.2.1, hnow.2.2])
      have htest : ¬ (!(s.conn.emit (.submit (f.slice files))).writing &&
          (s.conn.emit (.submit (f.slice files))).sendQueueIsEmpty) = true := hdirect
      have htest' : ¬ (!(s.update (·.emit (.submit (f.slice files)))).conn.writing &&
          (s.update (·.emit (.submit (f.slice files)))).conn.sendQueueIsEmpty) = true := hdirect
      rw [if_neg htest, if_neg htest', if_neg hnot, List.append_nil]
      dsimp only [update]
      split
      · rfl
      · generalize (if (0 : Int) < 0 then (⟨f.fd, f.offset + (0 : Int).toNat,
          f.count - (0 : Int).toNat⟩ : File) else f) = rest
        split <;> rfl

private theorem writeByteStream_eq (hopen : s.conn.state ≠ .closed) (r : WriteResult) :
    s.writeByteStream r =
      (⟨(s.conn.writeByteStream r.plain).1, s.calls ++ streamCalls s.conn r⟩,
        (s.conn.writeByteStream r.plain).2) := by
  unfold writeByteStream Conn.writeByteStream streamCalls streamTurn
  cases s.conn.byteStreamQueue with
  | nil => simp
  | cons entry rest =>
      obtain ⟨id, len⟩ := entry
      dsimp only
      by_cases hturn : id = s.conn.nextId
      · simp only [if_pos hturn, write_eq hopen]
        generalize s.conn.write (s.conn.outputBuf.take len) r.plain = p
        obtain ⟨c, n⟩ := p
        by_cases hn : 0 < n
        · by_cases hlast : len - n.toNat = 0
          · simp [update, hn, hlast]
          · simp [update, hn, hlast]
        · simp [hn]
      · simp [hturn]

private theorem writeFile_eq (pagesize : Nat) (s : Session H) (hopen : s.conn.state ≠ .closed)
    (hin : Ranged files s.conn) (r : WriteResult) : s.writeFile pagesize files r =
      (⟨(s.conn.writeFile files r.plainFile).1, s.calls ++ fileCalls files s.conn r⟩,
        (s.conn.writeFile files r.plainFile).2) := by
  unfold writeFile Conn.writeFile fileCalls fileTurn
  cases hqueue : s.conn.sendFileQueue with
  | nil => simp
  | cons entry rest =>
      obtain ⟨id, f⟩ := entry
      have hfront : InFile files f := hin id f (by simp [hqueue])
      dsimp only
      by_cases hturn : id = s.conn.nextId
      · simp only [if_pos hturn, sendfile_eq hopen hfront]
        generalize s.conn.sendfile files f r.plainFile = p
        obtain ⟨c, n⟩ := p
        by_cases hn : 0 < n
        · by_cases hlast : f.count - n.toNat = 0
          · simp [update, hn, hlast]
          · simp [update, hn, hlast]
        · simp [hn]
      · simp [hturn]

private theorem handleWrite_eq (hin : Ranged files s.conn) (w f : WriteResult) :
    s.handleWrite pagesize files w f = ⟨s.conn.handleWrite files w.plain f.plainFile,
      s.calls ++ writeCalls files s.conn w f⟩ := by
  unfold handleWrite Conn.handleWrite writeCalls
  split
  · simp
  case isFalse hbusy =>
    have hopen : s.conn.state ≠ .closed := by
      intro hclosed
      exact hbusy (by simp [Conn.isClosed, hclosed])
    rw [writeByteStream_eq hopen]
    dsimp only
    by_cases hreturned : (s.conn.writeByteStream w.plain).2 = true
    · simp [hreturned]
    · have hlive := writeByteStream_live hopen hreturned
      have hranged : Ranged files (s.conn.writeByteStream w.plain).1 :=
        hin.congr (writeByteStream_files s.conn w.plain)
      have hfile := writeFile_eq pagesize
        ⟨(s.conn.writeByteStream w.plain).1, s.calls ++ streamCalls s.conn w⟩ hlive hranged f
      rw [if_neg hreturned, if_neg hreturned, if_neg hreturned, hfile]
      dsimp only
      split <;> simp [update]

theorem step_eq (hin : Ranged files s.conn) {e : Event H} (hevent : e.Ranged files) :
    s.step pagesize files e =
      ⟨s.conn.step files e.plain, s.calls ++ callsOf files s.conn e⟩ := by
  cases e with
  | send before data r => exact sendInLoop_eq before data r
  | sendFile f r => exact sendFileInLoop_eq hevent r
  | setSendCompleteHandler handler => simp [step, update, Event.plain, Conn.step, callsOf]
  | close => simp [step, update, Event.plain, Conn.step, callsOf]
  | writable w f =>
      simp only [step, Event.plain, Conn.step, callsOf]
      split
      · simp
      · exact handleWrite_eq hin w f
  | handlerReturn =>
      simp only [step, Event.plain, Conn.step, callsOf]
      split <;> simp [update]
  | reset =>
      simp only [step, Event.plain, Conn.step, callsOf]
      split <;> simp [update]

end Session

end Angel.Ssl
