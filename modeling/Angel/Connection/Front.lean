import Angel.Connection.Runs

/-!
What the socket has accepted is the front of what was submitted, and stays it when the connection
is closed with data still queued. `Quiet` is a piece of a trace on which nothing is accepted: what
closing a connection, a failed system call and a busy channel leave behind.
-/

namespace Angel.Connection

open Lib

variable {H : Type}

/-- Nothing was accepted on the way from one trace to the next. -/
structure Quiet (trace trace' : List (Action H)) : Prop where
  taken : accepted trace' = accepted trace
  asked : submitted trace <+: submitted trace'

namespace Quiet

variable {trace trace' trace'' : List (Action H)}

theorem refl (trace : List (Action H)) : Quiet trace trace := ⟨rfl, List.prefix_rfl⟩

theorem trans (h : Quiet trace trace') (h' : Quiet trace' trace'') : Quiet trace trace'' :=
  ⟨h'.taken.trans h.taken, h.asked.trans h'.asked⟩

theorem keeps (h : Quiet trace trace') (hfront : accepted trace <+: submitted trace) :
    accepted trace' <+: submitted trace' :=
  h.taken ▸ hfront.trans h.asked

theorem snoc {a : Action H} (h : a.acceptedBytes = []) : Quiet trace (trace ++ [a]) :=
  ⟨by simp [h], by simp⟩

end Quiet

private theorem cancelTtlTimer_quiet (c : Conn H) : Quiet c.trace c.cancelTtlTimer.trace := by
  unfold Conn.cancelTtlTimer
  split
  · exact .snoc rfl
  · exact .refl _

theorem handleClose_quiet (c : Conn H) (isForced : Bool) :
    Quiet c.trace (c.handleClose isForced).trace := by
  unfold Conn.handleClose
  split
  · exact .refl _
  · have hcancel := cancelTtlTimer_quiet c
    dsimp only
    split
    · exact hcancel
    · exact hcancel.trans (.snoc rfl)

theorem finishWrite_quiet (c : Conn H) : Quiet c.trace c.finishWrite.trace := by
  unfold Conn.finishWrite
  split
  · dsimp only
    split
    · exact handleClose_quiet c.disableWrite true
    · exact .refl _
  · exact .refl _

theorem callHandler_quiet (c : Conn H) : Quiet c.trace c.callHandler.trace := by
  unfold Conn.callHandler
  split
  · split
    · exact .snoc rfl
    · exact finishWrite_quiet c
  · exact finishWrite_quiet c

private theorem queueBytes_quiet (c : Conn H) (bytes : Bytes) :
    Quiet c.trace (c.queueBytes bytes).trace :=
  ⟨queueBytes_accepted c bytes, by simp⟩

theorem transfer_quiet (c : Conn H) (data : Bytes) {r : IoResult} (hr : ∀ n, r ≠ .sent n) :
    Quiet c.trace (c.transfer data r).1.trace := by
  cases r with
  | sent n => exact absurd rfl (hr n)
  | again => exact .refl _
  | error => exact handleClose_quiet c true

theorem sendInLoop_quiet (c : Conn H) (before : UInt8) (data : Bytes) {r : IoResult}
    (hr : ∀ n, r ≠ .sent n) :
    Quiet c.trace (c.sendInLoop before data r).trace := by
  unfold Conn.sendInLoop
  split
  · exact .refl _
  · have hsubmit : Quiet c.trace (c.emit (.submit data)).trace := .snoc rfl
    dsimp only
    generalize c.emit (.submit data) = d at hsubmit ⊢
    have hwrite : Quiet c.trace (if (!d.writing && d.sendQueueIsEmpty) = true then d.write data r
        else (d, 0)).1.trace := by
      split
      · exact hsubmit.trans (transfer_quiet d data hr)
      · exact hsubmit
    generalize (if (!d.writing && d.sendQueueIsEmpty) = true then d.write data r
      else (d, 0)) = p at hwrite ⊢
    obtain ⟨c', n⟩ := p
    dsimp only at hwrite ⊢
    generalize (if 0 < n then data.length - n.toNat else data.length) = len
    split
    · exact hwrite
    · split
      · exact hwrite.trans (queueBytes_quiet c' _)
      · exact hwrite

theorem handlerReturn_quiet (c : Conn H) : Quiet c.trace c.handlerReturn.trace :=
  finishWrite_quiet { c with
    running := false
    sendCompleteHandlerQueue := c.sendCompleteHandlerQueue.tail
    nextId := c.nextId + 1 }

theorem writeByteStream_quiet (c : Conn H) {r : IoResult} (hr : ∀ n, r ≠ .sent n) :
    Quiet c.trace (c.writeByteStream r).1.trace := by
  unfold Conn.writeByteStream
  split
  · exact .refl _
  · split
    · rename_i id len rest _ _
      have hwrite := transfer_quiet c (c.outputBuf.take len) hr
      change Quiet c.trace (c.write (c.outputBuf.take len) r).1.trace at hwrite
      generalize c.write (c.outputBuf.take len) r = p at hwrite ⊢
      obtain ⟨c', n⟩ := p
      dsimp only at hwrite ⊢
      split
      · split <;> exact hwrite
      · exact hwrite
    · exact .refl _

section Files

variable (files : Nat → Bytes)

theorem writeFile_quiet (c : Conn H) {r : IoResult} (hr : ∀ n, r ≠ .sent n) :
    Quiet c.trace (c.writeFile files r).1.trace := by
  unfold Conn.writeFile
  split
  · exact .refl _
  · split
    · rename_i id f rest _ _
      have hwrite := transfer_quiet c (f.slice files) hr
      change Quiet c.trace (c.sendfile files f r).1.trace at hwrite
      generalize c.sendfile files f r = p at hwrite ⊢
      obtain ⟨c', n⟩ := p
      dsimp only at hwrite ⊢
      split
      · split <;> exact hwrite
      · exact hwrite
    · exact .refl _

theorem sendFileInLoop_quiet (c : Conn H) (f : File) {r : IoResult}
    (hr : ∀ n, r ≠ .sent n) :
    Quiet c.trace (c.sendFileInLoop files f r).trace := by
  unfold Conn.sendFileInLoop
  split
  · exact .refl _
  · have hsubmit : Quiet c.trace (c.emit (.submit (f.slice files))).trace := .snoc rfl
    dsimp only
    generalize c.emit (.submit (f.slice files)) = d at hsubmit ⊢
    have hwrite : Quiet c.trace (if (!d.writing && d.sendQueueIsEmpty) = true then d.sendfile files f r
        else (d, 0)).1.trace := by
      split
      · exact hsubmit.trans (transfer_quiet d (f.slice files) hr)
      · exact hsubmit
    generalize (if (!d.writing && d.sendQueueIsEmpty) = true then d.sendfile files f r
      else (d, 0)) = p at hwrite ⊢
    obtain ⟨c', n⟩ := p
    dsimp only at hwrite ⊢
    generalize (if 0 < n then (⟨f.fd, f.offset + n.toNat, f.count - n.toNat⟩ : File) else f) = rest
    split
    · exact hwrite
    · split
      · exact hwrite
      · exact hwrite

theorem step_quiet_of_closed {c : Conn H} (hclosed : c.state = .closed) (e : Connection.Event H) :
    Quiet c.trace (c.step files e).trace := by
  have hnot : c.isClosed = true := by simp [Conn.isClosed, hclosed]
  cases e with
  | send before data r => simpa [Conn.step, Conn.sendInLoop, hnot] using Quiet.refl c.trace
  | sendFile f r => simpa [Conn.step, Conn.sendFileInLoop, hnot] using Quiet.refl c.trace
  | setSendCompleteHandler handler => exact .snoc rfl
  | close => exact Quiet.trans (.snoc rfl) (handleClose_quiet (c.emit .close) false)
  | writable w f => simpa [Conn.step, Conn.handleWrite, hnot] using Quiet.refl c.trace
  | handlerReturn =>
      unfold Conn.step
      dsimp only
      split
      · exact handlerReturn_quiet c
      · exact .refl _
  | reset =>
      unfold Conn.step
      dsimp only
      split
      · exact .refl _
      · exact handleClose_quiet c true

theorem Exact.front {c : Conn H} {tasks : List (Task H)} (h : Exact files c tasks) :
    accepted c.trace <+: submitted c.trace :=
  ⟨_, h⟩

/-- `handle_write` leaves the front of what was submitted, also where it closes the connection. -/
theorem handleWrite_front {c : Conn H} {tasks : List (Task H)} (h : Open c tasks)
    (hexact : Exact files c tasks) (hopen : c.state ≠ .closed) (hidle : c.running = false)
    (w f : IoResult) : accepted (c.handleWrite files w f).trace <+:
      submitted (c.handleWrite files w f).trace := by
  unfold Conn.handleWrite
  split
  · exact hexact.front files
  · dsimp only
    obtain ⟨rfl, hret, -⟩ | ⟨hret, hidle₁, hstate₁, tasks₁, hopen₁, hexact₁⟩ :=
      writeByteStream_advances files h hopen hidle w
    · rw [hret, if_pos rfl]
      exact (writeByteStream_quiet c (by simp)).keeps (hexact.front files)
    · rw [hret, if_neg Bool.false_ne_true]
      have hexact₁ := hexact₁ hexact
      generalize (c.writeByteStream w).1 = c₁ at *
      obtain ⟨rfl, hret₂, -⟩ | ⟨hret₂, -, -, tasks₂, -, hexact₂⟩ :=
        writeFile_advances files hopen₁ (hstate₁ ▸ hopen) hidle₁ f
      · rw [hret₂, if_pos rfl]
        exact (writeFile_quiet files c₁ (by simp)).keeps (hexact₁.front files)
      · rw [hret₂, if_neg Bool.false_ne_true]
        exact (callHandler_quiet _).keeps ((hexact₂ hexact₁).front files)

/-- From a state that is exact, every step leaves the front of what was submitted. -/
theorem step_front {c : Conn H} {tasks : List (Task H)} (h : Open c tasks)
    (hexact : Exact files c tasks) (hopen : c.state ≠ .closed) (e : Connection.Event H) :
    accepted (c.step files e).trace <+: submitted (c.step files e).trace := by
  have hfront := hexact.front files
  cases e with
  | send before data r =>
      cases r with
      | sent n =>
          obtain ⟨hr, -⟩ | ⟨-, tasks', -, hkeep⟩ :=
            sendInLoop_advances files h hopen before data (.sent n)
          · exact nomatch hr
          · exact (hkeep (fun hagain => nomatch hagain.1) hexact).front files
      | again => exact (sendInLoop_quiet c before data (by simp)).keeps hfront
      | error => exact (sendInLoop_quiet c before data (by simp)).keeps hfront
  | sendFile f r =>
      obtain ⟨rfl, -⟩ | ⟨-, tasks', -, hkeep⟩ := sendFileInLoop_advances files h hopen f r
      · exact (sendFileInLoop_quiet files c f (by simp)).keeps hfront
      · exact (hkeep hexact).front files
  | setSendCompleteHandler handler => exact (Quiet.snoc rfl).keeps hfront
  | close => exact (Quiet.trans (.snoc rfl) (handleClose_quiet (c.emit .close) false)).keeps hfront
  | writable w f =>
      unfold Conn.step
      dsimp only
      split
      · exact hfront
      case isFalse hrunning =>
        exact handleWrite_front files h hexact hopen (Bool.eq_false_of_not_eq_true hrunning) w f
  | handlerReturn =>
      unfold Conn.step
      dsimp only
      split
      · exact (handlerReturn_quiet c).keeps hfront
      · exact hfront
  | reset =>
      unfold Conn.step
      dsimp only
      split
      · exact hfront
      · exact (handleClose_quiet c true).keeps hfront

end Files

end Angel.Connection
