import Angel.Connection.Model

/-!
The state of a connection only moves forward: a connection that has left
`Connected`, by `close` or by a failed system call, never returns to it.
-/

namespace Angel.Connection

variable {H : Type}

/-- The connection has been closed or is being closed. -/
def Conn.Left (c : Conn H) : Prop := c.state ≠ .connected

theorem handleClose_left (c : Conn H) (isForced : Bool) : (c.handleClose isForced).Left := by
  unfold Conn.handleClose Conn.Left
  split
  · next hclosed =>
      have hstate : c.state = .closed := by simpa [Conn.isClosed] using hclosed
      rw [hstate]
      simp
  · dsimp only
    split
    · simp
    · simp [Conn.enterClosed]

theorem close_left (c : Conn H) : c.close.Left := handleClose_left _ false

theorem transfer_left {c : Conn H} (h : c.Left) (data : Bytes) (r : IoResult) :
    (c.transfer data r).1.Left := by
  cases r with
  | sent n => exact h
  | again => exact h
  | error => exact handleClose_left c true

private theorem queueBytes_left {c : Conn H} (h : c.Left) (bytes : Bytes) :
    (c.queueBytes bytes).Left := by
  unfold Conn.queueBytes
  dsimp only
  split
  · exact h
  · exact h

theorem sendInLoop_left {c : Conn H} (h : c.Left) (before : UInt8) (data : Bytes) (r : IoResult) :
    (c.sendInLoop before data r).Left := by
  unfold Conn.sendInLoop
  split
  · exact h
  · dsimp only
    have hsubmit : (c.emit (.submit data)).Left := h
    generalize c.emit (.submit data) = d at hsubmit ⊢
    have hwrite : (if (!d.writing && d.sendQueueIsEmpty) = true then d.write data r
        else (d, 0)).1.Left := by
      split
      · exact transfer_left hsubmit data r
      · exact hsubmit
    generalize (if (!d.writing && d.sendQueueIsEmpty) = true then d.write data r
      else (d, 0)) = p at hwrite ⊢
    obtain ⟨c', n⟩ := p
    dsimp only at hwrite ⊢
    generalize (if 0 < n then data.length - n.toNat else data.length) = len
    split
    · exact hwrite
    · split
      · exact queueBytes_left hwrite _
      · exact hwrite

section Files

variable (files : Nat → Bytes)

theorem sendFileInLoop_left {c : Conn H} (h : c.Left) (f : File) (r : IoResult) :
    (c.sendFileInLoop files f r).Left := by
  unfold Conn.sendFileInLoop
  split
  · exact h
  · dsimp only
    have hsubmit : (c.emit (.submit (f.slice files))).Left := h
    generalize c.emit (.submit (f.slice files)) = d at hsubmit ⊢
    have hwrite : (if (!d.writing && d.sendQueueIsEmpty) = true then d.sendfile files f r
        else (d, 0)).1.Left := by
      split
      · exact transfer_left hsubmit (f.slice files) r
      · exact hsubmit
    generalize (if (!d.writing && d.sendQueueIsEmpty) = true then d.sendfile files f r
      else (d, 0)) = p at hwrite ⊢
    obtain ⟨c', n⟩ := p
    dsimp only at hwrite ⊢
    generalize (if 0 < n then (⟨f.fd, f.offset + n.toNat, f.count - n.toNat⟩ : File) else f) = rest
    split
    · exact hwrite
    · split
      · exact hwrite
      · exact hwrite

theorem writeByteStream_left {c : Conn H} (h : c.Left) (r : IoResult) :
    (c.writeByteStream r).1.Left := by
  unfold Conn.writeByteStream
  split
  · exact h
  · next id len rest _ =>
      split
      · have hwrite := transfer_left h (c.outputBuf.take len) r
        change (c.write (c.outputBuf.take len) r).1.Left at hwrite
        generalize c.write (c.outputBuf.take len) r = p at hwrite ⊢
        obtain ⟨c', n⟩ := p
        dsimp only at hwrite ⊢
        split
        · split
          · exact hwrite
          · exact hwrite
        · exact hwrite
      · exact h

theorem writeFile_left {c : Conn H} (h : c.Left) (r : IoResult) :
    (c.writeFile files r).1.Left := by
  unfold Conn.writeFile
  split
  · exact h
  · next id f rest _ =>
      split
      · have hwrite := transfer_left h (f.slice files) r
        change (c.sendfile files f r).1.Left at hwrite
        generalize c.sendfile files f r = p at hwrite ⊢
        obtain ⟨c', n⟩ := p
        dsimp only at hwrite ⊢
        split
        · split
          · exact hwrite
          · exact hwrite
        · exact hwrite
      · exact h

theorem finishWrite_left {c : Conn H} (h : c.Left) : c.finishWrite.Left := by
  unfold Conn.finishWrite
  split
  · dsimp only
    split
    · exact handleClose_left _ true
    · exact h
  · exact h

private theorem callHandler_left {c : Conn H} (h : c.Left) : c.callHandler.Left := by
  unfold Conn.callHandler
  split
  · split
    · exact h
    · exact finishWrite_left h
  · exact finishWrite_left h

private theorem handleWrite_left {c : Conn H} (h : c.Left) (w f : IoResult) :
    (c.handleWrite files w f).Left := by
  unfold Conn.handleWrite
  split
  · exact h
  · have hbytes := writeByteStream_left h w
    generalize c.writeByteStream w = p at hbytes ⊢
    obtain ⟨c₁, returned₁⟩ := p
    dsimp only at hbytes ⊢
    split
    · exact hbytes
    · have hfile := writeFile_left files hbytes f
      generalize c₁.writeFile files f = p at hfile ⊢
      obtain ⟨c₂, returned₂⟩ := p
      dsimp only at hfile ⊢
      split
      · exact hfile
      · exact callHandler_left hfile

theorem step_left {c : Conn H} (h : c.Left) (e : Event H) : (c.step files e).Left := by
  cases e with
  | send before data r => exact sendInLoop_left h before data r
  | sendFile f r => exact sendFileInLoop_left files h f r
  | setSendCompleteHandler handler => exact h
  | close => exact close_left c
  | writable w f =>
      unfold Conn.step
      dsimp only
      split
      · exact h
      · exact handleWrite_left files h w f
  | handlerReturn =>
      unfold Conn.step
      dsimp only
      split
      · exact finishWrite_left h
      · exact h
  | reset =>
      unfold Conn.step
      dsimp only
      split
      · exact h
      · exact handleClose_left c true

end Files

end Angel.Connection
