import Angel.Lib.Lines
import Angel.Smtp.Model

/-!
What the server makes of the mail data. It reads lines up to the one that is a
single dot, and takes a dot away from every other line that begins with one.
`do_data` sends the mail data as it is, so the server has what was sent exactly when
no line of it begins with a dot.
-/

namespace Angel.Smtp

open Buffer Util Lib Lib.Lines

/-- A line of mail data as the server keeps it. -/
def unstuff : Bytes → Bytes
  | [] => []
  | c :: line => if c = DOT then line else c :: line

/-- The mail in the lines of a stream, and what is left of the stream behind it. The
last line is not complete. -/
def readLines : List Bytes → Option (Bytes × Bytes)
  | line :: more :: rest =>
      if line = [DOT] then some ([], CRLF.intercalate (more :: rest))
      else (readLines (more :: rest)).map fun (mail, left) => (unstuff line ++ CRLF ++ mail, left)
  | _ => none

def readMail (stream : Bytes) : Option (Bytes × Bytes) := readLines (lines CR LF stream)

/-- The lines that the server would take for the end, or shorten. -/
def Dotted (line : Bytes) : Prop := line.head? = some DOT

instance (line : Bytes) : Decidable (Dotted line) := inferInstanceAs (Decidable (_ = _))

theorem readLines_cons (line : Bytes) {ls : List Bytes} (hls : ls ≠ []) :
    readLines (line :: ls) =
      if line = [DOT] then some ([], CRLF.intercalate ls)
      else (readLines ls).map fun (mail, left) => (unstuff line ++ CRLF ++ mail, left) := by
  obtain ⟨more, rest, rfl⟩ := List.exists_cons_of_ne_nil hls
  rfl

theorem unstuff_eq {line : Bytes} (h : ¬ Dotted line) : unstuff line = line := by
  cases line with
  | nil => rfl
  | cons c line =>
      have hc : c ≠ DOT := fun hc => h (by simp [Dotted, hc])
      simp [unstuff, hc]

theorem unstuff_length (line : Bytes) : (unstuff line).length ≤ line.length := by
  cases line with
  | nil => exact Nat.le_refl 0
  | cons c line =>
      simp only [unstuff]
      split <;> simp

theorem unstuff_length_lt {line : Bytes} (h : Dotted line) :
    (unstuff line).length < line.length := by
  cases line with
  | nil => cases h
  | cons c line =>
      have hc : c = DOT := by simpa [Dotted] using h
      simp [unstuff, hc]

/-- The lines that end the mail data. -/
def endLines : List Bytes := [[DOT], []]

private theorem readLines_length {ls : List Bytes} {mail left : Bytes}
    (h : readLines (ls ++ endLines) = some (mail, left)) :
    mail.length ≤ (unlines CR LF ls).length := by
  induction ls generalizing mail left with
  | nil =>
      obtain ⟨rfl, -⟩ := Prod.mk.inj (Option.some.inj h)
      exact Nat.zero_le _
  | cons line ls ih =>
      rw [List.cons_append, readLines_cons line (by simp [endLines])] at h
      split at h
      case isTrue hend =>
        obtain ⟨rfl, -⟩ := Prod.mk.inj (Option.some.inj h)
        exact Nat.zero_le _
      case isFalse hmail =>
        obtain ⟨⟨mail', left'⟩, hrest, heq⟩ := Option.map_eq_some_iff.mp h
        obtain ⟨rfl, rfl⟩ := Prod.mk.inj heq
        have hline := unstuff_length line
        have hmore := ih hrest
        simp only [CRLF, unlines_cons, List.length_append, List.length_cons, List.length_nil]
        omega

private theorem left_ne_nil (ls : List Bytes) : CRLF.intercalate (ls ++ endLines) ≠ [] := by
  intro hnil
  cases ls with
  | nil => simp [endLines, List.intercalate] at hnil
  | cons line ls =>
      obtain ⟨more, rest, hrest⟩ : ∃ more rest, ls ++ endLines = more :: rest :=
        List.exists_cons_of_ne_nil (by simp [endLines])
      rw [List.cons_append, hrest] at hnil
      simp [List.intercalate, CRLF] at hnil

private theorem readLines_iff (ls : List Bytes) :
    readLines (ls ++ endLines) = some (unlines CR LF ls, []) ↔ ∀ line ∈ ls, ¬ Dotted line := by
  induction ls with
  | nil => simp [endLines, readLines, unlines, List.intercalate]
  | cons line ls ih =>
      rw [List.cons_append, readLines_cons line (by simp [endLines]), List.forall_mem_cons]
      by_cases hend : line = [DOT]
      · -- the mail ends here, with its own mark still to come
        have hdotted : Dotted line := by simp [Dotted, hend]
        rw [if_pos hend]
        constructor
        · intro h
          exact absurd (Prod.mk.inj (Option.some.inj h)).2 (left_ne_nil ls)
        · intro h
          exact absurd hdotted h.1
      rw [if_neg hend, Option.map_eq_some_iff, unlines_cons]
      constructor
      · rintro ⟨⟨mail, left⟩, hrest, heq⟩
        obtain ⟨hmail, rfl⟩ := Prod.mk.inj heq
        have hplain : ¬ Dotted line := by
          intro hdotted
          have hshort := unstuff_length_lt hdotted
          have hbound := readLines_length hrest
          have hlen := congrArg List.length hmail
          simp only [CRLF, List.length_append, List.length_cons, List.length_nil] at hlen
          omega
        rw [unstuff_eq hplain, List.append_assoc] at hmail
        have hsame : mail = unlines CR LF ls := by
          simpa [CRLF] using List.append_cancel_left hmail
        rw [hsame] at hrest
        exact ⟨hplain, ih.mp hrest⟩
      · rintro ⟨hplain, hmore⟩
        refine ⟨_, ih.mpr hmore, ?_⟩
        rw [unstuff_eq hplain]
        simp [CRLF]

private theorem lines_payload (mailData : Bytes) :
    lines CR LF (mailData ++ ascii "\r\n.\r\n") = lines CR LF mailData ++ endLines :=
  lines_append (by decide) mailData _

theorem readMail_iff (mailData : Bytes) :
    readMail (mailData ++ ascii "\r\n.\r\n") = some (mailData ++ CRLF, []) ↔
      ∀ line ∈ lines CR LF mailData, ¬ Dotted line := by
  rw [readMail, lines_payload, ← readLines_iff, unlines_lines]
  rfl

/-- All mail data sent is what the task was created with, and it is still that before
it is sent. -/
structure Intact (mailData : Bytes) (t : SendTask) : Prop where
  sent : ∀ text, .mailData text ∈ t.sent → text = mailData ++ ascii "\r\n.\r\n"
  unsent : t.state ≠ .quit → t.state ≠ .close → t.mailData = mailData

section Intact

variable {mailData hostName : Bytes} {t t' : SendTask}

theorem Intact.next (h : Intact mailData t)
    (hsent : ∀ text, .mailData text ∈ t'.sent → .mailData text ∈ t.sent)
    (hdata : t'.mailData = t.mailData)
    (hstate : (t.state ≠ .quit ∧ t.state ≠ .close) ∨ t'.state = .close) : Intact mailData t' where
  sent text htext := h.sent text (hsent text htext)
  unsent _ hclose := by
    obtain ⟨hquit, hnot⟩ := hstate.resolve_right hclose
    rw [hdata]
    exact h.unsent hquit hnot

theorem Intact.sends {command : Command} {state : State} (h : Intact mailData t)
    (hcommand : ∀ text, command ≠ .mailData text)
    (hstate : (t.state ≠ .quit ∧ t.state ≠ .close) ∨ state = .close) :
    Intact mailData { t.send command with state := state } := by
  refine h.next ?_ rfl hstate
  intro text htext
  rcases List.mem_append.mp htext with hbefore | hnow
  · exact hbefore
  · exact absurd (List.mem_singleton.mp hnow).symm (hcommand text)

theorem rcpt_intact (h : Intact mailData t) (hstate : t.state = .mail) (hrcpt : t.rcpt = .ok t') :
    Intact mailData t' := by
  unfold SendTask.rcpt at hrcpt
  split at hrcpt
  case h_1 => cases hrcpt
  case h_2 receiver _ =>
    obtain rfl := Except.ok.inj hrcpt
    split
    · exact h.next (by simp [SendTask.send]) rfl (by simp [hstate])
    · exact h.next (by simp [SendTask.send]) rfl (by simp [hstate])

theorem doAuth_intact (arg : Bytes) (h : Intact mailData t) (hstate : t.state = .auth) :
    Intact mailData (t.doAuth arg) := by
  have hbefore : t.state ≠ .quit ∧ t.state ≠ .close := by simp [hstate]
  simp only [SendTask.doAuth]
  split
  · exact h.sends nofun (.inl hbefore)
  split
  · exact h.sends nofun (.inl hbefore)
  · exact h

private theorem doData_intact (h : Intact mailData t) (hstate : t.state = .data) :
    Intact mailData t.doData where
  sent text htext := by
    have hdata : t.mailData = mailData := h.unsent (by simp [hstate]) (by simp [hstate])
    rcases List.mem_append.mp htext with hbefore | hnow
    · exact h.sent text hbefore
    · rw [← hdata]
      exact Command.mailData.inj (List.mem_singleton.mp hnow)
  unsent hquit := absurd rfl hquit

private theorem setResult_intact (isOk : Bool) (err : Bytes) (h : Intact mailData t) :
    Intact mailData (t.setResult isOk err) :=
  ⟨h.sent, h.unsent⟩

private theorem proceed_intact {buf : Bytes} {crlf : Nat} (h : Intact mailData t)
    (htakes : Takes hostName t buf crlf (.proceed t')) : Intact mailData t' := by
  cases htakes with
  | ehlo hstate => exact h.sends nofun (by simp [hstate])
  | extension hstate => exact h.next (fun _ htext => htext) rfl (by simp [hstate])
  | auth hstate => exact h.sends nofun (by simp [hstate])
  | mail hstate => exact h.sends nofun (by simp [hstate])
  | doAuth hstate => exact doAuth_intact _ h hstate
  | authenticated hstate => exact h.sends nofun (by simp [hstate])
  | rcpt hstate _ hrcpt => exact rcpt_intact h hstate hrcpt
  | data hstate => exact h.sends nofun (by simp [hstate])
  | doData hstate => exact doData_intact h hstate
  | quit => exact h.sends nofun (.inr rfl)

private theorem sendMailPass_intact (s : Session) (h : Intact mailData s.task) :
    (∃ s', Session.sendMailPass hostName s = .again s' ∧ Intact mailData s'.task) ∨
      ∃ r, Session.sendMailPass hostName s = .done r ∧ ∀ s', r = .ok s' → Intact mailData s'.task := by
  unfold Session.sendMailPass
  split
  · exact .inr ⟨_, rfl, fun s' heq => Except.ok.inj heq ▸ h⟩
  split
  · exact .inr ⟨_, rfl, fun s' heq => Except.ok.inj heq ▸ h⟩
  split
  case h_1 => exact .inr ⟨_, rfl, nofun⟩
  case h_2 t hturn => exact .inl ⟨_, rfl, proceed_intact h (turn_takes hturn)⟩
  case h_3 t hturn =>
    refine .inr ⟨_, rfl, ?_⟩
    rintro s' ⟨⟩
    cases turn_takes hturn
    exact setResult_intact true [] h
  case h_4 =>
    refine .inr ⟨_, rfl, ?_⟩
    rintro s' ⟨⟩
    exact setResult_intact false _ h

private theorem sendMail_intact {s s' : Session} (h : Intact mailData s.task)
    (hsend : Session.sendMail hostName s = .ok s') : Intact mailData s'.task := by
  unfold Session.sendMail at hsend
  cases hloop : loop (Session.sendMailPass hostName) (s.buf.length + 1) s with
  | none =>
      rw [hloop] at hsend
      cases hsend
  | some r =>
      rw [hloop, Option.getD_some] at hsend
      exact loop_sound_of_pass sendMailPass_intact h hloop s' hsend

private theorem receive_intact (s : Except Fault Session) (segment : Bytes)
    (h : ∀ s', s = .ok s' → Intact mailData s'.task) (s' : Session)
    (hreceive : Session.receive hostName s segment = .ok s') : Intact mailData s'.task := by
  cases s with
  | error fault => cases hreceive
  | ok s =>
      have hbefore := h s rfl
      simp only [Session.receive, Except.bind] at hreceive
      split at hreceive
      · exact Except.ok.inj hreceive ▸ hbefore
      · have harrived : Intact mailData ({ s with buf := s.buf ++ segment } : Session).task := hbefore
        exact sendMail_intact harrived hreceive

private theorem create_intact (username password sender : Bytes) (receivers : List Bytes)
    (mailData : Bytes) :
    Intact mailData (SendTask.create username password sender receivers mailData) where
  sent _ htext := absurd htext List.not_mem_nil
  unsent _ _ := rfl

private theorem run_intact {username password sender : Bytes} {receivers segments : List Bytes}
    {s : Session}
    (hrun : run (Session.receive hostName)
      (.ok (.start (SendTask.create username password sender receivers mailData))) segments = .ok s) :
    Intact mailData s.task := by
  have hcreate := create_intact username password sender receivers mailData
  refine run_invariant (fun s segment h _ => receive_intact s segment h) ?_
    (admissible_true _ _ segments) s hrun
  rintro s' ⟨⟩
  exact hcreate

/-- Whatever the server replies and however the replies are cut: from the mail data
that a task sends it has all of it, and ends where it ends, when no line begins with
a dot, and at no other time. -/
theorem recovered_iff {username password sender : Bytes} {receivers segments : List Bytes}
    {s : Session} {text : Bytes}
    (hrun : run (Session.receive hostName)
      (.ok (.start (SendTask.create username password sender receivers mailData))) segments = .ok s)
    (hsent : .mailData text ∈ s.task.sent) :
    readMail (Command.mailData text).wire = some (mailData ++ CRLF, []) ↔
      ∀ line ∈ lines CR LF mailData, ¬ Dotted line := by
  rw [(run_intact hrun).sent text hsent]
  exact readMail_iff mailData

end Intact

/-- The replies of a server up to the mail data, in two segments. -/
def accepting : List Bytes :=
  [ascii "220 mail.example.com\r\n250 OK\r\n25", ascii "0 OK\r\n250 OK\r\n354 Go ahead\r\n"]

/-- A mail to one receiver. -/
def oneReceiver (mailData : Bytes) : SendTask :=
  SendTask.create [] [] (ascii "me@a") [ascii "you@b"] mailData

/-- The task when the server has given those replies. -/
def accepted (mailData : Bytes) : SendTask :=
  { oneReceiver (mailData ++ ascii "\r\n.\r\n") with
    state := .quit
    sent := [.ehlo (ascii "localhost"), .mailFrom (ascii "me@a"), .rcptTo (ascii "you@b"), .data,
      .mailData (mailData ++ ascii "\r\n.\r\n")] }

theorem recovered_plain :
    run (Session.receive (ascii "localhost")) (.ok (.start (oneReceiver (ascii "Hi\r\n")))) accepting =
        .ok ⟨accepted (ascii "Hi\r\n"), []⟩ ∧
      readMail (ascii "Hi\r\n\r\n.\r\n") = some (ascii "Hi\r\n\r\n", []) := by
  have hrun : run (Session.receive (ascii "localhost"))
      (.ok (.start (oneReceiver (ascii "Hi\r\n")))) accepting =
        .ok ⟨accepted (ascii "Hi\r\n"), []⟩ := by decide
  have hsent : .mailData (ascii "Hi\r\n\r\n.\r\n") ∈ (accepted (ascii "Hi\r\n")).sent := by
    decide
  have hplain : ∀ line ∈ lines CR LF (ascii "Hi\r\n"), ¬ Dotted line := by decide
  exact ⟨hrun, (recovered_iff hrun hsent).mpr hplain⟩

/-- A line of the mail ends the mail data, and the server is left with the next line of
it as a command. -/
theorem lone_dot_not_recovered :
    run (Session.receive (ascii "localhost")) (.ok (.start (oneReceiver (ascii "Hi\r\n.\r\nRSET"))))
        accepting = .ok ⟨accepted (ascii "Hi\r\n.\r\nRSET"), []⟩ ∧
      .mailData (ascii "Hi\r\n.\r\nRSET\r\n.\r\n") ∈ (accepted (ascii "Hi\r\n.\r\nRSET")).sent ∧
      readMail (ascii "Hi\r\n.\r\nRSET\r\n.\r\n") =
        some (ascii "Hi\r\n", ascii "RSET\r\n.\r\n") ∧
      readMail (ascii "Hi\r\n.\r\nRSET\r\n.\r\n") ≠ some (ascii "Hi\r\n.\r\nRSET" ++ CRLF, []) := by
  decide

end Angel.Smtp
