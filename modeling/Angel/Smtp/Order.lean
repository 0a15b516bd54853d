import Angel.Smtp.Sequence

/-!
What every mail task says, and when: the commands come in the order of the protocol, `DATA` has
the replies to the envelope in front of it, and a task is done when the mail data and the `QUIT`
behind it have been confirmed.
-/

namespace Angel.Smtp

open Buffer Util Lib

/-- A login that has come to some of its challenges, or none where none is wanted. -/
def LoginCommands (t : SendTask) (auth : List Command) : Prop :=
  auth = [] ∨ ∃ credentials, auth = .authLogin :: credentials ∧
    ∀ c ∈ credentials, c = .credential (Base64.encode t.username) ∨
      c = .credential (Base64.encode t.password)

/-- The commands of the envelope are the last ones in front, each with its `250`. -/
def EnvelopeAccepted (t : SendTask) (before : List Entry) : Prop :=
  ∃ front lines, before = front ++ asked (envelope t) lines ∧
    lines.length = (envelope t).length ∧ ∀ line ∈ lines, startsWith line (ascii "250 ") = true

/-- The mail data have been accepted and the session has been closed. -/
def MailAccepted (t : SendTask) (transcript : List Entry) : Prop :=
  ∃ front accepted closing,
    transcript = front ++ [.command (.mailData (t.mailData ++ ascii "\r\n.\r\n")),
      .reply accepted, .command .quit, .reply closing] ∧
    startsWith accepted (ascii "250 ") = true ∧ startsWith closing (ascii "221 ") = true

structure InSequence (hostName : Bytes) (t : SendTask) (transcript : List Entry)
    (result : Option Result) : Prop where
  commands : ∃ auth, LoginCommands t auth ∧
    commands transcript <+: .ehlo hostName :: auth ++ script t
  data : Each (fun before e => e = .command .data → EnvelopeAccepted t before) transcript
  ok : result.map Result.isOk = some true → MailAccepted t transcript

section Follows

variable {hostName : Bytes} {t u : SendTask} {transcript opening : List Entry} {needAuth : Bool}
  {lines : List Bytes}

theorem follows_result (h : Follows hostName t u transcript) : u.result = none := by
  cases h with
  | init => rfl
  | ehlo => rfl
  | auth => rfl
  | script => rfl

theorem follows_sent (h : Follows hostName t u transcript) : u.sent = commands transcript := by
  cases h with
  | init => rfl
  | ehlo => exact (commands_greet _ _ _).symm
  | auth =>
      rw [commands_append, commands_append, commands_greet]
      rfl
  | script => exact (commands_append _ _).symm

theorem login_commands (t : SendTask) (challenges : List Bytes) :
    LoginCommands t (commands (login t challenges)) := by
  right
  refine ⟨commands (challenges.flatMap (challenge t)), rfl, ?_⟩
  induction challenges with
  | nil => simp
  | cons line challenges ih =>
      intro c hc
      rw [List.flatMap_cons, commands_append, challenge, commands_reply, commands_map_command,
        List.mem_append] at hc
      rcases hc with hnow | hlater
      · unfold answer at hnow
        dsimp only at hnow
        split at hnow
        · exact Or.inl (by simpa using hnow)
        · split at hnow
          · exact Or.inr (by simpa using hnow)
          · simp at hnow
      · exact ih c hlater

theorem opening_commands (h : Opening hostName t needAuth opening) :
    ∃ auth, LoginCommands t auth ∧ commands opening = .ehlo hostName :: auth := by
  cases h with
  | plain => exact ⟨[], Or.inl rfl, by simp⟩
  | @login _ _ _ _ challenges => exact ⟨_, login_commands t challenges, by simp⟩

theorem follows_commands (h : Follows hostName t u transcript) :
    ∃ auth, LoginCommands t auth ∧
      commands transcript <+: .ehlo hostName :: auth ++ script t := by
  cases h with
  | init => exact ⟨[], Or.inl rfl, List.nil_prefix⟩
  | ehlo =>
      refine ⟨[], Or.inl rfl, ?_⟩
      rw [commands_greet]
      exact List.prefix_append [_] _
  | @auth _ _ _ challenges =>
      refine ⟨_, login_commands t challenges, ?_⟩
      rw [commands_append, commands_append, commands_greet]
      exact List.prefix_append _ _
  | script hopening =>
      obtain ⟨auth, hauth, hcommands⟩ := opening_commands hopening
      refine ⟨auth, hauth, ?_⟩
      rw [commands_append, hcommands, commands_asked]
      exact (List.prefix_append_right_inj _).mpr (List.take_prefix _ _)

theorem data_not_mem_login {auth : List Command} (h : LoginCommands t auth) :
    Command.data ∉ auth := by
  rcases h with rfl | ⟨credentials, rfl, hcredentials⟩
  · exact List.not_mem_nil
  · intro hmem
    rcases List.mem_cons.mp hmem with hfirst | hmem
    · cases hfirst
    · rcases hcredentials _ hmem with hc | hc
      · cases hc
      · cases hc

theorem each_of_no_data {P : List Entry → Prop} (h : Command.data ∉ commands transcript) :
    Each (fun before e => e = .command .data → P before) transcript := by
  apply each_of_forall
  rintro e he before rfl
  have hmem : Command.data ∈ commands transcript := List.mem_filterMap.mpr ⟨_, he, rfl⟩
  exact absurd hmem h

/-- What has been said when a command of the script is sent: the commands in front of it, each
with a reply. -/
theorem asked_split {cs tail : List Command} {c : Command} (hcs : c ∉ cs) (htail : c ∉ tail)
    {before after : List Entry}
    (h : asked (cs ++ c :: tail) lines = before ++ .command c :: after) :
    cs.length ≤ lines.length ∧ before = asked cs (lines.take cs.length) := by
  induction cs generalizing lines before with
  | nil =>
      cases before with
      | nil => exact ⟨Nat.zero_le _, rfl⟩
      | cons e before =>
          -- it would have to be sent a second time
          have hmem : c ∈ commands (before ++ .command c :: after) := by simp
          cases lines with
          | nil =>
              obtain ⟨_, hrest⟩ := List.cons.inj h
              simp at hrest
          | cons line lines =>
              have hrest : .reply line :: asked tail lines = before ++ .command c :: after :=
                (List.cons.inj h).2
              rw [← hrest, commands_reply, commands_asked] at hmem
              exact absurd (List.mem_of_mem_take hmem) htail
  | cons d cs ih =>
      have hne : d ≠ c := by
        rintro rfl
        exact hcs List.mem_cons_self
      cases lines with
      | nil =>
          rcases List.cons_eq_append_iff.mp h with ⟨_, hfirst⟩ | ⟨rest, _, hrest⟩
          · exact absurd (Entry.command.inj (List.cons.inj hfirst).1).symm hne
          · simp at hrest
      | cons line lines =>
          rcases before with _ | ⟨e, _ | ⟨e', before⟩⟩
          · exact absurd (Entry.command.inj (List.cons.inj h).1) hne
          · cases (List.cons.inj (List.cons.inj h).2).1
          · simp only [List.cons_append, asked, List.cons.injEq] at h
            obtain ⟨rfl, rfl, hrest⟩ := h
            obtain ⟨hlength, hbefore⟩ := ih (fun hmem => hcs (List.mem_cons_of_mem d hmem)) hrest
            refine ⟨Nat.succ_le_succ hlength, ?_⟩
            rw [hbefore]
            rfl

private theorem answered_envelope (h : Answered t.receivers.length lines) {line : Bytes}
    (hline : line ∈ lines.take (envelope t).length) : startsWith line (ascii "250 ") = true := by
  obtain ⟨i, hi⟩ := List.mem_iff_getElem?.mp hline
  rw [List.getElem?_take] at hi
  split at hi
  · next hlt =>
      obtain ⟨code, hcode, hstarts⟩ := h i line hi
      rw [envelope_length] at hlt
      rcases codes_cases hcode with ⟨_, rfl⟩ | ⟨hbehind, _⟩ | ⟨hbehind, _⟩ | ⟨hbehind, _⟩
      · exact hstarts
      · omega
      · omega
      · omega
  · cases hi

theorem follows_data (h : Follows hostName t u transcript) :
    Each (fun before e => e = .command .data → EnvelopeAccepted t before) transcript := by
  cases h with
  | init => exact each_nil
  | ehlo =>
      apply each_of_no_data
      simp
  | @auth _ _ _ challenges =>
      apply each_of_no_data
      have hlogin := data_not_mem_login (login_commands t challenges)
      simp [hlogin]
  | @script _ opening hopening lines hlines =>
      apply Each.append
      · obtain ⟨auth, hauth, hcommands⟩ := opening_commands hopening
        apply each_of_no_data
        rw [hcommands]
        simp [data_not_mem_login hauth]
      · rintro before e after hsplit rfl
        have hscript : script t = envelope t ++ .data :: [.mailData (t.mailData ++ ascii "\r\n.\r\n"),
          .quit] := rfl
        rw [hscript] at hsplit
        obtain ⟨hlength, rfl⟩ := asked_split (by simp [envelope]) (by simp) hsplit
        exact ⟨opening, lines.take (envelope t).length, rfl, List.length_take_of_le hlength,
          fun line hline => answered_envelope hlines hline⟩

private theorem asked_append {cs ds : List Command} {lines more : List Bytes}
    (h : lines.length = cs.length) :
    asked (cs ++ ds) (lines ++ more) = asked cs lines ++ asked ds more := by
  induction cs generalizing lines with
  | nil =>
      obtain rfl := List.length_eq_zero_iff.mp h
      rfl
  | cons c cs ih =>
      obtain ⟨line, lines, rfl⟩ := List.exists_cons_of_length_eq_add_one h
      rw [List.cons_append, List.cons_append, asked, asked, ih (by simpa using h)]
      rfl

theorem delivered_mail {line : Bytes} (hlines : Answered t.receivers.length (lines ++ [line]))
    (hlength : lines.length = t.receivers.length + 3) (opening : List Entry) :
    MailAccepted t (opening ++ asked (script t) lines ++ [.reply line]) := by
  obtain ⟨code, hcode, hclosing⟩ := (answered_append.mp hlines).2
  have hlast : (lines.drop (envelope t).length).length = 2 := by
    rw [List.length_drop, envelope_length]
    omega
  obtain ⟨go, accepted, hdrop⟩ := List.length_eq_two.mp hlast
  have hfront : (lines.take (envelope t).length).length = (envelope t).length := by
    rw [List.length_take, envelope_length]
    omega
  have hsplit : asked (script t) lines = asked (envelope t) (lines.take (envelope t).length) ++
      [.command .data, .reply go, .command (.mailData (t.mailData ++ ascii "\r\n.\r\n")),
        .reply accepted, .command .quit] := by
    rw [← List.take_append_drop (envelope t).length lines, hdrop, script, asked_append hfront,
      List.take_left' hfront]
    rfl
  have haccepted : lines[t.receivers.length + 2]? = some accepted := by
    have hsecond : (lines.drop (envelope t).length)[1]? = some accepted := by rw [hdrop]; rfl
    rw [List.getElem?_drop, envelope_length] at hsecond
    exact hsecond
  refine ⟨opening ++ asked (envelope t) (lines.take (envelope t).length) ++
    [.command .data, .reply go], accepted, line, ?_, ?_, ?_⟩
  · rw [hsplit]
    simp
  · obtain ⟨code', hcode', hstarts⟩ := (answered_append.mp hlines).1 _ _ haccepted
    rcases codes_cases hcode' with ⟨hle, _⟩ | ⟨heq, _⟩ | ⟨_, rfl⟩ | ⟨heq, _⟩
    · omega
    · omega
    · exact hstarts
    · omega
  · rw [hlength] at hcode
    rcases codes_cases hcode with ⟨hle, _⟩ | ⟨heq, _⟩ | ⟨heq, _⟩ | ⟨_, rfl⟩
    · omega
    · omega
    · omega
    · exact hclosing

end Follows

/-- Where the reply lines bring a task that is created as `t`. -/
inductive Spoken (hostName : Bytes) (t : SendTask) (heard : List Bytes) :
    Except Fault Dialogue → Prop where
  | waiting {u : SendTask} {transcript : List Entry} (h : Follows hostName t u transcript)
      (hreplies : replies transcript = heard) : Spoken hostName t heard (.ok ⟨u, transcript⟩)
  | rejected {u : SendTask} {transcript : List Entry} (h : Follows hostName t u transcript)
      {line : Bytes} (hreplies : replies transcript ++ [line] <+: heard) (err : Bytes) :
      Spoken hostName t heard (.ok ⟨u.setResult false err, transcript ++ [.reply line]⟩)
  | delivered {u : SendTask} {opening : List Entry} {lines : List Bytes} {line : Bytes}
      (h : Follows hostName t u (opening ++ asked (script t) lines))
      (hlines : Answered t.receivers.length (lines ++ [line]))
      (hlength : lines.length = t.receivers.length + 3)
      (hreplies : replies (opening ++ asked (script t) lines) ++ [line] <+: heard) :
      Spoken hostName t heard
        (.ok ⟨u.setResult true [], opening ++ asked (script t) lines ++ [.reply line]⟩)
  | fault (hreceivers : t.receivers = []) {needAuth : Bool} {opening : List Entry} {line : Bytes}
      (hopening : Opening hostName t needAuth opening)
      (hline : startsWith line (ascii "250 ") = true)
      (hreplies : replies opening ++ [line] <+: heard) :
      Spoken hostName t heard (.error .outOfBounds)

section Spoken

variable {hostName : Bytes} {t : SendTask}

private theorem spoken_hear {heard : List Bytes} {d : Except Fault Dialogue}
    (h : Spoken hostName t heard d) (line : Bytes) :
    Spoken hostName t (heard ++ [line]) (Dialogue.converse hostName d [line]) := by
  have hlonger : ∀ {front : List Bytes}, front <+: heard → front <+: heard ++ [line] :=
    fun hfront => hfront.trans (List.prefix_append _ _)
  cases h with
  | @waiting u transcript h hreplies =>
      rw [Dialogue.converse_cons, Dialogue.converse_nil]
      have hheard := follows_hear h line
      generalize Dialogue.hear hostName ⟨u, transcript⟩ line = d at hheard ⊢
      cases hheard with
      | goesOn h' hreplies' => exact .waiting h' (by rw [hreplies', hreplies])
      | rejected err => exact .rejected h (by rw [hreplies]) err
      | delivered hopening htranscript hlines hlength =>
          subst htranscript
          exact .delivered h hlines hlength (by rw [hreplies])
      | fault hreceivers hopening htranscript hline =>
          apply Spoken.fault hreceivers hopening hline
          rw [htranscript, replies_script (Nat.zero_le _), List.append_nil] at hreplies
          rw [hreplies]
  | rejected h hreplies err =>
      rw [Dialogue.converse_resolved rfl]
      exact .rejected h (hlonger hreplies) err
  | delivered h hlines hlength hreplies =>
      rw [Dialogue.converse_resolved rfl]
      exact .delivered h hlines hlength (hlonger hreplies)
  | fault hreceivers hopening hline hreplies =>
      rw [Dialogue.converse_error]
      exact .fault hreceivers hopening hline (hlonger hreplies)

theorem spoken_converse (heard : List Bytes) :
    Spoken hostName t heard
      (Dialogue.converse hostName (.ok (.start (t.reached .init false []))) heard) := by
  induction heard using List.reverseRecOn with
  | nil => exact .waiting .init rfl
  | append_singleton heard line ih =>
      rw [Dialogue.converse_append]
      exact spoken_hear ih line

theorem commands_heard (transcript : List Entry) (line : Bytes) :
    commands (transcript ++ [.reply line]) = commands transcript := by
  rw [commands_append, commands_reply, commands_nil, List.append_nil]

theorem InSequence.reply {transcript : List Entry} {result result' : Option Result} (line : Bytes)
    (h : InSequence hostName t transcript result)
    (hok : result'.map Result.isOk = some true → MailAccepted t (transcript ++ [.reply line])) :
    InSequence hostName t (transcript ++ [.reply line]) result' where
  commands := by
    obtain ⟨auth, hauth, hcommands⟩ := h.commands
    refine ⟨auth, hauth, ?_⟩
    rw [commands_heard]
    exact hcommands
  data := by
    apply h.data.append
    apply each_singleton
    intro hdata
    cases hdata
  ok := hok

theorem Follows.inSequence {u : SendTask} {transcript : List Entry}
    (h : Follows hostName t u transcript) : InSequence hostName t transcript none where
  commands := follows_commands h
  data := follows_data h
  ok := by simp

theorem Spoken.inSequence {heard : List Bytes} {d : Dialogue}
    (h : Spoken hostName t heard (.ok d)) :
    d.task.sent = commands d.transcript ∧ replies d.transcript <+: heard ∧
      InSequence hostName t d.transcript d.task.result := by
  cases h with
  | waiting h hreplies =>
      refine ⟨follows_sent h, by rw [hreplies], ?_⟩
      dsimp only
      rw [follows_result h]
      exact h.inSequence
  | rejected h hreplies err =>
      refine ⟨(follows_sent h).trans (commands_heard _ _).symm, by simpa using hreplies, ?_⟩
      apply h.inSequence.reply
      intro hresult
      cases hresult
  | delivered h hlines hlength hreplies =>
      refine ⟨(follows_sent h).trans (commands_heard _ _).symm, by simpa using hreplies, ?_⟩
      apply h.inSequence.reply
      intro _
      exact delivered_mail hlines hlength _

theorem Spoken.exists_ok {heard : List Bytes} {d : Except Fault Dialogue}
    (h : Spoken hostName t heard d) (hreceivers : t.receivers ≠ []) : ∃ d', d = .ok d' := by
  cases h with
  | waiting => exact ⟨_, rfl⟩
  | rejected => exact ⟨_, rfl⟩
  | delivered => exact ⟨_, rfl⟩
  | fault hnil => exact absurd hnil hreceivers

theorem InSequence.result {transcript : List Entry} {result result' : Option Result}
    (h : InSequence hostName t transcript result)
    (hresult : result'.map Result.isOk = result.map Result.isOk) :
    InSequence hostName t transcript result' :=
  ⟨h.commands, h.data, fun hok => h.ok (hresult ▸ hok)⟩

private theorem run_in_sequence (hfresh : t.reached .init false [] = t)
    (hreceivers : t.receivers ≠ [])
    (segments : List Bytes) :
    ∃ s d, run (Session.receive hostName) (.ok (.start t)) segments = .ok s ∧
      Dialogue.converse hostName (.ok (.start t)) (repliesIn segments.flatten) = .ok d ∧
      s.task.sent = commands d.transcript ∧ replies d.transcript <+: repliesIn segments.flatten ∧
      InSequence hostName t d.transcript s.task.result := by
  have hspoken : Spoken hostName t _ _ := spoken_converse (repliesIn segments.flatten)
  have hresult : t.result = none := by
    rw [← hfresh]
    rfl
  have hmatches : Matches _ (run (Session.receive hostName) _ _) _ := run_matches hresult segments
  rw [hfresh] at hspoken
  obtain ⟨d, hd⟩ := hspoken.exists_ok hreceivers
  rw [hd] at hspoken hmatches
  obtain ⟨hsent, hreplies, hsequence⟩ := hspoken.inSequence
  generalize run (Session.receive hostName) (.ok (.start t)) segments = r at hmatches ⊢
  cases hmatches with
  | waiting htask _ _ =>
      refine ⟨_, d, rfl, hd, ?_, hreplies, ?_⟩
      · rw [htask]
        exact hsent
      · rw [htask]
        exact hsequence
  | resolved htask hs hd' =>
      refine ⟨_, d, rfl, hd, htask.trans hsent, hreplies, hsequence.result ?_⟩
      rw [hs, hd']
      rfl

/-- Whatever the server replies and however the replies are cut: the transcript of a task that
has a receiver is in sequence, and it is what the task has sent and heard. -/
theorem commands_in_sequence (hostName username password sender : Bytes) (receivers : List Bytes)
    (hreceivers : receivers ≠ []) (mailData : Bytes) (segments : List Bytes) :
    ∃ s d, run (Session.receive hostName)
        (.ok (.start (SendTask.create username password sender receivers mailData))) segments =
          .ok s ∧
      Dialogue.converse hostName
        (.ok (.start (SendTask.create username password sender receivers mailData)))
          (repliesIn segments.flatten) = .ok d ∧
      s.task.sent = commands d.transcript ∧ replies d.transcript <+: repliesIn segments.flatten ∧
      InSequence hostName (SendTask.create username password sender receivers mailData)
        d.transcript s.task.result :=
  run_in_sequence rfl hreceivers segments

end Spoken

/-- Two receivers, and replies that are cut in the middle of a line. -/
theorem commands_in_sequence_two :
    ∃ s d, run (Session.receive (ascii "localhost"))
        (.ok (.start (SendTask.create [] [] (ascii "me@a") [ascii "x@b", ascii "y@c"] []))) [ascii
          "220 b\r\n250 OK\r\n25", ascii "0 OK\r\n250 OK\r\n250 OK\r\n354 Go\r\n"] = .ok s ∧
      Dialogue.converse (ascii "localhost")
        (.ok (.start (SendTask.create [] [] (ascii "me@a") [ascii "x@b", ascii "y@c"] [])))
          (repliesIn [ascii "220 b\r\n250 OK\r\n25",
            ascii "0 OK\r\n250 OK\r\n250 OK\r\n354 Go\r\n"].flatten) = .ok d ∧
      s.task.sent = commands d.transcript ∧
      replies d.transcript <+: repliesIn [ascii "220 b\r\n250 OK\r\n25",
        ascii "0 OK\r\n250 OK\r\n250 OK\r\n354 Go\r\n"].flatten ∧
      InSequence (ascii "localhost")
        (SendTask.create [] [] (ascii "me@a") [ascii "x@b", ascii "y@c"] [])
        d.transcript s.task.result :=
  commands_in_sequence _ _ _ _ _ (by simp) _ _

end Angel.Smtp
