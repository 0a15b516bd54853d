import Angel.Buffer.Lines
import Angel.Smtp.Model

/-!
A mail task and the server, line by line. What a turn of `send_mail` does depends on the reply
line it is made for and not on what else is in the buffer, so the segments that the replies
arrive in make no difference. The text of an error is the exception: it is all of the buffer.
-/

namespace Angel.Smtp

open Buffer Util Lib Lib.Lines
open Websocket (startsWithCase)

/-- What is said on the connection: a reply line of the server, or a command. -/
inductive Entry where
  | reply (line : Bytes)
  | command (c : Command)
  deriving DecidableEq, Repr

/-- A task with all that has been said. -/
structure Dialogue where
  task : SendTask
  transcript : List Entry
  deriving DecidableEq, Repr

namespace Dialogue

def start (task : SendTask) : Dialogue := ⟨task, []⟩

/-- A complete reply line, and the commands that it has the task send. -/
def hear (hostName : Bytes) (d : Dialogue) (line : Bytes) : Except Fault Dialogue :=
  if d.task.result.isSome then .ok d
  else
    match turn hostName d.task line line.length with
    | .error fault => .error fault
    | .ok (.proceed t) =>
        .ok ⟨t, d.transcript ++ .reply line ::
          (t.sent.drop d.task.sent.length).map Entry.command⟩
    | .ok (.resolved t) => .ok ⟨t, d.transcript ++ [.reply line]⟩
    | .ok .error =>
        .ok ⟨d.task.setResult false (cStr (line ++ CRLF)), d.transcript ++ [.reply line]⟩

/-- The reply lines one after the other. -/
def converse (hostName : Bytes) (d : Except Fault Dialogue) (replies : List Bytes) :
    Except Fault Dialogue :=
  run (fun d line => d.bind (hear hostName · line)) d replies

variable {hostName : Bytes}

@[simp] theorem converse_nil (d : Except Fault Dialogue) : converse hostName d [] = d := rfl

theorem converse_cons (d : Dialogue) (line : Bytes) (replies : List Bytes) :
    converse hostName (.ok d) (line :: replies) =
      converse hostName (d.hear hostName line) replies := rfl

theorem converse_append (d : Except Fault Dialogue) (first second : List Bytes) :
    converse hostName d (first ++ second) =
      converse hostName (converse hostName d first) second := run_append _ _ _ _

@[simp] theorem converse_error (fault : Fault) (replies : List Bytes) :
    converse hostName (.error fault) replies = .error fault := by
  induction replies with
  | nil => rfl
  | cons line replies ih => exact ih

theorem converse_resolved {d : Dialogue} (h : d.task.result.isSome = true)
    (replies : List Bytes) : converse hostName (.ok d) replies = .ok d := by
  induction replies with
  | nil => rfl
  | cons line replies ih =>
      rw [converse_cons, hear, if_pos h]
      exact ih

end Dialogue

/-- A text without CR and without null characters is looked for in the first line only. -/
theorem startsWithCase_line {p : Bytes}
    (hp : ∀ b ∈ p, tolower b ≠ 0 ∧ tolower b ≠ tolower CR) (line rest : Bytes) :
    startsWithCase (line ++ CRLF ++ rest) p = startsWithCase line p := by
  have hcut : ∀ (line p : Bytes), (∀ b ∈ p, tolower b ≠ 0 ∧ tolower b ≠ tolower CR) →
      line.length < p.length →
        strncasecmpEq ((line ++ CRLF ++ rest).take p.length) p = false := by
    intro line
    induction line with
    | nil =>
        intro p hp hlen
        obtain ⟨b, p, rfl⟩ := List.exists_cons_of_ne_nil (List.length_pos_iff.mp hlen)
        have hb := (hp b List.mem_cons_self).2.symm
        simp [CRLF, strncasecmpEq, hb]
    | cons a line ih =>
        intro p hp hlen
        cases p with
        | nil => simp at hlen
        | cons b p =>
            have hrest := ih p (fun c hc => hp c (List.mem_cons_of_mem b hc)) (by simpa using hlen)
            have hzero : tolower a = tolower b → a ≠ 0 := by
              rintro heq rfl
              exact (hp b List.mem_cons_self).1 heq.symm
            simp only [List.cons_append, List.length_cons, List.take_succ_cons, strncasecmpEq,
              hrest, Bool.or_false, Bool.and_eq_false_iff, decide_eq_false_iff_not]
            by_cases heq : tolower a = tolower b
            · exact Or.inr (hzero heq)
            · exact Or.inl heq
  unfold startsWithCase
  by_cases hlen : p.length ≤ line.length
  · have hlonger : p.length ≤ (line ++ CRLF ++ rest).length := by
      simp only [List.length_append]
      omega
    rw [decide_eq_true hlen, decide_eq_true hlonger, List.append_assoc,
      List.take_append_of_le_length hlen]
  · rw [hcut line p hp (by omega), decide_eq_false hlen, Bool.and_false, Bool.false_and]

theorem turn_line (hostName : Bytes) (t : SendTask) (line rest : Bytes) :
    turn hostName t (line ++ CRLF ++ rest) line.length = turn hostName t line line.length := by
  have harg : ((line ++ CRLF ++ rest).drop 4).take (line.length - 4) =
      (line.drop 4).take (line.length - 4) := by
    rw [← List.drop_take, ← List.drop_take, take_line, List.take_length]
  unfold turn
  rw [harg, startsWithCase_line (by decide), startsWith_line (by decide),
    startsWith_line (by decide), startsWith_line (by decide), startsWith_line (by decide),
    startsWith_line (by decide), startsWith_line (by decide), startsWith_line (by decide)]

/-- The complete reply lines in what has been received. -/
def repliesIn (received : Bytes) : List Bytes := (lines CR LF received).dropLast

/-- What is not a complete line yet. -/
def unfinishedIn (received : Bytes) : Bytes :=
  (lines CR LF received).getLast (lines_ne_nil received)

theorem repliesIn_append (received more : Bytes) :
    repliesIn (received ++ more) =
      repliesIn received ++ repliesIn (unfinishedIn received ++ more) := by
  unfold repliesIn unfinishedIn
  rw [lines_extend, List.dropLast_append_of_ne_nil (lines_ne_nil _)]

theorem unfinishedIn_append (received more : Bytes) :
    unfinishedIn (received ++ more) = unfinishedIn (unfinishedIn received ++ more) := by
  unfold unfinishedIn
  simp only [lines_extend received more]
  exact List.getLast_append_of_ne_nil _ (lines_ne_nil _)

theorem repliesIn_some {buf : Bytes} {crlf : Nat} (h : findCrlf buf = some crlf) :
    repliesIn buf = buf.take crlf :: repliesIn (buf.drop (crlf + 2)) ∧
      unfinishedIn buf = unfinishedIn (buf.drop (crlf + 2)) := by
  unfold repliesIn unfinishedIn
  simp only [lines_some h]
  exact ⟨List.dropLast_cons_of_ne_nil (lines_ne_nil _), List.getLast_cons (lines_ne_nil _)⟩

theorem repliesIn_none {buf : Bytes} (h : findCrlf buf = none) :
    repliesIn buf = [] ∧ unfinishedIn buf = buf := by
  unfold repliesIn unfinishedIn
  simp only [lines_none h]
  exact ⟨rfl, rfl⟩

/-- A session and a dialogue that have come equally far, with `rest` not yet a complete line. -/
inductive Matches (rest : Bytes) : Except Fault Session → Except Fault Dialogue → Prop where
  | waiting {s : Session} {d : Dialogue} (htask : s.task = d.task) (hresult : d.task.result = none)
      (hbuf : s.buf = rest) : Matches rest (.ok s) (.ok d)
  | resolved {s : Session} {d : Dialogue} (hsent : s.task.sent = d.task.sent) {isOk : Bool}
      {err err' : Bytes} (hs : s.task.result = some ⟨isOk, err⟩)
      (hd : d.task.result = some ⟨isOk, err'⟩) : Matches rest (.ok s) (.ok d)
  | fault (f : Fault) : Matches rest (.error f) (.error f)

section Matches

variable {hostName : Bytes}

private theorem proceed_result {t t' : SendTask} {buf : Bytes} {crlf : Nat}
    (htakes : Takes hostName t buf crlf (.proceed t')) : t'.result = t.result := by
  cases htakes with
  | ehlo => rfl
  | extension => rfl
  | auth => rfl
  | mail => rfl
  | doAuth =>
      simp only [SendTask.doAuth]
      split
      · rfl
      · split
        · rfl
        · rfl
  | authenticated => rfl
  | rcpt _ _ hrcpt =>
      unfold SendTask.rcpt at hrcpt
      split at hrcpt
      · cases hrcpt
      · obtain rfl := Except.ok.inj hrcpt
        split
        · rfl
        · rfl
  | data => rfl
  | doData => rfl
  | quit => rfl

private theorem loop_matches {fuel : Nat} {s : Session} {d : Dialogue} (hfuel : s.buf.length < fuel)
    (htask : s.task = d.task) (hresult : d.task.result = none) :
    ∃ r, loop (Session.sendMailPass hostName) fuel s = some r ∧
      Matches (unfinishedIn s.buf) r (Dialogue.converse hostName (.ok d) (repliesIn s.buf)) := by
  induction fuel generalizing s d with
  | zero => exact absurd hfuel (Nat.not_lt_zero _)
  | succ fuel ih =>
      cases hcrlf : findCrlf s.buf with
      | none =>
          obtain ⟨hreplies, hrest⟩ := repliesIn_none hcrlf
          have hpass : Session.sendMailPass hostName s = .done (.ok s) := by
            unfold Session.sendMailPass
            rw [hcrlf]
            split
            · rfl
            · rfl
          refine ⟨_, loop_done hpass fuel, ?_⟩
          rw [hreplies, hrest]
          exact .waiting htask hresult rfl
      | some crlf =>
          obtain ⟨hreplies, hrest⟩ := repliesIn_some hcrlf
          obtain ⟨line, tail, hbuf, rfl, _⟩ := findCrlf_some hcrlf
          have hne : s.buf ≠ [] := by simp [hbuf, CRLF]
          have hline : s.buf.take line.length = line := by rw [hbuf, take_line]
          have hturn : turn hostName s.task s.buf line.length =
              turn hostName d.task line line.length := by rw [hbuf, htask, turn_line]
          rw [hreplies, hrest, hline, Dialogue.converse_cons, Dialogue.hear, hresult,
            if_neg (by simp)]
          cases hnext : turn hostName d.task line line.length with
          | error fault =>
              have hpass : Session.sendMailPass hostName s = .done (.error fault) := by
                simp [Session.sendMailPass, hne, hcrlf, hturn, hnext]
              refine ⟨_, loop_done hpass fuel, ?_⟩
              rw [Dialogue.converse_error]
              exact .fault fault
          | ok next =>
              cases next with
              | proceed t =>
                  have hpass : Session.sendMailPass hostName s =
                      .again ⟨t, s.buf.drop (line.length + 2)⟩ := by
                    simp [Session.sendMailPass, hne, hcrlf, hturn, hnext]
                  rw [loop_again hpass]
                  apply ih
                  · rw [List.length_drop]
                    have := List.length_pos_iff.mpr hne
                    omega
                  · rfl
                  · exact (proceed_result (turn_takes hnext)).trans hresult
              | resolved t =>
                  have hpass : Session.sendMailPass hostName s =
                      .done (.ok { s with task := t }) := by
                    simp [Session.sendMailPass, hne, hcrlf, hturn, hnext]
                  refine ⟨_, loop_done hpass fuel, ?_⟩
                  cases turn_takes hnext
                  rw [Dialogue.converse_resolved rfl]
                  exact .resolved rfl rfl rfl
              | error =>
                  have hpass : Session.sendMailPass hostName s =
                      .done (.ok { s with task := s.task.setResult false (cStr s.buf) }) := by
                    simp [Session.sendMailPass, hne, hcrlf, hturn, hnext]
                  refine ⟨_, loop_done hpass fuel, ?_⟩
                  rw [Dialogue.converse_resolved rfl]
                  have hsent : s.task.sent = d.task.sent := congrArg SendTask.sent htask
                  exact .resolved hsent rfl rfl

private theorem receive_matches {rest : Bytes} {s : Except Fault Session}
    {d : Except Fault Dialogue}
    (h : Matches rest s d) (segment : Bytes) :
    Matches (unfinishedIn (rest ++ segment)) (Session.receive hostName s segment)
      (Dialogue.converse hostName d (repliesIn (rest ++ segment))) := by
  cases h with
  | @waiting s d htask hresult hbuf =>
      subst hbuf
      have hopen : s.task.result.isSome = false := by rw [htask, hresult]; rfl
      obtain ⟨r, hloop, hmatches⟩ : ∃ r, loop (Session.sendMailPass hostName)
          ((s.buf ++ segment).length + 1) { s with buf := s.buf ++ segment } = some r ∧ _ :=
        loop_matches (Nat.lt_succ_self _) htask hresult
      have hreceive : Session.receive hostName (.ok s) segment = r := by
        simp only [Session.receive, Except.bind, hopen, Bool.false_eq_true, if_false,
          Session.sendMail, hloop, Option.getD_some]
      rw [hreceive]
      exact hmatches
  | @resolved s d hsent isOk err err' hs hd =>
      have hreceive : Session.receive hostName (.ok s) segment = .ok s := by
        simp [Session.receive, Except.bind, hs]
      rw [hreceive, Dialogue.converse_resolved (by rw [hd]; rfl)]
      exact .resolved hsent hs hd
  | fault f =>
      rw [Dialogue.converse_error]
      exact .fault f

/-- However the replies are cut into segments, the task is where the reply lines bring it. -/
theorem run_matches {task : SendTask} (hresult : task.result = none) (segments : List Bytes) :
    Matches (unfinishedIn segments.flatten)
      (run (Session.receive hostName) (.ok (.start task)) segments)
      (Dialogue.converse hostName (.ok (.start task)) (repliesIn segments.flatten)) := by
  have hrun : ∀ (segments : List Bytes) (received : Bytes) (s : Except Fault Session)
      (d : Except Fault Dialogue),
      Matches (unfinishedIn received) s (Dialogue.converse hostName d (repliesIn received)) →
      Matches (unfinishedIn (received ++ segments.flatten))
        (run (Session.receive hostName) s segments)
        (Dialogue.converse hostName d (repliesIn (received ++ segments.flatten))) := by
    intro segments
    induction segments with
    | nil =>
        intro received s d h
        simpa using h
    | cons segment segments ih =>
        intro received s d h
        have hnext : Matches _ (Session.receive hostName s segment) _ := receive_matches h segment
        rw [← unfinishedIn_append, ← Dialogue.converse_append, ← repliesIn_append] at hnext
        have hrest := ih (received ++ segment) _ d hnext
        rw [List.append_assoc] at hrest
        exact hrest
  exact hrun segments [] (.ok (.start task)) (.ok (.start task)) (.waiting rfl hresult rfl)

end Matches

end Angel.Smtp
