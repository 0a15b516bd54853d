import Angel.Client.Once
import Angel.Smtp.Order

/-!
A mail task from `smtp::send_mail` to the end of its connection. The task gives its client a
message handler and a connection timeout handler and no other one, so that a close of the
connection is nothing to it: where it was waiting for a reply, it waits for ever.
-/

namespace Angel.Smtp

open Buffer Util Lib
open Dialogue (converse)

/-- A `send_task` with its client; `received` is what has come in on its connection. -/
structure Mail where
  host : Bytes
  tryAddrs : List Bytes
  cli : Option Client.State
  session : Except Fault Session
  received : Bytes
  deriving DecidableEq

namespace Mail

/-- The result of the task has been set. -/
def isResolved (m : Mail) : Bool :=
  match m.session with
  | .ok s => s.task.result.isSome
  | .error _ => false

/-- The connection of the task has been established and closed. -/
def isClosed (m : Mail) : Bool := m.cli.any fun c => c.connections.any (·.state = .closed)

def isConnected (m : Mail) : Bool := m.cli.any (·.connected)

/-- A task that has set its result is erased from the task map and destroyed, and its client
with it. The client does not connect again, so that no outcome is asked for. -/
def destroy (m : Mail) : Mail :=
  { m with
    cli := m.cli.bind (Client.State.activeShutdown
      (Client.State.handleClose .failed Client.State.nesting false)) }

def fail (err : Bytes) (m : Mail) : Mail :=
  destroy
    { m with session := m.session.map fun s => { s with task := s.task.setResult false err } }

/-- `send_task::start`. -/
def start (inLoop : Bool) (outcome : Client.Outcome) (m : Mail) : Mail :=
  match m.tryAddrs with
  | [] => m.fail (ascii "No " ++ m.host ++ ascii " address available")
  | _ :: rest =>
      let cli := (Client.State.create {}).setConnectionTimeoutHandler (1000 * 10)
      { m with tryAddrs := rest, cli := some (cli.start inLoop outcome) }

/-- `smtp::send_mail`, with the addresses that the resolver has found. -/
def sendMail (host : Bytes) (addrList : List Bytes) (task : SendTask) (inLoop : Bool)
    (outcome : Client.Outcome) : Mail :=
  let m : Mail :=
    { host := host, tryAddrs := addrList, cli := none, session := .ok (.start task),
      received := [] }
  if addrList = [] then m.fail (ascii "dns resolve timeout for " ++ host)
  else m.start inLoop outcome

/-- What the client calls of the task. -/
def onCall (outcome : Client.Outcome) (m : Mail) : Client.Call → Mail
  | .connectionTimeoutHandler => if m.isConnected then m else m.start true outcome
  | _ => m

/-- What happens to a task. The outcome is for the next client, if there is one. -/
inductive Event where
  | client (e : Client.Event) (outcome : Client.Outcome)
  | message (segment : Bytes)
  deriving DecidableEq, Repr

def onClient (c : Client.State) (e : Client.Event) (outcome : Client.Outcome) (m : Mail) : Mail :=
  match c.execute e with
  | none => m
  | some c' => (c'.calls.drop c.calls.length).foldl (onCall outcome) { m with cli := some c' }

/-- The message handler of the client. -/
def onMessage (hostName segment : Bytes) (m : Mail) : Mail :=
  let m' := { m with
    session := Session.receive hostName m.session segment, received := m.received ++ segment }
  if m'.isResolved && !m.isResolved then m'.destroy else m'

def step (hostName : Bytes) (m : Mail) : Event → Mail
  | .client e outcome => m.cli.elim m fun c => m.onClient c e outcome
  | .message segment => m.onMessage hostName segment

/-- When an event can come. -/
def Possible (m : Mail) : Event → Prop
  | .client e _ => e.ofLoop = true ∧ ∃ c, m.cli = some c ∧ c.Possible e
  | .message _ => ∃ c, m.cli = some c ∧ c.Alive 0

end Mail

/-- Reply lines up to the one that `MAIL FROM` is sent for. -/
inductive Introduction : List Bytes → Prop where
  | plain {greeting ok : Bytes} {extensions : List Bytes} (hgreeted : Greeted greeting extensions)
      (hok : startsWith ok (ascii "250 ") = true) (hauth : extensions.any offersAuth = false) :
      Introduction (greeting :: extensions ++ [ok])
  | login {greeting ok done : Bytes} {extensions challenges : List Bytes}
      (hgreeted : Greeted greeting extensions) (hok : startsWith ok (ascii "250 ") = true)
      (hauth : extensions.any offersAuth = true)
      (hchallenges : ∀ line ∈ challenges, startsWith line (ascii "334 ") = true)
      (hdone : startsWith done (ascii "235 ") = true) :
      Introduction (greeting :: extensions ++ [ok] ++ challenges ++ [done])

/-- Reply lines with which a mail to `n` receivers is under way: those of a delivery that has
not come to its end. Without a receiver there is nothing behind the reply to `MAIL FROM`. -/
inductive Unfinished (n : Nat) : List Bytes → Prop where
  | nothing : Unfinished n []
  | greeted {greeting : Bytes} {extensions : List Bytes} (hgreeted : Greeted greeting extensions) :
      Unfinished n (greeting :: extensions)
  | login {greeting ok : Bytes} {extensions challenges : List Bytes}
      (hgreeted : Greeted greeting extensions) (hok : startsWith ok (ascii "250 ") = true)
      (hauth : extensions.any offersAuth = true)
      (hchallenges : ∀ line ∈ challenges, startsWith line (ascii "334 ") = true) :
      Unfinished n (greeting :: extensions ++ [ok] ++ challenges)
  | script {front lines : List Bytes} (hfront : Introduction front) (hlines : Answered n lines)
      (hlength : lines.length < n + 4) : Unfinished n (front ++ lines)
  | noReceiver (hn : n = 0) {front : List Bytes} (hfront : Introduction front) {line : Bytes}
      (hline : startsWith line (ascii "250 ") = true) (rest : List Bytes) :
      Unfinished n (front ++ line :: rest)

section Heard

variable {hostName : Bytes} {t : SendTask} {needAuth : Bool} {opening : List Entry}

theorem Opening.introduction (h : Opening hostName t needAuth opening) :
    Introduction (replies opening) := by
  cases h with
  | plain hgreeted hok hauth =>
      rw [replies_append, replies_greet]
      exact .plain hgreeted hok hauth
  | login hgreeted hok hauth hchallenges hdone =>
      rw [replies_append, replies_append, replies_append, replies_greet, replies_login]
      exact .login hgreeted hok hauth hchallenges hdone

theorem Introduction.exists_opening (hostName : Bytes) (t : SendTask) {front : List Bytes}
    (h : Introduction front) :
    ∃ needAuth opening, Opening hostName t needAuth opening ∧ replies opening = front := by
  cases h with
  | plain hgreeted hok hauth => exact ⟨false, _, .plain hgreeted hok hauth, by simp⟩
  | login hgreeted hok hauth hchallenges hdone =>
      exact ⟨true, _, .login hgreeted hok hauth hchallenges hdone, by simp⟩

theorem Follows.unfinished {u : SendTask} {transcript : List Entry}
    (h : Follows hostName t u transcript) : Unfinished t.receivers.length (replies transcript) := by
  cases h with
  | init => exact .nothing
  | ehlo hgreeted =>
      rw [replies_greet]
      exact .greeted hgreeted
  | auth hgreeted hok hauth hchallenges =>
      rw [replies_append, replies_append, replies_greet, replies_login]
      exact .login hgreeted hok hauth hchallenges
  | script hopening hlines hlength =>
      rw [replies_script (Nat.le_of_lt hlength)]
      rw [script_length] at hlength
      exact .script hopening.introduction hlines hlength

theorem greeted_converse {greeting : Bytes} {extensions : List Bytes}
    (hgreeted : Greeted greeting extensions) :
    converse hostName (.ok (.start (t.reached .init false []))) (greeting :: extensions) =
      .ok ⟨t.reached .ehlo (extensions.any offersAuth) [.ehlo hostName],
        greet hostName greeting extensions⟩ := by
  obtain ⟨hgreeting, hextensions⟩ := hgreeted
  induction extensions using List.reverseRecOn with
  | nil => exact hear_greeting hgreeting
  | append_singleton extensions line ih =>
      have hbefore := ih fun l hl => hextensions l (List.mem_append_left _ hl)
      rw [← List.cons_append, Dialogue.converse_append, hbefore]
      exact hear_extension (hextensions line (by simp))

theorem login_converse {greeting ok : Bytes} {extensions challenges : List Bytes}
    (hgreeted : Greeted greeting extensions) (hok : startsWith ok (ascii "250 ") = true)
    (hauth : extensions.any offersAuth = true)
    (hchallenges : ∀ line ∈ challenges, startsWith line (ascii "334 ") = true) :
    converse hostName (.ok (.start (t.reached .init false [])))
        (greeting :: extensions ++ [ok] ++ challenges) =
      .ok ⟨t.reached .auth true (.ehlo hostName :: commands (login t challenges)),
        greet hostName greeting extensions ++ [.reply ok] ++ login t challenges⟩ := by
  induction challenges using List.reverseRecOn with
  | nil =>
      rw [List.append_nil, Dialogue.converse_append, greeted_converse hgreeted]
      exact hear_login hok hauth
  | append_singleton challenges line ih =>
      have hbefore := ih fun l hl => hchallenges l (List.mem_append_left _ hl)
      rw [← List.append_assoc, Dialogue.converse_append, hbefore]
      exact hear_challenge (hchallenges line (by simp))

theorem Opening.converse (h : Opening hostName t needAuth opening) :
    converse hostName (.ok (.start (t.reached .init false []))) (replies opening) =
      .ok ⟨t.inScript needAuth (commands opening ++ commands (asked (script t) [])) 0,
        opening ++ asked (script t) []⟩ := by
  cases h with
  | plain hgreeted hok hauth =>
      rw [replies_append, replies_greet, Dialogue.converse_append, greeted_converse hgreeted,
        commands_append, commands_greet]
      exact hear_plain hok hauth
  | login hgreeted hok hauth hchallenges hdone =>
      rw [replies_append, replies_append, replies_append, replies_greet, replies_login,
        Dialogue.converse_append]
      have hbefore := @login_converse hostName t _ _ _ _ hgreeted hok hauth hchallenges
      refine (congrArg (Dialogue.converse hostName · _) hbefore).trans ?_
      simp only [commands_append, commands_greet, commands_reply, commands_nil, List.append_nil]
      exact hear_done hdone

private theorem hear_noReceiver (hreceivers : t.receivers = []) {sent : List Command}
    {transcript : List Entry} {line : Bytes} (hline : startsWith line (ascii "250 ") = true) :
    Dialogue.hear hostName ⟨t.inScript needAuth sent 0, transcript⟩ line =
      .error .outOfBounds := by
  have hcode : (codes t.receivers.length)[0]? = some (ascii "250 ") := rfl
  rcases turn_inScript hostName needAuth sent hcode hline with
    ⟨_, _, hturn⟩ | ⟨_, _, hne, _⟩ | ⟨hlast, _⟩
  · exact hear_fault rfl hturn
  · rcases hne with hne | hne
    · exact absurd hreceivers hne
    · exact absurd rfl hne
  · omega

theorem Opening.converse_noReceiver (h : Opening hostName t needAuth opening)
    (hreceivers : t.receivers = []) {line : Bytes}
    (hline : startsWith line (ascii "250 ") = true) (rest : List Bytes) :
    Dialogue.converse hostName (.ok (.start (t.reached .init false [])))
      (replies opening ++ line :: rest) = .error .outOfBounds := by
  rw [Dialogue.converse_append, h.converse, Dialogue.converse_cons,
    hear_noReceiver hreceivers hline, Dialogue.converse_error]

theorem Opening.converse_script (h : Opening hostName t needAuth opening)
    (hreceivers : t.receivers ≠ []) {lines : List Bytes}
    (hlines : Answered t.receivers.length lines) (hlength : lines.length < t.receivers.length + 4) :
    Dialogue.converse hostName (.ok (.start (t.reached .init false [])))
        (replies opening ++ lines) =
      .ok ⟨t.inScript needAuth (commands opening ++ commands (asked (script t) lines)) lines.length,
        opening ++ asked (script t) lines⟩ := by
  induction lines using List.reverseRecOn with
  | nil =>
      rw [List.append_nil]
      exact h.converse
  | append_singleton lines line ih =>
      rw [List.length_append, List.length_singleton] at hlength
      have hbefore := ih (answered_append.mp hlines).1 (by omega)
      rw [← List.append_assoc, Dialogue.converse_append, hbefore]
      exact hear_inScript hlines (by omega) (Or.inl hreceivers)

/-- The dialogue has not come to a result. -/
def WithoutResult (d : Except Fault Dialogue) : Prop := ∀ d', d = .ok d' → d'.task.result = none

theorem withoutResult_ok {d : Dialogue} (h : d.task.result = none) : WithoutResult (.ok d) := by
  intro d' hd
  obtain rfl := Except.ok.inj hd
  exact h

theorem withoutResult_error (fault : Fault) : WithoutResult (.error fault) := by
  intro d' hd
  cases hd

theorem Unfinished.withoutResult {heard : List Bytes} (h : Unfinished t.receivers.length heard) :
    WithoutResult
      (Dialogue.converse hostName (.ok (.start (t.reached .init false []))) heard) := by
  cases h with
  | nothing => exact withoutResult_ok rfl
  | greeted hgreeted =>
      rw [greeted_converse hgreeted]
      exact withoutResult_ok rfl
  | login hgreeted hok hauth hchallenges =>
      rw [login_converse hgreeted hok hauth hchallenges]
      exact withoutResult_ok rfl
  | @script front lines hfront hlines hlength =>
      obtain ⟨needAuth, opening, hopening, rfl⟩ := hfront.exists_opening hostName t
      by_cases hreceivers : t.receivers = []
      · cases lines with
        | nil =>
            rw [List.append_nil, hopening.converse]
            exact withoutResult_ok rfl
        | cons line lines =>
            -- the first reply is the one to `MAIL FROM`
            obtain ⟨code, hcode, hline⟩ := hlines 0 line rfl
            obtain rfl := Option.some.inj hcode
            rw [hopening.converse_noReceiver hreceivers hline]
            exact withoutResult_error _
      · rw [hopening.converse_script hreceivers hlines hlength]
        exact withoutResult_ok rfl
  | noReceiver hn hfront hline rest =>
      obtain ⟨needAuth, opening, hopening, rfl⟩ := hfront.exists_opening hostName t
      rw [hopening.converse_noReceiver (List.length_eq_zero_iff.mp hn) hline]
      exact withoutResult_error _

theorem Spoken.unfinished {heard : List Bytes} {d : Except Fault Dialogue}
    (hspoken : Spoken hostName t heard d) (h : WithoutResult d) :
    Unfinished t.receivers.length heard := by
  cases hspoken with
  | waiting hfollows hreplies =>
      rw [← hreplies]
      exact hfollows.unfinished
  | rejected => cases h _ rfl
  | delivered => cases h _ rfl
  | fault hreceivers hopening hline hreplies =>
      obtain ⟨rest, rfl⟩ := hreplies
      rw [List.append_assoc]
      exact .noReceiver (congrArg List.length hreceivers) hopening.introduction hline rest

theorem unfinished_iff (hostName : Bytes) (t : SendTask) (heard : List Bytes) :
    Unfinished t.receivers.length heard ↔ WithoutResult
      (Dialogue.converse hostName (.ok (.start (t.reached .init false []))) heard) :=
  ⟨Unfinished.withoutResult, (spoken_converse heard).unfinished⟩

end Heard

section Runs

variable {hostName : Bytes} {t : SendTask} {m : Mail}

/-- A session has its result when the dialogue it has come as far as has one. -/
theorem Matches.isResolved_iff {rest : Bytes} {d : Except Fault Dialogue}
    (h : Matches rest m.session d) :
    m.isResolved = true ↔ ¬ WithoutResult d := by
  obtain ⟨host, tryAddrs, cli, session, received⟩ := m
  cases h with
  | waiting htask hresult hbuf =>
      simp only [Mail.isResolved, htask, hresult, Option.isSome_none, Bool.false_eq_true, false_iff,
        not_not]
      exact withoutResult_ok hresult
  | resolved hsent hs hd =>
      simp only [Mail.isResolved, hs, Option.isSome_some, true_iff]
      intro hnone
      rw [hnone _ rfl] at hd
      cases hd
  | fault f =>
      simp only [Mail.isResolved, Bool.false_eq_true, false_iff, not_not]
      exact withoutResult_error f

/-- The stages of a client: without a connection the task has heard nothing, and with one it is
where the segments have brought it. -/
inductive Mail.Stage (hostName : Bytes) (t : SendTask) (session : Except Fault Session)
    (received : Bytes) (c : Client.State) : Prop where
  | waiting (honce : c.StartedOnce) (hconnections : c.connections = [])
      (hsession : session = .ok (.start t)) (hreceived : received = [])
  | failed (hidle : c.connections = [] ∧ c.connector = none ∧ c.timers = [])
  | connected (honce : c.StartedOnce) (hconnections : c.connections ≠ []) (segments : List Bytes)
      (hsession : session = run (Session.receive hostName) (.ok (.start t)) segments)
      (hreceived : received = segments.flatten)

def Mail.Reached (hostName : Bytes) (t : SendTask) (m : Mail) : Prop :=
  ∀ c, m.cli = some c → Mail.Stage hostName t m.session m.received c

theorem Mail.reached_of_cli {c : Client.State} (hcli : m.cli = some c)
    (h : Mail.Stage hostName t m.session m.received c) : m.Reached hostName t := by
  intro c' hcli'
  obtain rfl := Option.some.inj (hcli.symm.trans hcli')
  exact h

theorem Mail.stage_of_fresh {c : Client.State} (honce : c.StartedOnce)
    {session : Except Fault Session} {received : Bytes} (hsession : session = .ok (.start t))
    (hreceived : received = []) : Mail.Stage hostName t session received c := by
  by_cases hconnections : c.connections = []
  · exact .waiting honce hconnections hsession hreceived
  · exact .connected honce hconnections [] hsession hreceived

/-- `start` is called when the client before has neither a connection nor a timer. -/
theorem Mail.start_reached (hsession : m.session = .ok (.start t)) (hreceived : m.received = [])
    (hidle : ∀ c, m.cli = some c → c.connections = [] ∧ c.timers = []) (inLoop : Bool)
    (outcome : Client.Outcome) : (m.start inLoop outcome).Reached hostName t := by
  unfold Mail.start
  split
  · intro c hc
    apply Stage.failed
    cases hcli : m.cli with
    | none =>
        simp only [Mail.fail, Mail.destroy, hcli, Option.bind_none] at hc
        cases hc
    | some c₀ =>
        obtain ⟨hconnections, htimers⟩ := hidle c₀ hcli
        obtain ⟨c', hdown, hnone, hconnector, hsame⟩ :=
          Client.State.activeShutdown_unconnected .failed hconnections 1
        have hc' : c' = c := by
          simp only [Mail.fail, Mail.destroy, hcli, Option.bind_some, Client.State.nesting] at hc
          exact Option.some.inj (hdown.symm.trans hc)
        subst hc'
        exact ⟨hnone, hconnector, hsame.trans htimers⟩
  · apply Mail.reached_of_cli rfl
    have honce := Client.State.start_once outcome inLoop (1000 * 10) (by decide)
    exact Mail.stage_of_fresh honce hsession hreceived

theorem Mail.sendMail_reached (hostName host : Bytes) (addrList : List Bytes) (t : SendTask)
    (inLoop : Bool) (outcome : Client.Outcome) :
    (Mail.sendMail host addrList t inLoop outcome).Reached hostName t := by
  unfold Mail.sendMail
  dsimp only
  split
  · intro c hc
    cases hc
  · apply Mail.start_reached rfl rfl
    intro c hc
    cases hc

theorem Mail.onCalls_quiet (outcome : Client.Outcome) (m : Mail) {calls : List Client.Call}
    (h : .connectionTimeoutHandler ∉ calls) : calls.foldl (Mail.onCall outcome) m = m := by
  induction calls with
  | nil => rfl
  | cons k calls ih =>
      have hk : m.onCall outcome k = m := by
        cases k with
        | connectionTimeoutHandler => exact absurd List.mem_cons_self h
        | start => rfl
        | quit => rfl
        | connectionHandler i => rfl
        | closeHandler i => rfl
        | connectionFailureHandler => rfl
      rw [List.foldl_cons, hk]
      exact ih fun hmem => h (List.mem_cons_of_mem k hmem)

theorem Mail.onClient_quiet {c c' : Client.State} {e : Client.Event}
    (hexecute : c.execute e = some c') (hquiet : c.QuietSince c') (outcome : Client.Outcome) :
    m.onClient c e outcome = { m with cli := some c' } := by
  obtain ⟨new, hcalls, hnew⟩ := hquiet.calls
  unfold Mail.onClient
  rw [hexecute]
  dsimp only
  rw [hcalls, List.drop_left]
  exact Mail.onCalls_quiet outcome _ hnew

theorem Mail.timeout_reached {c : Client.State} (honce : c.StartedOnce)
    (hconnections : c.connections = []) (hsession : m.session = .ok (.start t))
    (hreceived : m.received = []) {timer : Nat} (htimer : timer ∈ c.timers)
    (outcome : Client.Outcome) :
    (m.onClient c (.connectionTimeout timer) outcome).Reached hostName t := by
  have hcancelled := honce.cancelled htimer
  have hc₁ : Client.State.StartedOnce { c with timers := c.timers.erase timer } := by
    refine ⟨honce.ops, honce.timerId, ?_, fun hne => absurd hconnections hne⟩
    exact (congrArg (List.Sublist · _) hcancelled).mpr (List.nil_sublist _)
  unfold Mail.onClient
  simp only [Client.State.execute, Client.State.connectionTimeout]
  split
  · rw [List.drop_length]
    exact Mail.reached_of_cli rfl (.waiting hc₁ hconnections hsession hreceived)
  · next hdown =>
      simp only [Client.State.call, List.drop_left, List.foldl_cons, List.foldl_nil, Mail.onCall,
        Mail.isConnected, Option.any_some, hdown, Bool.false_eq_true, if_false]
      apply Mail.start_reached
      · exact hsession
      · exact hreceived
      · intro c' hc'
        obtain rfl := Option.some.inj hc'
        exact ⟨hconnections, hcancelled⟩

theorem Mail.onClient_reached {c : Client.State}
    (h : Mail.Stage hostName t m.session m.received c) {e : Client.Event}
    (hloop : e.ofLoop = true) (hpossible : c.Possible e) (outcome : Client.Outcome) :
    (m.onClient c e outcome).Reached hostName t := by
  by_cases htimeout : ∃ timer, e = .connectionTimeout timer
  · obtain ⟨timer, rfl⟩ := htimeout
    have htimer : timer ∈ c.timers := hpossible
    cases h with
    | waiting honce hconnections hsession hreceived =>
        exact Mail.timeout_reached honce hconnections hsession hreceived htimer outcome
    | failed hidle => exact absurd hpossible (Client.State.not_possible hidle hloop)
    | connected honce hconnections =>
        rw [honce.established hconnections] at htimer
        cases htimer
  · have hother : ∀ timer, e ≠ .connectionTimeout timer := fun timer he => htimeout ⟨timer, he⟩
    cases h with
    | waiting honce hconnections hsession hreceived =>
        obtain ⟨c', hexecute, hquiet⟩ := honce.execute hloop hother
        rw [Mail.onClient_quiet hexecute hquiet]
        apply Mail.reached_of_cli rfl
        exact Mail.stage_of_fresh hquiet.toStartedOnce hsession hreceived
    | failed hidle => exact absurd hpossible (Client.State.not_possible hidle hloop)
    | connected honce hconnections segments hsession hreceived =>
        obtain ⟨c', hexecute, hquiet⟩ := honce.execute hloop hother
        rw [Mail.onClient_quiet hexecute hquiet]
        apply Mail.reached_of_cli rfl
        exact .connected hquiet.toStartedOnce (hquiet.connections hconnections) segments hsession
          hreceived

theorem Mail.onMessage_reached {c : Client.State} (hcli : m.cli = some c)
    (h : Mail.Stage hostName t m.session m.received c) (halive : c.Alive 0) (segment : Bytes) :
    (m.onMessage hostName segment).Reached hostName t := by
  obtain ⟨conn, hconn, _⟩ := halive
  have hsome : c.connections ≠ [] := by
    intro hnil
    rw [hnil] at hconn
    cases hconn
  cases h with
  | waiting _ hconnections => exact absurd hconnections hsome
  | failed hidle => exact absurd hidle.1 hsome
  | connected honce hconnections segments hsession hreceived =>
      have hsession' : Session.receive hostName m.session segment =
          run (Session.receive hostName) (.ok (.start t)) (segments ++ [segment]) := by
        rw [run_append, ← hsession]
        rfl
      have hreceived' : m.received ++ segment = (segments ++ [segment]).flatten := by
        simp [hreceived]
      unfold Mail.onMessage
      dsimp only
      split
      · obtain ⟨c', hdown, hquiet⟩ := honce.activeShutdown .failed 1
        have hcli' : m.cli.bind (Client.State.activeShutdown
            (Client.State.handleClose .failed Client.State.nesting false)) = some c' := by
          rw [hcli]
          exact hdown
        exact Mail.reached_of_cli hcli' (.connected hquiet.toStartedOnce
          (hquiet.connections hconnections) (segments ++ [segment]) hsession' hreceived')
      · exact Mail.reached_of_cli hcli
          (.connected honce hconnections (segments ++ [segment]) hsession' hreceived')

theorem Mail.step_reached (m : Mail) (event : Event) (h : m.Reached hostName t)
    (hpossible : m.Possible event) : (m.step hostName event).Reached hostName t := by
  cases event with
  | client e outcome =>
      obtain ⟨hloop, c, hcli, hcomes⟩ := hpossible
      simp only [Mail.step, hcli, Option.elim_some]
      exact Mail.onClient_reached (h c hcli) hloop hcomes outcome
  | message segment =>
      obtain ⟨c, hcli, halive⟩ := hpossible
      exact Mail.onMessage_reached hcli (h c hcli) halive segment

/-- A task with a connection has its result unless the delivery is under way. -/
theorem Mail.Reached.resolved_iff (h : m.Reached hostName t) (hresult : t.result = none)
    (hfresh : t.reached .init false [] = t) (hclosed : m.isClosed = true) :
    m.isResolved = true ↔ ¬ Unfinished t.receivers.length (repliesIn m.received) := by
  obtain ⟨c, hcli, hany⟩ : ∃ c, m.cli = some c ∧ c.connections.any (·.state = .closed) = true := by
    rw [Mail.isClosed, Option.any_eq_true] at hclosed
    exact hclosed
  have hsome : c.connections ≠ [] := by
    intro hnil
    rw [hnil] at hany
    cases hany
  cases h c hcli with
  | waiting _ hconnections => exact absurd hconnections hsome
  | failed hidle => exact absurd hidle.1 hsome
  | connected _ _ segments hsession hreceived =>
      have hmatches : Matches _ (run (Session.receive hostName) _ _) _ :=
        run_matches hresult segments
      rw [← hsession] at hmatches
      rw [hmatches.isResolved_iff, hreceived, unfinished_iff hostName, hfresh]

/-- When the connection of a task has ended, the task has its result if and only if the replies
before the end are not those of a delivery under way. -/
theorem closed_resolved_iff (hostName host : Bytes) (addrList : List Bytes)
    (username password sender : Bytes) (receivers : List Bytes) (mailData : Bytes) (inLoop : Bool)
    (outcome : Client.Outcome) (events : List Mail.Event) {m : Mail}
    (hrun : Admissible (Mail.step hostName) Mail.Possible (Mail.sendMail host addrList
      (SendTask.create username password sender receivers mailData) inLoop outcome) events)
    (hm : run (Mail.step hostName) (Mail.sendMail host addrList
      (SendTask.create username password sender receivers mailData) inLoop outcome) events = m)
    (hclosed : m.isClosed = true) :
    m.isResolved = true ↔ ¬ Unfinished receivers.length (repliesIn m.received) := by
  have hreached := run_invariant Mail.step_reached
    (Mail.sendMail_reached hostName host addrList _ inLoop outcome) hrun
  rw [hm] at hreached
  exact hreached.resolved_iff rfl rfl hclosed

end Runs

/-- The server accepts the connection and turns the task away. -/
theorem closed_resolved_iff_rejected :
    ∃ m, run (Mail.step (ascii "localhost")) (Mail.sendMail (ascii "smtp.b") [ascii "10.0.0.1"]
        (SendTask.create [] [] (ascii "me@a") [ascii "x@b"] []) false .inProgress)
        [.client (.check false) .failed, .message (ascii "554 no\r\n")] = m ∧ m.isClosed = true ∧
      (m.isResolved = true ↔ ¬ Unfinished [ascii "x@b"].length (repliesIn m.received)) := by
  have hrun : Admissible (Mail.step (ascii "localhost")) Mail.Possible
      (Mail.sendMail (ascii "smtp.b") [ascii "10.0.0.1"]
        (SendTask.create [] [] (ascii "me@a") [ascii "x@b"] []) false .inProgress)
      [.client (.check false) .failed, .message (ascii "554 no\r\n")] :=
    ⟨⟨rfl, _, rfl, _, rfl, rfl⟩, ⟨_, rfl, _, rfl, by simp⟩, trivial⟩
  refine ⟨_, rfl, ?_, closed_resolved_iff _ _ _ _ _ _ _ _ _ _ _ hrun rfl ?_⟩
  · decide
  · decide

/-- The server accepts the connection and closes it. -/
theorem closed_without_result :
    ¬ ∀ (hostName host : Bytes) (addrList : List Bytes) (username password sender : Bytes)
      (receivers : List Bytes) (mailData : Bytes) (inLoop : Bool) (outcome : Client.Outcome)
      (events : List Mail.Event),
      Admissible (Mail.step hostName) Mail.Possible (Mail.sendMail host addrList
        (SendTask.create username password sender receivers mailData) inLoop outcome) events →
      (run (Mail.step hostName) (Mail.sendMail host addrList
        (SendTask.create username password sender receivers mailData) inLoop outcome)
          events).isClosed = true →
      (run (Mail.step hostName) (Mail.sendMail host addrList
        (SendTask.create username password sender receivers mailData) inLoop outcome)
          events).isResolved = true := by
  intro h
  have hresolved := h (ascii "localhost") (ascii "smtp.b") [ascii "10.0.0.1"] [] [] (ascii "me@a")
    [ascii "x@b"] [] false .inProgress
    [.client (.check false) .failed, .client (.reset 0 .failed) .failed]
    ⟨⟨rfl, _, rfl, _, rfl, rfl⟩, ⟨rfl, _, rfl, _, rfl, by simp⟩, trivial⟩ (by decide)
  revert hresolved
  decide

end Angel.Smtp
