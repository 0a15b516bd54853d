import Angel.Lib.History
import Angel.Smtp.Dialogue

/-!
The sequence of commands. Everything a task has said is given by the replies it has heard: the
greeting, the extensions, the challenges of a login, and from `MAIL FROM` on one reply for each
command of a script. `Follows` says so; a turn with the reply that is due adds to it, any other
one ends the task.
-/

namespace Angel.Smtp

open Buffer Util Lib Lib.Lines
open Websocket (startsWithCase)

def Entry.command? : Entry → Option Command
  | .reply _ => none
  | .command c => some c

def Entry.reply? : Entry → Option Bytes
  | .reply line => some line
  | .command _ => none

def commands (transcript : List Entry) : List Command := transcript.filterMap Entry.command?

def replies (transcript : List Entry) : List Bytes := transcript.filterMap Entry.reply?

@[simp] theorem commands_nil : commands [] = [] := rfl

@[simp] theorem commands_reply (line : Bytes) (rest : List Entry) :
    commands (.reply line :: rest) = commands rest := rfl

@[simp] theorem commands_command (c : Command) (rest : List Entry) :
    commands (.command c :: rest) = c :: commands rest := rfl

@[simp] theorem commands_append (first second : List Entry) :
    commands (first ++ second) = commands first ++ commands second :=
  List.filterMap_append

@[simp] theorem replies_nil : replies [] = [] := rfl

@[simp] theorem replies_reply (line : Bytes) (rest : List Entry) :
    replies (.reply line :: rest) = line :: replies rest := rfl

@[simp] theorem replies_command (c : Command) (rest : List Entry) :
    replies (.command c :: rest) = replies rest := rfl

@[simp] theorem replies_append (first second : List Entry) :
    replies (first ++ second) = replies first ++ replies second :=
  List.filterMap_append

@[simp] theorem commands_map_reply (lines : List Bytes) : commands (lines.map .reply) = [] := by
  induction lines with
  | nil => rfl
  | cons line lines ih => exact ih

@[simp] theorem replies_map_reply (lines : List Bytes) : replies (lines.map .reply) = lines := by
  induction lines with
  | nil => rfl
  | cons line lines ih => rw [List.map_cons, replies_reply, ih]

@[simp] theorem commands_map_command (cs : List Command) :
    commands (cs.map Entry.command) = cs := by
  induction cs with
  | nil => rfl
  | cons c cs ih => rw [List.map_cons, commands_command, ih]

@[simp] theorem replies_map_command (cs : List Command) :
    replies (cs.map Entry.command) = [] := by
  induction cs with
  | nil => rfl
  | cons c cs ih => exact ih

/-- The commands up to `DATA`. -/
def envelope (t : SendTask) : List Command := .mailFrom t.sender :: t.receivers.map .rcptTo

/-- The commands from `MAIL FROM` on. -/
def script (t : SendTask) : List Command :=
  envelope t ++ [.data, .mailData (t.mailData ++ ascii "\r\n.\r\n"), .quit]

/-- The replies that the commands of the script wait for, with `n` receivers. -/
def codes (n : Nat) : List Bytes :=
  List.replicate (n + 1) (ascii "250 ") ++ [ascii "354 ", ascii "250 ", ascii "221 "]

/-- The commands of a script as far as they have been sent, each with its reply but for the
last one. -/
def asked : List Command → List Bytes → List Entry
  | [], _ => []
  | c :: _, [] => [.command c]
  | c :: cs, line :: lines => .command c :: .reply line :: asked cs lines

/-- Each reply is the one that its command waits for. -/
def Answered (n : Nat) (lines : List Bytes) : Prop :=
  ∀ (i : Nat) (line : Bytes), lines[i]? = some line →
    ∃ code ∈ (codes n)[i]?, startsWith line code = true

/-- What the server is told when it asks for something. -/
def answer (t : SendTask) (line : Bytes) : Option Command :=
  let res := toLower (cStr (Base64.decode (line.drop 4)))
  if res = ascii "username:" then some (.credential (Base64.encode t.username))
  else if res = ascii "password:" then some (.credential (Base64.encode t.password))
  else none

/-- The extension that has the task log in. -/
def offersAuth (line : Bytes) : Bool := startsWithCase line (ascii "250-AUTH")

/-- The greeting of the server and the extensions it has named. -/
def greet (hostName greeting : Bytes) (extensions : List Bytes) : List Entry :=
  .reply greeting :: .command (.ehlo hostName) :: extensions.map .reply

def challenge (t : SendTask) (line : Bytes) : List Entry :=
  .reply line :: (answer t line).toList.map .command

/-- A login as far as it has come. -/
def login (t : SendTask) (challenges : List Bytes) : List Entry :=
  .command .authLogin :: challenges.flatMap (challenge t)

/-- The greeting, with the codes that it must have. -/
structure Greeted (greeting : Bytes) (extensions : List Bytes) : Prop where
  greeting : startsWith greeting (ascii "220 ") = true
  extensions : ∀ line ∈ extensions, startsWith line (ascii "250-") = true

/-- What is said in front of the script, and whether the task has logged in. -/
inductive Opening (hostName : Bytes) (t : SendTask) : Bool → List Entry → Prop where
  | plain {greeting ok : Bytes} {extensions : List Bytes} (hgreeted : Greeted greeting extensions)
      (hok : startsWith ok (ascii "250 ") = true) (hauth : extensions.any offersAuth = false) :
      Opening hostName t false (greet hostName greeting extensions ++ [.reply ok])
  | login {greeting ok done : Bytes} {extensions challenges : List Bytes}
      (hgreeted : Greeted greeting extensions) (hok : startsWith ok (ascii "250 ") = true)
      (hauth : extensions.any offersAuth = true)
      (hchallenges : ∀ line ∈ challenges, startsWith line (ascii "334 ") = true)
      (hdone : startsWith done (ascii "235 ") = true) :
      Opening hostName t true
        (greet hostName greeting extensions ++ [.reply ok] ++ login t challenges ++ [.reply done])

/-- A task in front of the script. -/
def SendTask.reached (t : SendTask) (state : State) (needAuth : Bool) (sent : List Command) :
    SendTask :=
  { t with state := state, rcptIndex := 0, needAuth := needAuth, sent := sent, result := none }

/-- The state in which the reply to the command `k` of the script is awaited. -/
def stateAt (n k : Nat) : State :=
  if k < n ∨ k = 0 then .mail
  else if k = n then .rcpt
  else if k = n + 1 then .data
  else if k = n + 2 then .quit
  else .close

/-- A task that awaits the reply to the command `k` of the script. -/
def SendTask.inScript (t : SendTask) (needAuth : Bool) (sent : List Command) (k : Nat) :
    SendTask :=
  { t.reached (stateAt t.receivers.length k) needAuth sent with
    rcptIndex := if k < t.receivers.length then k else 0
    mailData := if k ≤ t.receivers.length + 1 then t.mailData
      else t.mailData ++ ascii "\r\n.\r\n" }

/-- A task, created as `t`, that waits for a reply, with all that has been said. -/
inductive Follows (hostName : Bytes) (t : SendTask) : SendTask → List Entry → Prop where
  | init : Follows hostName t (t.reached .init false []) []
  | ehlo {greeting : Bytes} {extensions : List Bytes} (hgreeted : Greeted greeting extensions) :
      Follows hostName t (t.reached .ehlo (extensions.any offersAuth) [.ehlo hostName])
        (greet hostName greeting extensions)
  | auth {greeting ok : Bytes} {extensions challenges : List Bytes}
      (hgreeted : Greeted greeting extensions) (hok : startsWith ok (ascii "250 ") = true)
      (hauth : extensions.any offersAuth = true)
      (hchallenges : ∀ line ∈ challenges, startsWith line (ascii "334 ") = true) :
      Follows hostName t
        (t.reached .auth true (.ehlo hostName :: commands (login t challenges)))
        (greet hostName greeting extensions ++ [.reply ok] ++ login t challenges)
  | script {needAuth : Bool} {opening : List Entry} (hopening : Opening hostName t needAuth opening)
      {lines : List Bytes} (hlines : Answered t.receivers.length lines)
      (hlength : lines.length < (script t).length) :
      Follows hostName t
        (t.inScript needAuth (commands opening ++ commands (asked (script t) lines)) lines.length)
        (opening ++ asked (script t) lines)

section Script

variable {t : SendTask} {n k : Nat} {lines : List Bytes} {line code : Bytes}

theorem codes_cases (h : (codes n)[k]? = some code) :
    (k ≤ n ∧ code = ascii "250 ") ∨ (k = n + 1 ∧ code = ascii "354 ") ∨
      (k = n + 2 ∧ code = ascii "250 ") ∨ (k = n + 3 ∧ code = ascii "221 ") := by
  unfold codes at h
  by_cases hk : k < n + 1
  · rw [List.getElem?_append_left (by simpa using hk), List.getElem?_replicate_of_lt hk] at h
    exact Or.inl ⟨by omega, (Option.some.inj h).symm⟩
  · rw [List.getElem?_append_right (by simpa using hk), List.length_replicate] at h
    right
    obtain ⟨i, rfl⟩ : ∃ i, k = n + 1 + i := ⟨k - (n + 1), by omega⟩
    rw [Nat.add_sub_cancel_left] at h
    rcases i with _ | _ | _ | i
    · exact Or.inl ⟨rfl, (Option.some.inj h).symm⟩
    · exact Or.inr (Or.inl ⟨rfl, (Option.some.inj h).symm⟩)
    · exact Or.inr (Or.inr ⟨rfl, (Option.some.inj h).symm⟩)
    · cases h

theorem envelope_length (t : SendTask) : (envelope t).length = t.receivers.length + 1 := by
  simp [envelope]

theorem script_length (t : SendTask) : (script t).length = t.receivers.length + 4 := by
  simp [script, envelope]

theorem codes_length (n : Nat) : (codes n).length = n + 4 := by
  simp [codes]

theorem script_next (t : SendTask) (k : Nat) :
    (script t)[k + 1]? =
      if k < t.receivers.length then t.receivers[k]?.map Command.rcptTo
      else [.data, .mailData (t.mailData ++ ascii "\r\n.\r\n"), .quit][k - t.receivers.length]? := by
  unfold script envelope
  rw [List.cons_append, List.getElem?_cons_succ]
  split
  · next hk => rw [List.getElem?_append_left (by simpa using hk), List.getElem?_map]
  · next hk =>
      rw [List.getElem?_append_right (by simpa using hk), List.length_map]

theorem asked_reply {cs : List Command} (h : lines.length < cs.length) (line : Bytes) :
    asked cs (lines ++ [line]) =
      asked cs lines ++ .reply line :: cs[lines.length + 1]?.toList.map .command := by
  induction cs generalizing lines with
  | nil => simp at h
  | cons c cs ih =>
      cases lines with
      | nil => cases cs <;> rfl
      | cons first lines =>
          rw [List.cons_append, asked, asked, ih (by simpa using h)]
          rfl

theorem commands_asked {cs : List Command} (lines : List Bytes) :
    commands (asked cs lines) = cs.take (lines.length + 1) := by
  induction cs generalizing lines with
  | nil => rfl
  | cons c cs ih =>
      cases lines with
      | nil => rfl
      | cons line lines => rw [asked, commands_command, commands_reply, ih]; rfl

theorem replies_asked {cs : List Command} (h : lines.length ≤ cs.length) :
    replies (asked cs lines) = lines := by
  induction cs generalizing lines with
  | nil =>
      rw [List.length_nil, Nat.le_zero, List.length_eq_zero_iff] at h
      rw [h]
      rfl
  | cons c cs ih =>
      cases lines with
      | nil => rfl
      | cons line lines => rw [asked, replies_command, replies_reply, ih (by simpa using h)]

theorem answered_nil (n : Nat) : Answered n [] := by
  intro i line h
  cases h

theorem answered_append :
    Answered n (lines ++ [line]) ↔ Answered n lines ∧
      ∃ code ∈ (codes n)[lines.length]?, startsWith line code = true := by
  constructor
  · intro h
    refine ⟨?_, ?_⟩
    · intro i other hi
      apply h i other
      rw [List.getElem?_append_left (List.getElem?_eq_some_iff.mp hi).1]
      exact hi
    · apply h
      simp
  · rintro ⟨hlines, hline⟩ i other hi
    by_cases hlt : i < lines.length
    · rw [List.getElem?_append_left hlt] at hi
      exact hlines i other hi
    · rw [List.getElem?_append_right (by omega)] at hi
      obtain ⟨rfl, rfl⟩ : i = lines.length ∧ line = other := by
        rw [List.getElem?_singleton] at hi
        split at hi
        · exact ⟨by omega, Option.some.inj hi⟩
        · cases hi
      exact hline

end Script

section Turns

variable {hostName : Bytes} {t : SendTask} {needAuth : Bool} {sent : List Command} {line : Bytes}

theorem turn_init :
    turn hostName (t.reached .init false []) line line.length =
      .ok (if startsWith line (ascii "220 ") then
        .proceed (t.reached .ehlo false [.ehlo hostName]) else .error) := rfl

theorem turn_ehlo :
    turn hostName (t.reached .ehlo needAuth sent) line line.length =
      if startsWith line (ascii "250-") then
        .ok (.proceed (t.reached .ehlo (needAuth || offersAuth line) sent))
      else if startsWith line (ascii "250 ") then
        .ok (.proceed (if needAuth then t.reached .auth needAuth (sent ++ [.authLogin])
          else t.reached .mail needAuth (sent ++ [.mailFrom t.sender])))
      else .ok .error := by
  have hextension : (if startsWithCase line (ascii "250-AUTH") then
      { t.reached .ehlo needAuth sent with needAuth := true } else t.reached .ehlo needAuth sent) =
        t.reached .ehlo (needAuth || offersAuth line) sent := by
    unfold offersAuth
    split
    · next hauth => rw [hauth, Bool.or_true]; rfl
    · next hauth => rw [Bool.eq_false_iff.mpr hauth, Bool.or_false]
  change (if startsWith line (ascii "250-") then _ else _) = _
  rw [hextension]
  rfl

private theorem doAuth_eq :
    (t.reached .auth needAuth sent).doAuth ((line.drop 4).take (line.length - 4)) =
      t.reached .auth needAuth (sent ++ (answer t line).toList) := by
  have harg : (line.drop 4).take (line.length - 4) = line.drop 4 := by
    rw [← List.length_drop, List.take_length]
  rw [harg]
  simp only [SendTask.doAuth, answer]
  split
  · rfl
  · split
    · rfl
    · rw [Option.toList_none, List.append_nil]

theorem turn_auth :
    turn hostName (t.reached .auth needAuth sent) line line.length =
      if startsWith line (ascii "334 ") then
        .ok (.proceed (t.reached .auth needAuth (sent ++ (answer t line).toList)))
      else if startsWith line (ascii "235 ") then
        .ok (.proceed (t.reached .mail needAuth (sent ++ [.mailFrom t.sender])))
      else .ok .error := by
  change (if startsWith line (ascii "334 ") then _ else _) = _
  split
  · rw [doAuth_eq]
  · rfl

theorem reached_mail :
    t.reached .mail needAuth sent = t.inScript needAuth sent 0 := by
  unfold SendTask.inScript stateAt
  rw [if_pos (Or.inr rfl), if_pos (Nat.zero_le _), ite_self]
  rfl

theorem inScript_state {k : Nat} {code : Bytes}
    (hcode : (codes t.receivers.length)[k]? = some code) :
    ((k < t.receivers.length ∨ k = 0) ∧ stateAt t.receivers.length k = .mail ∧
      code = ascii "250 ") ∨
    (k = t.receivers.length ∧ k ≠ 0 ∧ stateAt t.receivers.length k = .rcpt ∧
      code = ascii "250 ") ∨
    (k = t.receivers.length + 1 ∧ stateAt t.receivers.length k = .data ∧ code = ascii "354 ") ∨
    (k = t.receivers.length + 2 ∧ stateAt t.receivers.length k = .quit ∧ code = ascii "250 ") ∨
    (k = t.receivers.length + 3 ∧ stateAt t.receivers.length k = .close ∧
      code = ascii "221 ") := by
  unfold stateAt
  rcases codes_cases hcode with ⟨hk, rfl⟩ | ⟨rfl, rfl⟩ | ⟨rfl, rfl⟩ | ⟨rfl, rfl⟩
  · by_cases hmail : k < t.receivers.length ∨ k = 0
    · exact Or.inl ⟨hmail, if_pos hmail, rfl⟩
    · have hlast : k = t.receivers.length := by omega
      exact Or.inr (Or.inl ⟨hlast, by omega, by rw [if_neg hmail, if_pos hlast], rfl⟩)
  · simp
  · simp
  · simp

/-- The reply to `MAIL FROM` or to a `RCPT TO` with another receiver behind it. -/
theorem rcpt_inScript {k : Nat} (hk : k < t.receivers.length) :
    ∃ receiver, t.receivers[k]? = some receiver ∧
      (t.inScript needAuth sent k).rcpt =
        .ok (t.inScript needAuth (sent ++ [.rcptTo receiver]) (k + 1)) := by
  refine ⟨t.receivers[k], List.getElem?_eq_getElem hk, ?_⟩
  have hindex : (t.inScript needAuth sent k).rcptIndex = k := if_pos hk
  have hreceiver : (t.inScript needAuth sent k).receivers[(t.inScript needAuth sent k).rcptIndex]? =
      some t.receivers[k] := by
    rw [hindex]
    exact List.getElem?_eq_getElem hk
  have hbefore : k ≤ t.receivers.length + 1 := by omega
  have hafter : k + 1 ≤ t.receivers.length + 1 := by omega
  unfold SendTask.rcpt
  rw [hreceiver]
  by_cases hlast : k + 1 < t.receivers.length
  · have hmore : ¬ t.receivers.length ≤ k + 1 := by omega
    simp [SendTask.inScript, SendTask.reached, SendTask.send, stateAt, hk, hlast, hmore, hbefore,
      hafter]
  · have hdone : k + 1 = t.receivers.length := by omega
    have hnot : ¬ k + 1 + 1 < k := by omega
    simp [SendTask.inScript, SendTask.reached, SendTask.send, stateAt, ← hdone, hnot]

theorem turn_inScript (hostName : Bytes) (needAuth : Bool) (sent : List Command) {k : Nat}
    {code : Bytes} (hcode : (codes t.receivers.length)[k]? = some code)
    (hreply : startsWith line code = true) :
    (t.receivers = [] ∧ k = 0 ∧
      turn hostName (t.inScript needAuth sent k) line line.length = .error .outOfBounds) ∨
    (∃ c, (script t)[k + 1]? = some c ∧ (t.receivers ≠ [] ∨ k ≠ 0) ∧
      turn hostName (t.inScript needAuth sent k) line line.length =
        .ok (.proceed (t.inScript needAuth (sent ++ [c]) (k + 1)))) ∨
    (k = t.receivers.length + 3 ∧
      turn hostName (t.inScript needAuth sent k) line line.length =
        .ok (.resolved ((t.inScript needAuth sent k).setResult true []))) := by
  rcases inScript_state hcode with ⟨hk, hstate, rfl⟩ | ⟨hk, hpos, hstate, rfl⟩ | ⟨rfl, hstate, rfl⟩ |
    ⟨rfl, hstate, rfl⟩ | ⟨rfl, hstate, rfl⟩
  · have hturn : turn hostName (t.inScript needAuth sent k) line line.length =
        (t.inScript needAuth sent k).rcpt.map .proceed := by
      unfold turn
      rw [show (t.inScript needAuth sent k).state = .mail from hstate]
      exact if_pos hreply
    by_cases hlt : k < t.receivers.length
    · obtain ⟨receiver, hreceiver, hrcpt⟩ := @rcpt_inScript t needAuth sent k hlt
      refine Or.inr (Or.inl ⟨.rcptTo receiver, ?_, Or.inl ?_, ?_⟩)
      · rw [script_next, if_pos hlt, hreceiver]
        rfl
      · exact List.ne_nil_of_length_pos (by omega)
      · rw [hturn, hrcpt]
        rfl
    · have hzero : k = 0 := hk.resolve_left hlt
      subst hzero
      have hnil : t.receivers = [] := List.length_eq_zero_iff.mp (by omega)
      refine Or.inl ⟨hnil, rfl, ?_⟩
      rw [hturn, SendTask.rcpt]
      simp [SendTask.inScript, SendTask.reached, hnil, Except.map]
  · refine Or.inr (Or.inl ⟨.data, ?_, Or.inr hpos, ?_⟩)
    · rw [script_next, if_neg (by omega), hk, Nat.sub_self]
      rfl
    · unfold turn
      rw [show (t.inScript needAuth sent k).state = .rcpt from hstate]
      refine congrArg Except.ok ((if_pos hreply).trans ?_)
      simp [SendTask.inScript, SendTask.reached, SendTask.data, SendTask.send, stateAt, hk]
  · refine Or.inr (Or.inl ⟨.mailData (t.mailData ++ ascii "\r\n.\r\n"), ?_,
      Or.inr (Nat.succ_ne_zero _), ?_⟩)
    · rw [script_next, if_neg (by omega), Nat.add_sub_cancel_left]
      rfl
    · unfold turn
      rw [show (t.inScript needAuth sent (t.receivers.length + 1)).state = .data from hstate]
      refine congrArg Except.ok ((if_pos hreply).trans ?_)
      have hbehind : ∀ i, ¬ t.receivers.length + i < t.receivers.length := by omega
      simp [SendTask.inScript, SendTask.reached, SendTask.doData, SendTask.send, stateAt, hbehind,
        Nat.add_assoc]
  · refine Or.inr (Or.inl ⟨.quit, ?_, Or.inr (Nat.succ_ne_zero _), ?_⟩)
    · rw [script_next, if_neg (by omega), Nat.add_sub_cancel_left]
      rfl
    · unfold turn
      rw [show (t.inScript needAuth sent (t.receivers.length + 2)).state = .quit from hstate]
      refine congrArg Except.ok ((if_pos hreply).trans ?_)
      have hbehind : ∀ i, ¬ t.receivers.length + i < t.receivers.length := by omega
      simp [SendTask.inScript, SendTask.reached, SendTask.quit, SendTask.send, stateAt, hbehind,
        Nat.add_assoc]
  · refine Or.inr (Or.inr ⟨rfl, ?_⟩)
    unfold turn
    rw [show (t.inScript needAuth sent (t.receivers.length + 3)).state = .close from hstate]
    exact congrArg Except.ok (if_pos hreply)

theorem turn_inScript_other {k : Nat} {code : Bytes}
    (hcode : (codes t.receivers.length)[k]? = some code) (hreply : startsWith line code = false) :
    turn hostName (t.inScript needAuth sent k) line line.length = .ok .error := by
  have hnot : ¬ startsWith line code = true := Bool.eq_false_iff.mp hreply
  unfold turn
  rcases inScript_state hcode with ⟨_, hstate, rfl⟩ | ⟨_, _, hstate, rfl⟩ | ⟨_, hstate, rfl⟩ |
    ⟨_, hstate, rfl⟩ | ⟨_, hstate, rfl⟩
  · rw [show (t.inScript needAuth sent k).state = .mail from hstate]
    exact if_neg hnot
  · rw [show (t.inScript needAuth sent k).state = .rcpt from hstate]
    exact congrArg Except.ok (if_neg hnot)
  · rw [show (t.inScript needAuth sent k).state = .data from hstate]
    exact congrArg Except.ok (if_neg hnot)
  · rw [show (t.inScript needAuth sent k).state = .quit from hstate]
    exact congrArg Except.ok (if_neg hnot)
  · rw [show (t.inScript needAuth sent k).state = .close from hstate]
    exact congrArg Except.ok (if_neg hnot)

end Turns

section Hear

variable {hostName : Bytes} {t u u' : SendTask} {transcript : List Entry} {line : Bytes}

theorem not_startsWith {code code' : Bytes} (h : startsWith line code = true)
    (hlength : code.length = code'.length) (hne : code ≠ code') :
    ¬ startsWith line code' = true := by
  intro h'
  rw [startsWith, List.isPrefixOf_iff_prefix] at h h'
  have hfront : code <+: code' := List.prefix_of_prefix_length_le h h' (Nat.le_of_eq hlength)
  exact hne (hfront.eq_of_length hlength)

theorem hear_proceed (new : List Command) (hresult : u.result = none)
    (hturn : turn hostName u line line.length = .ok (.proceed u'))
    (hsent : u'.sent = u.sent ++ new) :
    Dialogue.hear hostName ⟨u, transcript⟩ line =
      .ok ⟨u', transcript ++ .reply line :: new.map Entry.command⟩ := by
  unfold Dialogue.hear
  rw [hresult, if_neg (by simp), hturn]
  dsimp only
  rw [hsent, List.drop_left]

theorem hear_error (hresult : u.result = none)
    (hturn : turn hostName u line line.length = .ok .error) :
    Dialogue.hear hostName ⟨u, transcript⟩ line =
      .ok ⟨u.setResult false (cStr (line ++ CRLF)), transcript ++ [.reply line]⟩ := by
  unfold Dialogue.hear
  rw [hresult, if_neg (by simp), hturn]

theorem hear_resolved (hresult : u.result = none)
    (hturn : turn hostName u line line.length = .ok (.resolved u')) :
    Dialogue.hear hostName ⟨u, transcript⟩ line = .ok ⟨u', transcript ++ [.reply line]⟩ := by
  unfold Dialogue.hear
  rw [hresult, if_neg (by simp), hturn]

theorem hear_fault {fault : Fault} (hresult : u.result = none)
    (hturn : turn hostName u line line.length = .error fault) :
    Dialogue.hear hostName ⟨u, transcript⟩ line = .error fault := by
  unfold Dialogue.hear
  rw [hresult, if_neg (by simp), hturn]

variable {greeting : Bytes} {extensions challenges lines : List Bytes} {opening : List Entry}
  {needAuth : Bool}

theorem hear_greeting (hline : startsWith line (ascii "220 ") = true) :
    Dialogue.hear hostName ⟨t.reached .init false [], []⟩ line =
      .ok ⟨t.reached .ehlo false [.ehlo hostName], greet hostName line []⟩ := by
  have hturn : turn hostName (t.reached .init false []) line line.length =
      .ok (.proceed (t.reached .ehlo false [.ehlo hostName])) := by
    rw [turn_init, if_pos hline]
  rw [hear_proceed [.ehlo hostName] rfl hturn rfl]
  rfl

private theorem greet_append (hostName greeting line : Bytes) (extensions : List Bytes) :
    greet hostName greeting (extensions ++ [line]) =
      greet hostName greeting extensions ++ [.reply line] := by
  simp [greet]

theorem hear_extension (hline : startsWith line (ascii "250-") = true) :
    Dialogue.hear hostName
        ⟨t.reached .ehlo (extensions.any offersAuth) [.ehlo hostName],
          greet hostName greeting extensions⟩ line =
      .ok ⟨t.reached .ehlo ((extensions ++ [line]).any offersAuth) [.ehlo hostName],
        greet hostName greeting (extensions ++ [line])⟩ := by
  have hturn : turn hostName (t.reached .ehlo (extensions.any offersAuth) [.ehlo hostName]) line
      line.length = .ok (.proceed
        (t.reached .ehlo ((extensions ++ [line]).any offersAuth) [.ehlo hostName])) := by
    rw [turn_ehlo, if_pos hline, List.any_append, List.any_cons, List.any_nil, Bool.or_false]
  rw [hear_proceed [] rfl hturn rfl, greet_append]
  rfl

theorem not_extension (hline : startsWith line (ascii "250 ") = true) :
    ¬ startsWith line (ascii "250-") = true :=
  not_startsWith hline (by simp [ascii]) (by decide)

theorem hear_plain (hline : startsWith line (ascii "250 ") = true)
    (hauth : extensions.any offersAuth = false) :
    Dialogue.hear hostName
        ⟨t.reached .ehlo (extensions.any offersAuth) [.ehlo hostName],
          greet hostName greeting extensions⟩ line =
      .ok ⟨t.inScript false [.ehlo hostName, .mailFrom t.sender] 0,
        greet hostName greeting extensions ++ [.reply line] ++ asked (script t) []⟩ := by
  have hturn : turn hostName (t.reached .ehlo (extensions.any offersAuth) [.ehlo hostName]) line
      line.length = .ok (.proceed (t.inScript false [.ehlo hostName, .mailFrom t.sender] 0)) := by
    rw [turn_ehlo, if_neg (not_extension hline), if_pos hline, hauth, if_neg (by simp), reached_mail]
    rfl
  rw [hear_proceed [.mailFrom t.sender] rfl hturn rfl, List.append_assoc]
  rfl

theorem hear_login (hline : startsWith line (ascii "250 ") = true)
    (hauth : extensions.any offersAuth = true) :
    Dialogue.hear hostName
        ⟨t.reached .ehlo (extensions.any offersAuth) [.ehlo hostName],
          greet hostName greeting extensions⟩ line =
      .ok ⟨t.reached .auth true (.ehlo hostName :: commands (login t [])),
        greet hostName greeting extensions ++ [.reply line] ++ login t []⟩ := by
  have hturn : turn hostName (t.reached .ehlo (extensions.any offersAuth) [.ehlo hostName]) line
      line.length = .ok (.proceed (t.reached .auth true [.ehlo hostName, .authLogin])) := by
    rw [turn_ehlo, if_neg (not_extension hline), if_pos hline, hauth, if_pos rfl]
    rfl
  rw [hear_proceed [.authLogin] rfl hturn rfl, List.append_assoc]
  rfl

theorem login_append (t : SendTask) (challenges : List Bytes) (line : Bytes) :
    login t (challenges ++ [line]) = login t challenges ++ challenge t line := by
  simp [login]

theorem hear_challenge {front : List Entry} (hline : startsWith line (ascii "334 ") = true) :
    Dialogue.hear hostName
        ⟨t.reached .auth true (.ehlo hostName :: commands (login t challenges)),
          front ++ login t challenges⟩ line =
      .ok ⟨t.reached .auth true (.ehlo hostName :: commands (login t (challenges ++ [line]))),
        front ++ login t (challenges ++ [line])⟩ := by
  have hcommands : commands (login t (challenges ++ [line])) =
      commands (login t challenges) ++ (answer t line).toList := by
    rw [login_append, commands_append, challenge, commands_reply, commands_map_command]
  have hturn : turn hostName (t.reached .auth true (.ehlo hostName :: commands (login t challenges)))
      line line.length = .ok (.proceed
        (t.reached .auth true (.ehlo hostName :: commands (login t (challenges ++ [line]))))) := by
    rw [turn_auth, if_pos hline, hcommands]
    rfl
  rw [hear_proceed (answer t line).toList rfl hturn (congrArg (List.cons _) hcommands),
    login_append, ← List.append_assoc]
  rfl

theorem hear_done {front : List Entry} (hline : startsWith line (ascii "235 ") = true) :
    Dialogue.hear hostName
        ⟨t.reached .auth true (.ehlo hostName :: commands (login t challenges)), front⟩ line =
      .ok ⟨t.inScript true
          (.ehlo hostName :: commands (login t challenges) ++ [.mailFrom t.sender]) 0,
        front ++ [.reply line] ++ asked (script t) []⟩ := by
  have hnot : ¬ startsWith line (ascii "334 ") = true :=
    not_startsWith hline (by simp [ascii]) (by decide)
  have hturn : turn hostName (t.reached .auth true (.ehlo hostName :: commands (login t challenges)))
      line line.length = .ok (.proceed (t.inScript true
        (.ehlo hostName :: commands (login t challenges) ++ [.mailFrom t.sender]) 0)) := by
    rw [turn_auth, if_neg hnot, if_pos hline, reached_mail]
  rw [hear_proceed [.mailFrom t.sender] rfl hturn rfl, List.append_assoc]
  rfl

/-- The commands that have been sent when a task waits for a reply in the script. -/
theorem commands_next {c : Command} (hc : (script t)[lines.length + 1]? = some c) (line : Bytes) :
    commands (asked (script t) (lines ++ [line])) = commands (asked (script t) lines) ++ [c] := by
  have hlength : lines.length < (script t).length := by
    have := (List.getElem?_eq_some_iff.mp hc).1
    omega
  rw [asked_reply hlength, hc, commands_append]
  rfl

theorem hear_inScript (hlines : Answered t.receivers.length (lines ++ [line]))
    (hlength : lines.length < t.receivers.length + 3) (hreceivers : t.receivers ≠ [] ∨ lines ≠ []) :
    Dialogue.hear hostName
        ⟨t.inScript needAuth (commands opening ++ commands (asked (script t) lines)) lines.length,
          opening ++ asked (script t) lines⟩ line =
      .ok ⟨t.inScript needAuth (commands opening ++ commands (asked (script t) (lines ++ [line])))
          (lines ++ [line]).length, opening ++ asked (script t) (lines ++ [line])⟩ := by
  obtain ⟨code, hcode, hreply⟩ := (answered_append.mp hlines).2
  rcases turn_inScript hostName needAuth
      (commands opening ++ commands (asked (script t) lines)) hcode hreply with
    ⟨hnil, hzero, _⟩ | ⟨c, hc, _, hturn⟩ | ⟨hlast, _⟩
  · rcases hreceivers with hne | hne
    · exact absurd hnil hne
    · exact absurd (List.length_eq_zero_iff.mp hzero) hne
  · have hlength : lines.length < (script t).length := by rw [script_length]; omega
    have hsent := commands_next hc line
    rw [hear_proceed [c] rfl hturn rfl, hsent, ← List.append_assoc, List.length_append,
      asked_reply hlength, hc, List.append_assoc opening]
    rfl
  · omega

@[simp] theorem commands_greet (hostName greeting : Bytes) (extensions : List Bytes) :
    commands (greet hostName greeting extensions) = [.ehlo hostName] := by
  simp [greet]

@[simp] theorem replies_greet (hostName greeting : Bytes) (extensions : List Bytes) :
    replies (greet hostName greeting extensions) = greeting :: extensions := by
  simp [greet]

@[simp] theorem replies_login (t : SendTask) (challenges : List Bytes) :
    replies (login t challenges) = challenges := by
  induction challenges using List.reverseRecOn with
  | nil => rfl
  | append_singleton challenges line ih =>
      rw [login_append, replies_append, ih, challenge, replies_reply, replies_map_command]

theorem forall_append_singleton {code : Bytes} (h : ∀ l ∈ lines, startsWith l code = true)
    (hline : startsWith line code = true) : ∀ l ∈ lines ++ [line], startsWith l code = true := by
  intro l hl
  rcases List.mem_append.mp hl with hbefore | hnow
  · exact h l hbefore
  · rw [List.mem_singleton.mp hnow]
    exact hline

theorem Opening.follows (h : Opening hostName t needAuth opening) {sent : List Command}
    (hsent : sent = commands opening ++ [.mailFrom t.sender]) :
    Follows hostName t (t.inScript needAuth sent 0) (opening ++ asked (script t) []) := by
  rw [hsent]
  exact .script h (answered_nil _) (by simp [script_length])

theorem replies_script {opening : List Entry} (hlength : lines.length ≤ (script t).length) :
    replies (opening ++ asked (script t) lines) = replies opening ++ lines := by
  rw [replies_append, replies_asked hlength]

/-- What a task that waits for a reply does with one. -/
inductive Heard (hostName : Bytes) (t u : SendTask) (transcript : List Entry) (line : Bytes) :
    Except Fault Dialogue → Prop where
  | goesOn {u' : SendTask} {transcript' : List Entry} (h : Follows hostName t u' transcript')
      (hreplies : replies transcript' = replies transcript ++ [line]) :
      Heard hostName t u transcript line (.ok ⟨u', transcript'⟩)
  | rejected (err : Bytes) :
      Heard hostName t u transcript line
        (.ok ⟨u.setResult false err, transcript ++ [.reply line]⟩)
  | delivered {needAuth : Bool} {opening : List Entry} {lines : List Bytes}
      (hopening : Opening hostName t needAuth opening)
      (htranscript : transcript = opening ++ asked (script t) lines)
      (hlines : Answered t.receivers.length (lines ++ [line]))
      (hlength : lines.length = t.receivers.length + 3) :
      Heard hostName t u transcript line
        (.ok ⟨u.setResult true [], transcript ++ [.reply line]⟩)
  | fault (hreceivers : t.receivers = []) {needAuth : Bool} {opening : List Entry}
      (hopening : Opening hostName t needAuth opening)
      (htranscript : transcript = opening ++ asked (script t) [])
      (hline : startsWith line (ascii "250 ") = true) :
      Heard hostName t u transcript line (.error .outOfBounds)

theorem heard_rejected (hresult : u.result = none)
    (hturn : turn hostName u line line.length = .ok .error) :
    Heard hostName t u transcript line (Dialogue.hear hostName ⟨u, transcript⟩ line) := by
  rw [hear_error hresult hturn]
  exact .rejected _

private theorem script_hear (hopening : Opening hostName t needAuth opening)
    (hlines : Answered t.receivers.length lines) (hlength : lines.length < (script t).length)
    (line : Bytes) :
    Heard hostName t
      (t.inScript needAuth (commands opening ++ commands (asked (script t) lines)) lines.length)
      (opening ++ asked (script t) lines) line
      (Dialogue.hear hostName
        ⟨t.inScript needAuth (commands opening ++ commands (asked (script t) lines)) lines.length,
          opening ++ asked (script t) lines⟩ line) := by
  rw [script_length] at hlength
  obtain ⟨code, hcode⟩ : ∃ code, (codes t.receivers.length)[lines.length]? = some code :=
    ⟨_, List.getElem?_eq_getElem (by rw [codes_length]; exact hlength)⟩
  by_cases hreply : startsWith line code = true
  · have hanswered : Answered t.receivers.length (lines ++ [line]) :=
      answered_append.mpr ⟨hlines, code, hcode, hreply⟩
    rcases turn_inScript hostName needAuth
        (commands opening ++ commands (asked (script t) lines)) hcode hreply with
      ⟨hnil, hzero, hturn⟩ | ⟨c, hc, hreceivers, _⟩ | ⟨hlast, hturn⟩
    · -- there is no receiver for the first `RCPT TO`
      rw [hear_fault rfl hturn]
      obtain rfl := List.length_eq_zero_iff.mp hzero
      have hok : code = ascii "250 " := by
        rw [hnil] at hcode
        exact (Option.some.inj hcode).symm
      exact .fault hnil hopening rfl (hok ▸ hreply)
    · have hshort : lines.length < t.receivers.length + 3 := by
        have := (List.getElem?_eq_some_iff.mp hc).1
        rw [script_length] at this
        omega
      have hfirst : t.receivers ≠ [] ∨ lines ≠ [] :=
        hreceivers.imp_right fun hne hnil => hne (congrArg List.length hnil)
      rw [hear_inScript hanswered hshort hfirst]
      have hmore : (lines ++ [line]).length < (script t).length := by
        rw [script_length, List.length_append, List.length_singleton]
        omega
      apply Heard.goesOn (.script hopening hanswered hmore)
      rw [replies_script (Nat.le_of_lt hmore), replies_script (by rw [script_length]; omega),
        List.append_assoc]
    · rw [hear_resolved rfl hturn]
      exact .delivered hopening rfl hanswered hlast
  · apply heard_rejected rfl
    exact turn_inScript_other hcode (Bool.eq_false_iff.mpr hreply)

theorem follows_hear (h : Follows hostName t u transcript) (line : Bytes) :
    Heard hostName t u transcript line (Dialogue.hear hostName ⟨u, transcript⟩ line) := by
  cases h with
  | init =>
      by_cases hline : startsWith line (ascii "220 ") = true
      · rw [hear_greeting hline]
        have hgreeted : Greeted line [] := ⟨hline, by simp⟩
        exact .goesOn (.ehlo hgreeted) rfl
      · apply heard_rejected rfl
        rw [turn_init, if_neg hline]
  | @ehlo greeting extensions hgreeted =>
      by_cases hextension : startsWith line (ascii "250-") = true
      · rw [hear_extension hextension]
        have hmore := forall_append_singleton hgreeted.extensions hextension
        exact .goesOn (.ehlo ⟨hgreeted.greeting, hmore⟩) (by simp)
      by_cases hok : startsWith line (ascii "250 ") = true
      · cases hauth : extensions.any offersAuth with
        | false =>
            rw [← hauth, hear_plain hok hauth]
            have hopening : Opening hostName t _ _ := .plain hgreeted hok hauth
            apply Heard.goesOn (hopening.follows (by simp))
            rw [replies_script (Nat.zero_le _), replies_append, List.append_nil]
            rfl
        | true =>
            rw [← hauth, hear_login hok hauth]
            have hnone : ∀ l ∈ ([] : List Bytes), startsWith l (ascii "334 ") = true := by simp
            exact .goesOn (.auth hgreeted hok hauth hnone) (by simp)
      · apply heard_rejected rfl
        rw [turn_ehlo, if_neg hextension, if_neg hok]
  | @auth greeting ok extensions challenges hgreeted hok hauth hchallenges =>
      by_cases hchallenge : startsWith line (ascii "334 ") = true
      · rw [hear_challenge hchallenge]
        have hmore := forall_append_singleton hchallenges hchallenge
        exact .goesOn (.auth hgreeted hok hauth hmore) (by simp)
      by_cases hdone : startsWith line (ascii "235 ") = true
      · rw [hear_done hdone]
        have hopening : Opening hostName t _ _ := .login hgreeted hok hauth hchallenges hdone
        apply Heard.goesOn (hopening.follows (by simp))
        rw [replies_script (Nat.zero_le _), replies_append, List.append_nil]
        rfl
      · apply heard_rejected rfl
        rw [turn_auth, if_neg hchallenge, if_neg hdone]
  | script hopening hlines hlength => exact script_hear hopening hlines hlength line

end Hear

end Angel.Smtp
