import Angel.Base64
import Angel.Buffer
import Angel.Lib.Loop
import Angel.Lib.Run
import Angel.Util
import Angel.Websocket.Model

/-!
A mail task of `smtplib.cc` on its connection. The replies of the server arrive in
segments; every complete line is a turn of `send_mail`, which sends the next
command of the sequence or resolves the task.
-/

namespace Angel.Smtp

open Buffer Util Lib
open Websocket (startsWithCase)

inductive State where
  | init
  | ehlo
  | auth
  | mail
  | rcpt
  | data
  | quit
  | close
  deriving DecidableEq, Repr

inductive Fault where
  /-- `receivers[rcpt_index]` behind the end of the list. -/
  | outOfBounds
  /-- The loop of `send_mail` is not left. -/
  | spins
  deriving DecidableEq, Repr

/-- What a task hands to `send` and `format_send`. -/
inductive Command where
  | ehlo (hostName : Bytes)
  | authLogin
  | credential (encoded : Bytes)
  | mailFrom (sender : Bytes)
  | rcptTo (receiver : Bytes)
  | data
  | mailData (text : Bytes)
  | quit
  deriving DecidableEq, Repr

/-- The bytes of a command. What is formatted with `%s` ends at a null character. -/
def Command.wire : Command → Bytes
  | ehlo hostName => ascii "EHLO " ++ cStr hostName ++ CRLF
  | authLogin => ascii "AUTH LOGIN\r\n"
  | credential encoded => encoded ++ CRLF
  | mailFrom sender => ascii "MAIL FROM:<" ++ cStr sender ++ ascii ">\r\n"
  | rcptTo receiver => ascii "RCPT TO:<" ++ cStr receiver ++ ascii ">\r\n"
  | data => ascii "DATA\r\n"
  | mailData text => text
  | quit => ascii "QUIT\r\n"

structure Result where
  isOk : Bool
  err : Bytes
  deriving DecidableEq, Repr

/-- `send_task`, with the commands it has sent and the result it has set. -/
structure SendTask where
  state : State
  rcptIndex : Nat
  needAuth : Bool
  username : Bytes
  password : Bytes
  sender : Bytes
  receivers : List Bytes
  mailData : Bytes
  sent : List Command
  result : Option Result
  deriving DecidableEq, Repr

namespace SendTask

def create (username password sender : Bytes) (receivers : List Bytes) (mailData : Bytes) :
    SendTask where
  state := .init
  rcptIndex := 0
  needAuth := false
  username := username
  password := password
  sender := sender
  receivers := receivers
  mailData := mailData
  sent := []
  result := none

def send (command : Command) (t : SendTask) : SendTask := { t with sent := t.sent ++ [command] }

def setResult (isOk : Bool) (err : Bytes) (t : SendTask) : SendTask :=
  { t with result := some ⟨isOk, err⟩ }

def ehlo (hostName : Bytes) (t : SendTask) : SendTask :=
  { t.send (.ehlo hostName) with state := .ehlo }

def auth (t : SendTask) : SendTask := { t.send .authLogin with state := .auth }

/-- A prompt that asks for something else gets no answer. -/
def doAuth (arg : Bytes) (t : SendTask) : SendTask :=
  let res := toLower (cStr (Base64.decode arg))
  if res = ascii "username:" then t.send (.credential (Base64.encode t.username))
  else if res = ascii "password:" then t.send (.credential (Base64.encode t.password))
  else t

def mail (t : SendTask) : SendTask := { t.send (.mailFrom t.sender) with state := .mail }

def rcpt (t : SendTask) : Except Fault SendTask :=
  match t.receivers[t.rcptIndex]? with
  | none => .error .outOfBounds
  | some receiver =>
      let t := { t.send (.rcptTo receiver) with rcptIndex := t.rcptIndex + 1 }
      .ok (if t.receivers.length ≤ t.rcptIndex then { t with rcptIndex := 0, state := .rcpt } else t)

def data (t : SendTask) : SendTask := { t.send .data with state := .data }

def doData (t : SendTask) : SendTask :=
  let text := t.mailData ++ ascii "\r\n.\r\n"
  { t.send (.mailData text) with mailData := text, state := .quit }

def quit (t : SendTask) : SendTask := { t.send .quit with state := .close }

end SendTask

/-- How the `switch` of `send_mail` is left. -/
inductive Turn where
  | proceed (t : SendTask)
  | resolved (t : SendTask)
  | error
  deriving DecidableEq, Repr

/-- One turn of `send_mail`; the line ends at `crlf`. -/
def turn (hostName : Bytes) (t : SendTask) (buf : Bytes) (crlf : Nat) : Except Fault Turn :=
  match t.state with
  | .init => .ok (if startsWith buf (ascii "220 ") then .proceed (t.ehlo hostName) else .error)
  | .ehlo =>
      if startsWith buf (ascii "250-") then
        .ok (.proceed
          (if startsWithCase buf (ascii "250-AUTH") then { t with needAuth := true } else t))
      else if startsWith buf (ascii "250 ") then
        .ok (.proceed (if t.needAuth then t.auth else t.mail))
      else .ok .error
  | .auth =>
      if startsWith buf (ascii "334 ") then
        .ok (.proceed (t.doAuth ((buf.drop 4).take (crlf - 4))))
      else if startsWith buf (ascii "235 ") then .ok (.proceed t.mail)
      else .ok .error
  | .mail =>
      if startsWith buf (ascii "250 ") then t.rcpt.map .proceed else .ok .error
  | .rcpt => .ok (if startsWith buf (ascii "250 ") then .proceed t.data else .error)
  | .data => .ok (if startsWith buf (ascii "354 ") then .proceed t.doData else .error)
  | .quit => .ok (if startsWith buf (ascii "250 ") then .proceed t.quit else .error)
  | .close =>
      .ok (if startsWith buf (ascii "221 ") then .resolved (t.setResult true []) else .error)

/-- What a turn can do, with the state and the reply it does it for. -/
inductive Takes (hostName : Bytes) (t : SendTask) (buf : Bytes) (crlf : Nat) : Turn → Prop where
  | ehlo (hstate : t.state = .init) (hreply : startsWith buf (ascii "220 ") = true) :
      Takes hostName t buf crlf (.proceed (t.ehlo hostName))
  | extension (hstate : t.state = .ehlo) (hreply : startsWith buf (ascii "250-") = true)
      (needAuth : Bool) : Takes hostName t buf crlf (.proceed { t with needAuth := needAuth })
  | auth (hstate : t.state = .ehlo) (hreply : startsWith buf (ascii "250 ") = true)
      (hneed : t.needAuth = true) : Takes hostName t buf crlf (.proceed t.auth)
  | mail (hstate : t.state = .ehlo) (hreply : startsWith buf (ascii "250 ") = true)
      (hneed : t.needAuth = false) : Takes hostName t buf crlf (.proceed t.mail)
  | doAuth (hstate : t.state = .auth) (hreply : startsWith buf (ascii "334 ") = true) :
      Takes hostName t buf crlf (.proceed (t.doAuth ((buf.drop 4).take (crlf - 4))))
  | authenticated (hstate : t.state = .auth) (hreply : startsWith buf (ascii "235 ") = true) :
      Takes hostName t buf crlf (.proceed t.mail)
  | rcpt (hstate : t.state = .mail) (hreply : startsWith buf (ascii "250 ") = true)
      {t' : SendTask} (hrcpt : t.rcpt = .ok t') : Takes hostName t buf crlf (.proceed t')
  | data (hstate : t.state = .rcpt) (hreply : startsWith buf (ascii "250 ") = true) :
      Takes hostName t buf crlf (.proceed t.data)
  | doData (hstate : t.state = .data) (hreply : startsWith buf (ascii "354 ") = true) :
      Takes hostName t buf crlf (.proceed t.doData)
  | quit (hstate : t.state = .quit) (hreply : startsWith buf (ascii "250 ") = true) :
      Takes hostName t buf crlf (.proceed t.quit)
  | resolved (hstate : t.state = .close) (hreply : startsWith buf (ascii "221 ") = true) :
      Takes hostName t buf crlf (.resolved (t.setResult true []))
  | error : Takes hostName t buf crlf .error

section Takes

variable {hostName : Bytes} {t : SendTask} {buf : Bytes} {crlf : Nat} {next : Turn}

theorem Takes.reply {expected : Bool} (h : expected = true → Takes hostName t buf crlf next) :
    Takes hostName t buf crlf (if expected then next else .error) := by
  split
  case isTrue hreply => exact h hreply
  case isFalse => exact .error

theorem turn_takes (h : turn hostName t buf crlf = .ok next) : Takes hostName t buf crlf next := by
  unfold turn at h
  split at h
  case h_1 hstate =>
    obtain rfl := Except.ok.inj h
    exact .reply (.ehlo hstate)
  case h_2 hstate =>
    split at h
    case isTrue hreply =>
      obtain rfl := Except.ok.inj h
      split
      · exact .extension hstate hreply true
      · exact .extension hstate hreply t.needAuth
    case isFalse =>
      split at h
      case isTrue hreply =>
        obtain rfl := Except.ok.inj h
        split
        case isTrue hneed => exact .auth hstate hreply hneed
        case isFalse hneed => exact .mail hstate hreply (Bool.eq_false_iff.mpr hneed)
      case isFalse =>
        obtain rfl := Except.ok.inj h
        exact .error
  case h_3 hstate =>
    split at h
    case isTrue hreply =>
      obtain rfl := Except.ok.inj h
      exact .doAuth hstate hreply
    case isFalse =>
      split at h
      case isTrue hreply =>
        obtain rfl := Except.ok.inj h
        exact .authenticated hstate hreply
      case isFalse =>
        obtain rfl := Except.ok.inj h
        exact .error
  case h_4 hstate =>
    split at h
    case isTrue hreply =>
      cases hrcpt : t.rcpt with
      | error fault =>
          rw [hrcpt] at h
          cases h
      | ok t' =>
          rw [hrcpt] at h
          obtain rfl := Except.ok.inj h
          exact .rcpt hstate hreply hrcpt
    case isFalse =>
      obtain rfl := Except.ok.inj h
      exact .error
  case h_5 hstate =>
    obtain rfl := Except.ok.inj h
    exact .reply (.data hstate)
  case h_6 hstate =>
    obtain rfl := Except.ok.inj h
    exact .reply (.doData hstate)
  case h_7 hstate =>
    obtain rfl := Except.ok.inj h
    exact .reply (.quit hstate)
  case h_8 hstate =>
    obtain rfl := Except.ok.inj h
    exact .reply (.resolved hstate)

end Takes

/-- A task and the input buffer of its connection. -/
structure Session where
  task : SendTask
  buf : Bytes
  deriving DecidableEq, Repr

namespace Session

def start (task : SendTask) : Session := ⟨task, []⟩

section

variable (hostName : Bytes)

/-- A pass of the loop in `send_mail`. -/
def sendMailPass (s : Session) : Pass Session (Except Fault Session) :=
  if s.buf = [] then .done (.ok s)
  else
    match findCrlf s.buf with
    | none => .done (.ok s)
    | some crlf =>
        match turn hostName s.task s.buf crlf with
        | .error fault => .done (.error fault)
        | .ok (.proceed t) => .again ⟨t, s.buf.drop (crlf + 2)⟩
        | .ok (.resolved t) => .done (.ok { s with task := t })
        | .ok .error => .done (.ok { s with task := s.task.setResult false (cStr s.buf) })

def sendMail (s : Session) : Except Fault Session :=
  (loop (sendMailPass hostName) (s.buf.length + 1) s).getD (.error .spins)

/-- A segment arrives. With its result a task leaves the task map, and nothing is
read for it any more. -/
def receive (s : Except Fault Session) (segment : Bytes) : Except Fault Session :=
  s.bind fun s =>
    if s.task.result.isSome then .ok s else sendMail hostName { s with buf := s.buf ++ segment }

end

end Session

end Angel.Smtp
