import Angel.Evloop.Pass

/-!
`poll_base_t::wait`. The kernel fills `revents` of every entry and tells how many of them it has
set; the loop over the entries counts them down and ends with the last one.
-/

namespace Angel.Dispatcher

open Lib Channels

def pollErr : PollMask := 0x008

def pollHup : PollMask := 0x010

def pollNval : PollMask := 0x020

/-- What the kernel reports without being asked. -/
def pollAlways : PollMask := pollErr ||| pollHup ||| pollNval

def evret (revents : PollMask) : Finset EventType :=
  if revents = pollIn ||| pollHup then {.read, .write}
  else
    (if revents &&& pollIn ≠ 0#16 then {.read} else ∅) ∪
      (if revents &&& pollOut ≠ 0#16 then {.write} else ∅) ∪
        if revents &&& pollErr ≠ 0#16 then {.error} else ∅

/-- What an answer of `poll` tells a channel. One of `POLLIN` and `POLLHUP` alone is that of a `connect`
which has failed, and is for the write handler too. -/
def Tells (revents : PollMask) : EventType → Prop
  | .read => revents &&& pollIn ≠ 0#16
  | .write => revents &&& pollOut ≠ 0#16 ∨ revents = pollIn ||| pollHup
  | .error => revents &&& pollErr ≠ 0#16

namespace PollBase

/-- What `poll` does to the entries, `revents` being its answer for each descriptor. -/
def fill (revents : Int → PollMask) (b : PollBase) : PollBase :=
  { b with pollfds := b.pollfds.map fun pfd => { pfd with revents := revents pfd.fd } }

/-- The loop of `wait`: the descriptors that it finds channels for, with their triggers. -/
def waitLoop : List Pollfd → Int → List (Int × Finset EventType)
  | [], _ => []
  | pfd :: pollfds, nevents =>
      if 0 < pfd.revents.toInt then
        (pfd.fd, evret pfd.revents) :: if nevents - 1 = 0 then [] else waitLoop pollfds (nevents - 1)
      else waitLoop pollfds nevents

/-- `wait`, where `poll` returned `nevents`. -/
def wait (nevents : Int) (b : PollBase) : List (Int × Finset EventType) :=
  if 0 < nevents then waitLoop b.pollfds nevents else []

/-- An answer of `poll`: an entry gets events that it asked for and those that every entry does, and
the result counts the entries that have got some. -/
structure Answers (b : PollBase) (revents : Int → PollMask) (nevents : Int) : Prop where
  asked : ∀ pfd ∈ b.pollfds, revents pfd.fd &&& ~~~(pfd.events ||| pollAlways) = 0#16
  counted : nevents = b.pollfds.countP (fun pfd => revents pfd.fd ≠ 0#16)

variable {b : PollBase} {m : Interest Int} {revents : Int → PollMask} {nevents : Int}

@[simp] theorem evret_zero : evret 0#16 = ∅ := by
  simp [evret, pollIn, pollHup]

end PollBase

end Angel.Dispatcher

namespace Angel.Channels.Loop

open Lib Dispatcher

variable {s s' : Loop} {ready : List (Int × Finset EventType)} {active active' : List Addr}

end Angel.Channels.Loop
