import Angel.Dispatcher.Table
import Mathlib.Data.Fintype.Powerset

/-!
What a `dispatcher` is for: it keeps the events that each descriptor is watched for. `add`
adds some to them and `remove` takes some away; a descriptor without any is not watched.
-/

namespace Angel.Dispatcher

open Lib

inductive Event where
  | read
  | write
  deriving DecidableEq, Repr

instance : Fintype Event := ⟨{.read, .write}, fun e => by cases e <;> decide⟩

/-- The events as the bits of an `int`. -/
def mask (s : Finset Event) : Mask :=
  (if Event.read ∈ s then read else 0#32) ||| if Event.write ∈ s then write else 0#32

/-- The events among the bits of an `int`. -/
def eventsOf (events : Mask) : Finset Event :=
  (if events &&& read ≠ 0#32 then {.read} else ∅) ∪ if events &&& write ≠ 0#32 then {.write} else ∅

@[simp] theorem read_mem_eventsOf (events : Mask) :
    Event.read ∈ eventsOf events ↔ events &&& read ≠ 0#32 := by
  unfold eventsOf
  split <;> split <;> simp_all

@[simp] theorem write_mem_eventsOf (events : Mask) :
    Event.write ∈ eventsOf events ↔ events &&& write ≠ 0#32 := by
  unfold eventsOf
  split <;> split <;> simp_all

/-- The events that each descriptor is watched for. -/
abbrev Interest (κ : Type) := κ → Finset Event

namespace Interest

variable {κ : Type} [DecidableEq κ]

/-- Nothing is watched. -/
def none : Interest κ := fun _ => ∅

def step (m : Interest κ) : Change κ (Finset Event) → Interest κ
  | .add fd events => Function.update m fd (m fd ∪ events)
  | .remove fd events => Function.update m fd (m fd \ events)

/-- The interest that changes add up to. -/
def of (changes : List (Change κ (Finset Event))) : Interest κ := run step none changes

end Interest

end Angel.Dispatcher
