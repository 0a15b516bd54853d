import Angel.Timer.Loop
import Mathlib.Order.Bounds.Basic

/-!
How long the loop sleeps. `timeout` looks at the first task of the store, and each back end hands
the time to its system call in a form of its own. Told well, the call gives up when the first timer
becomes due: the loop does not sleep over it, and does not come back before `tick` has work to do.
-/

namespace Angel.Timer

open Lib

variable {κ : Type}

/-- At the clock reading `now`; -1 is for ever. -/
def timeout (now : Int) (t : Timer κ) : Int :=
  match t.timerSet with
  | [] => -1
  | first :: _ => if int64 (first.expire - now) > 0 then int64 (first.expire - now) else 0

inductive Backend where
  | select
  | poll
  | epoll
  | kqueue
  deriving DecidableEq, Repr

/-- What an `int` keeps of a longer number. -/
def int32 (n : Int) : Int := n.bmod (2 ^ 32)

namespace Backend

/-- The nanoseconds behind which the system call of `wait` gives up, and `none` if it does not.
`poll` and `epoll_wait` have an `int` for the milliseconds, and a negative one is for ever; `select`
and `kevent` are given seconds and a fraction, or the null pointer. -/
def limit (timeout : Int) : Backend → Option Int
  | .poll | .epoll => if int32 timeout < 0 then none else some (int32 timeout * 1000000)
  | .select =>
      let tv : Int × Int :=
        if timeout > 0 then (timeout.tdiv 1000, timeout.tmod 1000 * 1000) else (0, 0)
      if timeout ≥ 0 then some (tv.1 * 1000000000 + tv.2 * 1000) else none
  | .kqueue =>
      let tsp : Int × Int :=
        if timeout > 0 then (timeout.tdiv 1000, timeout.tmod 1000 * 1000 * 1000) else (0, 0)
      if timeout ≥ 0 then some (tsp.1 * 1000000000 + tsp.2) else none

/-- The argument of the system call has room for the time until the first of the tasks. -/
def Holds (now : Int) (tasks : List (TimerTask κ)) : Backend → Prop
  | .poll | .epoll => tasks = [] ∨ ∃ task ∈ tasks, task.expire < now + 2 ^ 31
  | .select | .kqueue => True

/-- The same of the milliseconds. -/
private def Fits (timeout : Int) : Backend → Prop
  | .poll | .epoll => timeout < 2 ^ 31
  | .select | .kqueue => True

private theorem limit_forever (b : Backend) : b.limit (-1) = none := by
  cases b <;> decide

private theorem limit_of_fits {timeout : Int} {b : Backend} (hnonneg : 0 ≤ timeout)
    (hfits : b.Fits timeout) : b.limit timeout = some (timeout * 1000000) := by
  cases b with
  | poll | epoll =>
      have hsame : int32 timeout = timeout := Int.bmod_eq_of_le (by omega) (by
        have hlt : timeout < 2 ^ 31 := hfits
        omega)
      simp only [limit, hsame, Int.not_lt.mpr hnonneg, if_false]
  | select | kqueue =>
      have hparts := Int.mul_tdiv_add_tmod timeout 1000
      rcases Int.lt_or_eq_of_le hnonneg with hpos | rfl
      · simp only [limit, gt_iff_lt, ge_iff_le, hpos, hnonneg, if_true, Option.some.injEq]
        omega
      · rfl

/-- Cut down to an `int`, the time is a shorter one or none at all. -/
private theorem limit_lt_of_not_fits {timeout ns : Int} {b : Backend} (hfits : ¬ b.Fits timeout)
    (hlimit : b.limit timeout = some ns) : ns < timeout * 1000000 := by
  cases b with
  | poll | epoll =>
      have hge : ¬ timeout < 2 ^ 31 := hfits
      have hlt : int32 timeout < ((2 ^ 32 : Nat) + 1 : Int) / 2 := Int.bmod_lt (by decide)
      simp only [limit] at hlimit
      split at hlimit
      · cases hlimit
      · obtain rfl := Option.some.inj hlimit
        omega
  | select | kqueue => exact absurd trivial hfits

end Backend

example : (Backend.poll.limit (2 ^ 31), Backend.poll.limit (2 ^ 32)) = (none, some 0) := by decide

/-- The limit ends when the first of the tasks becomes due; without tasks there is none. -/
def Awaits (now : Int) (tasks : List (TimerTask κ)) : Option Int → Prop
  | none => tasks = []
  | some ns =>
      IsLeast {d | 0 ≤ d ∧ ∃ task ∈ tasks, task.expire * 1000000 ≤ now * 1000000 + d} ns

/-- The difference of two times that `timeout` takes is one of an `int64_t`. -/
def InSight (now : Int) (tasks : List (TimerTask κ)) : Prop :=
  ∀ task ∈ tasks, now - 2 ^ 63 ≤ task.expire ∧ task.expire < now + 2 ^ 63

private theorem first_le {first task : TimerTask κ} {rest : List (TimerTask κ)}
    (hordered : (first :: rest).Pairwise fun a b => a.expire ≤ b.expire)
    (hmem : task ∈ first :: rest) : first.expire ≤ task.expire := by
  rcases List.mem_cons.mp hmem with rfl | hin
  · exact Int.le_refl _
  · exact (List.pairwise_cons.mp hordered).1 task hin

private theorem awaits_first {now ns : Int} {first : TimerTask κ} {rest : List (TimerTask κ)}
    (hordered : (first :: rest).Pairwise fun a b => a.expire ≤ b.expire) :
    Awaits now (first :: rest) (some ns) ↔ ns = max 0 ((first.expire - now) * 1000000) := by
  have hset : {d : Int | 0 ≤ d ∧
      ∃ task ∈ first :: rest, task.expire * 1000000 ≤ now * 1000000 + d} =
        Set.Ici (max 0 ((first.expire - now) * 1000000)) := by
    ext d
    simp only [Set.mem_ofPred_eq, Set.mem_Ici, Int.max_le]
    refine and_congr_right fun _ => ⟨?_, fun hle => ⟨first, List.mem_cons_self, by omega⟩⟩
    rintro ⟨task, hmem, hdue⟩
    have hfirst := first_le hordered hmem
    omega
  simp only [Awaits, hset]
  exact ⟨fun h => h.unique isLeast_Ici, fun h => h ▸ isLeast_Ici⟩

private theorem timeout_cons {now : Int} {t : Timer κ} {first : TimerTask κ}
    {rest : List (TimerTask κ)} (hset : t.timerSet = first :: rest)
    (hsight : InSight now t.timerSet) : timeout now t = max 0 (first.expire - now) := by
  obtain ⟨hge, hlt⟩ := hsight first (by simp [hset])
  simp only [timeout, hset, int64_eq (n := first.expire - now) (by omega) (by omega)]
  split <;> omega

private theorem holds_iff {now : Int} {first : TimerTask κ} {rest : List (TimerTask κ)}
    (hordered : (first :: rest).Pairwise fun a b => a.expire ≤ b.expire) (b : Backend) :
    b.Holds now (first :: rest) ↔ b.Fits (max 0 (first.expire - now)) := by
  cases b with
  | poll | epoll =>
      simp only [Backend.Holds, Backend.Fits, List.cons_ne_nil, false_or]
      constructor
      · rintro ⟨task, hmem, hlt⟩
        have hfirst := first_le hordered hmem
        omega
      · intro hlt
        exact ⟨first, List.mem_cons_self, by omega⟩
  | select | kqueue => exact Iff.rfl

/-- A back end is told the time until the first timer exactly if its argument holds it. -/
theorem awaits_limit_iff {now : Int} {t : Timer κ} (h : t.Consistent)
    (hsight : InSight now t.timerSet) (b : Backend) :
    Awaits now t.timerSet (b.limit (timeout now t)) ↔ b.Holds now t.timerSet := by
  cases hset : t.timerSet with
  | nil =>
      have hnever : timeout now t = -1 := by simp [timeout, hset]
      rw [hnever, b.limit_forever]
      cases b <;> simp [Awaits, Backend.Holds]
  | cons first rest =>
      have hordered := hset ▸ h.ordered
      rw [holds_iff hordered, timeout_cons hset hsight]
      constructor
      · intro hawaits
        by_contra hfits
        cases hlimit : b.limit (max 0 (first.expire - now)) with
        | none =>
            rw [hlimit] at hawaits
            cases hawaits
        | some ns =>
            rw [hlimit, awaits_first hordered] at hawaits
            have hshort := Backend.limit_lt_of_not_fits hfits hlimit
            omega
      · intro hfits
        rw [Backend.limit_of_fits (by omega) hfits, awaits_first hordered]
        omega

namespace Loop

variable {s : Thread κ}

/-- The time that a system call was told is over when the clock reads `now`; the kernel returns 0
then, and not before. -/
def Over (clock now : Int) : Option Int → Prop
  | none => False
  | some ns => clock * 1000000 + ns ≤ now * 1000000

/-- A pass whose wait reports no event, until `tick` returns. -/
def quietPass (clock now : Int) (rest : List (Event κ)) : List (Event κ) :=
  .timeout clock :: .wait 0 now :: (rest ++ [.ticked])

private theorem invoked_extends_step (s : Thread κ) (e : Event κ) :
    s.timer.invoked <+: (step s e).timer.invoked := by
  cases e with
  | timeout | handled | ticked | done => exact List.prefix_rfl
  | wait nevents now =>
      simp only [step]
      split_ifs <;> exact List.prefix_rfl
  | timer e =>
      cases e with
      | add | cancel | tick => exact List.prefix_rfl
      | next =>
          simp only [step, State.step]
          split
          · split
            · exact List.prefix_rfl
            · exact List.prefix_append ..
            · exact List.prefix_rfl
          · exact List.prefix_rfl
      | ret =>
          simp only [step, State.step]
          split <;> exact List.prefix_rfl

private theorem invoked_extends (s : Thread κ) (events : List (Event κ)) :
    s.timer.invoked <+: (run step s events).timer.invoked := by
  induction events generalizing s with
  | nil => exact List.prefix_rfl
  | cons e events ih => exact (invoked_extends_step s e).trans (ih (step s e))

/-- With a timer due, the first step of `tick` is the call of a callback. -/
private theorem tick_first {now : Int} (hvalid : s.timer.Valid) (hplace : s.place = .ticking)
    (hphase : s.timer.phase = .ticking now) {task : TimerTask κ}
    (hmem : task ∈ s.timer.timer.timerSet) (hdue : task.expire ≤ now) {e : Event κ}
    (hok : Allowed s e) :
    s.timer.invoked.length < (step s e).timer.invoked.length := by
  cases e with
  | timeout | wait | handled | done =>
      rw [Allowed, hplace] at hok
      cases hok
  | ticked =>
      rw [Allowed, hphase] at hok
      cases hok.2
  | timer e =>
      obtain ⟨hallowed, -⟩ := hok
      cases e with
      | add | cancel | tick | ret => simp [State.Allowed, State.Callable, hphase] at hallowed
      | next =>
          rcases State.step_next_cases hvalid hphase with ⟨-, hlate⟩ | ⟨cur, rest, -, -, hstep⟩
          · exact absurd hdue (Int.not_le.mpr (hlate task hmem))
          · simp [step, hstep]

/-- In every pass of every run: the system call is told exactly the time until the first timer if
its argument holds that time, and then a wait without events is followed by a callback. -/
theorem sleeps_until_due (h : Reachable s) {clock : Int}
    (hsight : InSight clock s.timer.timer.timerSet) (b : Backend) :
    let limit := b.limit (timeout clock s.timer.timer)
    (Awaits clock s.timer.timer.timerSet limit ↔ b.Holds clock s.timer.timer.timerSet) ∧
      (b.Holds clock s.timer.timer.timerSet → ∀ now rest, Over clock now limit →
        Admissible step Allowed s (quietPass clock now rest) →
          s.timer.invoked.length < (run step s (quietPass clock now rest)).timer.invoked.length) := by
  intro limit
  have hexact : Awaits clock s.timer.timer.timerSet limit ↔ b.Holds clock s.timer.timer.timerSet :=
    awaits_limit_iff h.valid.timer.consistent hsight b
  refine ⟨hexact, ?_⟩
  intro hholds now rest hover hrun
  have hawaits := hexact.mpr hholds
  cases hlimit : limit with
  | none =>
      rw [hlimit] at hover
      cases hover
  | some ns =>
      rw [hlimit] at hawaits hover
      obtain ⟨⟨-, task, hmem, hdue⟩, -⟩ := hawaits
      have hlate : task.expire ≤ now := by
        simp only [Over] at hover
        omega
      obtain ⟨htop, -, hrest⟩ := hrun
      have houtside := h.valid.outside (by rw [show s.place = .top from htop]; nofun)
      -- the state in which `tick` begins
      let begun := step (step s (.timeout clock)) (.wait 0 now)
      have hvalid : begun.timer.Valid :=
        State.step_valid s.timer (.tick now) h.valid.timer houtside
      have hfirst : ∀ e, Allowed begun e →
          s.timer.invoked.length < (step begun e).timer.invoked.length :=
        fun e => tick_first (s := begun) hvalid rfl rfl hmem hlate
      cases hevents : rest ++ [.ticked] with
      | nil => simp at hevents
      | cons e events =>
          rw [hevents] at hrest
          simp only [quietPass, hevents, run_cons]
          exact (hfirst e hrest.1).trans_le (invoked_extends (step begun e) events).length_le

/-- A timer for the time 10, seen at 3. -/
def oneTimer : List (Event Unit) :=
  [.timeout 0, .wait 1 0, .handled, .timer (.add ⟨1, 10, 0, ()⟩), .done]

theorem sleeps_until_due_seven :
    let s := run step init oneTimer
    Awaits 3 s.timer.timer.timerSet (some 7000000) ∧
      s.timer.invoked.length <
        (run step s (quietPass 3 10 [.timer .next, .timer .ret, .timer .next])).timer.invoked.length := by
  intro s
  have hreachable : Reachable s :=
    ⟨oneTimer, ⟨rfl, rfl, rfl, ⟨⟨trivial, List.not_mem_nil, by decide⟩, trivial⟩, rfl, trivial⟩, rfl⟩
  have hsight : InSight 3 s.timer.timer.timerSet := by
    intro task hmem
    obtain rfl := List.mem_singleton.mp hmem
    decide
  have hholds : Backend.poll.Holds 3 s.timer.timer.timerSet :=
    .inr ⟨⟨1, 10, 0, ()⟩, List.mem_singleton_self _, by decide⟩
  obtain ⟨hexact, hcalled⟩ := sleeps_until_due hreachable hsight .poll
  refine ⟨hexact.mpr hholds, hcalled hholds 10 [.timer .next, .timer .ret, .timer .next] ?_ ?_⟩
  · have hlimit : Backend.poll.limit (timeout 3 s.timer.timer) = some 7000000 := by decide
    rw [hlimit]
    simp [Over]
  · exact ⟨rfl, rfl, ⟨⟨10, rfl⟩, nofun⟩, ⟨⟨10, _, rfl⟩, nofun⟩, ⟨⟨10, rfl⟩, nofun⟩, ⟨rfl, rfl⟩,
      trivial⟩

end Loop

end Angel.Timer
