import Angel.Basic
import Angel.Lib.Run
import Mathlib.Data.Option.Basic
import Mathlib.Logic.Function.Basic
import Mathlib.Tactic.Common

/-!
The cache of addresses in `cache.h`. `put` leaves a name that is stored as it is,
the time to live is multiplied in 32 bits, `get` looks at no time, and only `evict`
removes what has expired.
-/

namespace Angel.Dns

open Lib

structure CacheItem where
  addrList : List Bytes
  expire : Int
  deriving DecidableEq, Repr

/-- `cache`: its `cache_map`. -/
structure Cache where
  cacheMap : Bytes → Option CacheItem

namespace Cache

def get (name : Bytes) (c : Cache) : Option CacheItem := c.cacheMap name

/-- `ttl * 1000` for a 32-bit `ttl`. -/
def milliseconds (ttl : Nat) : Nat := ttl * 1000 % 2 ^ 32

def put (now : Int) (name : Bytes) (addrList : List Bytes) (ttl : Nat) (c : Cache) : Cache :=
  let a : CacheItem := ⟨addrList, now + milliseconds ttl⟩
  match c.cacheMap name with
  | none => ⟨Function.update c.cacheMap name (some a)⟩
  | some _ => c

def evict (now : Int) (c : Cache) : Cache :=
  ⟨fun name => (c.cacheMap name).filter fun item => now < item.expire⟩

/-- The cache and the last reading of the clock. -/
structure State where
  cache : Cache
  clock : Int

inductive Event where
  | put (now : Int) (name : Bytes) (addrList : List Bytes) (ttl : Nat)
  | get (now : Int) (name : Bytes)
  | evict (now : Int)
  deriving DecidableEq, Repr

namespace Event

def now : Event → Int
  | put now _ _ _ => now
  | get now _ => now
  | evict now => now

/-- A `put` for this name. -/
def Puts (name : Bytes) : Event → Prop
  | put _ other _ _ => other = name
  | _ => False

end Event

def step (s : State) (e : Event) : State :=
  { cache :=
      match e with
      | .put now name addrList ttl => s.cache.put now name addrList ttl
      | .get _ _ => s.cache
      | .evict now => s.cache.evict now
    clock := e.now }

def init : State := ⟨⟨fun _ => none⟩, 0⟩

/-- The clock does not go back. -/
def Allowed (s : State) (e : Event) : Prop := s.clock ≤ e.now

/-- What a `get` at `t` has to find after `put(name, addrs, ttl)` at `t0`: the
addresses as long as they live, and not any longer. -/
def Honours (t0 : Int) (addrs : List Bytes) (ttl : Nat) (t : Int) (found : Option CacheItem) :
    Prop :=
  (t < t0 + 1000 * ttl → found.map CacheItem.addrList = some addrs) ∧
    (t0 + 1000 * ttl ≤ t → found.map CacheItem.addrList ≠ some addrs)

/-- What is stored for the name once `put` has returned, by what was stored
before. -/
def itemAfter (t0 : Int) (addrs : List Bytes) (ttl : Nat) : Option CacheItem → CacheItem
  | none => ⟨addrs, t0 + milliseconds ttl⟩
  | some item => item

/-- One of the events is an `evict` at or after this time. -/
def Evicted (expire : Int) (events : List Event) : Prop := ∃ u, .evict u ∈ events ∧ expire ≤ u

theorem get_put (t0 : Int) (name : Bytes) (addrs : List Bytes) (ttl : Nat) (c : Cache) :
    (c.put t0 name addrs ttl).get name = some (itemAfter t0 addrs ttl (c.get name)) := by
  cases hstored : c.cacheMap name with
  | none => simp only [put, get, hstored, itemAfter, Function.update_self]
  | some item => simp only [put, get, hstored, itemAfter]

private theorem get_put_other {name other : Bytes} (h : other ≠ name) (t0 : Int)
    (addrs : List Bytes)
    (ttl : Nat) (c : Cache) : (c.put t0 other addrs ttl).get name = c.get name := by
  cases hstored : c.cacheMap other with
  | none => simp only [put, get, hstored, Function.update_of_ne h.symm]
  | some item => simp only [put, get, hstored]

theorem evicted_cons (expire : Int) (e : Event) (events : List Event) :
    Evicted expire (e :: events) ↔ (∃ u, e = .evict u ∧ expire ≤ u) ∨ Evicted expire events := by
  simp only [Evicted, List.mem_cons]
  constructor
  · rintro ⟨u, rfl | hmem, hle⟩
    · exact .inl ⟨u, rfl, hle⟩
    · exact .inr ⟨u, hmem, hle⟩
  · rintro (⟨u, rfl, hle⟩ | ⟨u, hmem, hle⟩)
    · exact ⟨u, .inl rfl, hle⟩
    · exact ⟨u, .inr hmem, hle⟩

theorem get_step {name : Bytes} {e : Event} (hputs : ¬ e.Puts name) (s : State) :
    (step s e).cache.get name =
      match e with
      | .evict u => (s.cache.get name).filter fun item => u < item.expire
      | _ => s.cache.get name := by
  cases e with
  | put now other addrList ttl => exact get_put_other hputs now addrList ttl s.cache
  | get now other => rfl
  | evict u => rfl

private theorem get_step_some {name : Bytes} {e : Event} (hputs : ¬ e.Puts name) {s : State}
    {item : CacheItem} (h : s.cache.get name = some item) :
    (∃ u, e = .evict u ∧ item.expire ≤ u) ∧ (step s e).cache.get name = none ∨
      (¬ ∃ u, e = .evict u ∧ item.expire ≤ u) ∧ (step s e).cache.get name = some item := by
  have hstep := get_step hputs s
  rw [h] at hstep
  cases e with
  | put now other addrList ttl => exact .inr ⟨by simp, hstep⟩
  | get now other => exact .inr ⟨by simp, hstep⟩
  | evict u =>
      rw [hstep]
      rcases lt_or_ge u item.expire with hlive | hdead
      · have hnot : ¬ ∃ u', Event.evict u = .evict u' ∧ item.expire ≤ u' := by
          rintro ⟨u', heq, hle⟩
          cases heq
          omega
        exact .inr ⟨hnot, Option.filter_some_pos (decide_eq_true hlive)⟩
      · exact .inl ⟨⟨u, rfl, hdead⟩, Option.filter_some_neg (by simpa using hdead)⟩

private theorem get_run_none {name : Bytes} {events : List Event}
    (hputs : ∀ e ∈ events, ¬ e.Puts name)
    {s : State} (h : s.cache.get name = none) : (run step s events).cache.get name = none := by
  induction events generalizing s with
  | nil => exact h
  | cons e events ih =>
      rw [run_cons]
      apply ih fun e' he' => hputs e' (List.mem_cons_of_mem _ he')
      rw [get_step (hputs e List.mem_cons_self), h]
      cases e <;> rfl

/-- Without a `put` for it, a name loses its item to an `evict` and in no other
way. -/
theorem get_run {name : Bytes} {events : List Event} (hputs : ∀ e ∈ events, ¬ e.Puts name)
    {s : State} {item : CacheItem} (h : s.cache.get name = some item) :
    ¬ Evicted item.expire events ∧ (run step s events).cache.get name = some item ∨
      Evicted item.expire events ∧ (run step s events).cache.get name = none := by
  induction events generalizing s with
  | nil => exact .inl ⟨by simp [Evicted], h⟩
  | cons e events ih =>
      have hrest : ∀ e' ∈ events, ¬ e'.Puts name :=
        fun e' he' => hputs e' (List.mem_cons_of_mem _ he')
      rw [evicted_cons, run_cons]
      rcases get_step_some (hputs e List.mem_cons_self) h with ⟨hevict, hgone⟩ | ⟨hnot, hkept⟩
      · exact .inr ⟨.inl hevict, get_run_none hrest hgone⟩
      · rcases ih hrest hkept with ⟨hevicted, hfound⟩ | ⟨hevicted, hfound⟩
        · exact .inl ⟨not_or.mpr ⟨hnot, hevicted⟩, hfound⟩
        · exact .inr ⟨.inr hevicted, hfound⟩

/-- What a `get` finds after a `put` is as the time to live says exactly when: as
long as the addresses live, the name was free or had the same addresses and no
`evict` has come at or after the stored expiry; after that, the name had other
addresses or such an `evict` has come. -/
theorem put_get_honours_iff (before after : List Event) (t0 t : Int) (name : Bytes)
    (addrs : List Bytes) (ttl : Nat) (hputs : ∀ e ∈ after, ¬ e.Puts name) :
    Honours t0 addrs ttl t
        ((run step init (before ++ .put t0 name addrs ttl :: after)).cache.get name) ↔
      let item := itemAfter t0 addrs ttl ((run step init before).cache.get name)
      (t < t0 + 1000 * ttl → item.addrList = addrs ∧ ¬ Evicted item.expire after) ∧
        (t0 + 1000 * ttl ≤ t → item.addrList ≠ addrs ∨ Evicted item.expire after) := by
  set s := run step init before
  set item := itemAfter t0 addrs ttl (s.cache.get name) with hitem
  have hput : (step s (.put t0 name addrs ttl)).cache.get name = some item :=
    get_put t0 name addrs ttl s.cache
  rw [run_append, run_cons]
  rcases get_run hputs hput with ⟨hkept, hfound⟩ | ⟨hgone, hfound⟩
  · rw [Honours, hfound]
    simp only [Option.map_some, Option.some.injEq, ne_eq, hkept, not_false_eq_true, and_true,
      or_false]
  · rw [Honours, hfound]
    simp only [Option.map_none, reduceCtorEq, ne_eq, not_false_eq_true, hgone, not_true_eq_false,
      and_false, or_true]

/-- The addresses of a free name are found as long as they live when their time in
milliseconds has 32 bits. -/
theorem get_of_free {before after : List Event} {t0 t : Int} {name : Bytes} {addrs : List Bytes}
    {ttl : Nat} (hputs : ∀ e ∈ after, ¬ e.Puts name) (htimes : ∀ e ∈ after, e.now ≤ t)
    (hfree : (run step init before).cache.get name = none) (httl : ttl * 1000 < 2 ^ 32)
    (ht : t < t0 + 1000 * ttl) :
    ((run step init (before ++ .put t0 name addrs ttl :: after)).cache.get name).map
      CacheItem.addrList = some addrs := by
  have hput : (step (run step init before) (.put t0 name addrs ttl)).cache.get name =
      some ⟨addrs, t0 + milliseconds ttl⟩ := by
    have h := get_put t0 name addrs ttl (run step init before).cache
    rwa [hfree] at h
  have hmilliseconds : milliseconds ttl = ttl * 1000 := Nat.mod_eq_of_lt httl
  rw [run_append, run_cons]
  rcases get_run hputs hput with ⟨_, hfound⟩ | ⟨⟨u, hmem, hle⟩, _⟩
  · rw [hfound]
    rfl
  · have hu := htimes _ hmem
    simp only [Event.now, hmilliseconds] at hu hle
    omega

/-- Two addresses for one name, the second stored while the first lives. -/
def renewed : List Event := [.put 0 [97] [[49]] 60, .put 1000 [97] [[50]] 60, .get 2000 [97]]

/-- The first address is found though the second was put last. -/
theorem put_get_first_wins :
    Admissible step Allowed init renewed ∧
      ¬ Honours 1000 [[50]] 60 2000
        ((run step init [.put 0 [97] [[49]] 60, .put 1000 [97] [[50]] 60]).cache.get [97]) := by
  refine ⟨by simp [renewed, Admissible, Allowed, step, init, Event.now], fun h => ?_⟩
  have hfound := h.1 (by omega)
  revert hfound
  decide

theorem put_get_honours_free :
    Honours 0 [[49]] 60 2000 ((run step init [.put 0 [97] [[49]] 60, .evict 1000]).cache.get [97]) := by
  have hputs : ∀ e ∈ [Event.evict 1000], ¬ e.Puts [97] := by
    simp [Event.Puts]
  apply (put_get_honours_iff [] [.evict 1000] 0 2000 [97] [[49]] 60 hputs).mpr
  constructor
  · intro _
    refine ⟨rfl, ?_⟩
    rintro ⟨u, hmem, hle⟩
    obtain rfl := Event.evict.inj (List.mem_singleton.mp hmem)
    revert hle
    decide
  · intro hlate
    omega

end Cache

end Angel.Dns
