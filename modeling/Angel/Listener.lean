import Angel.Lib.Run
import Mathlib.Data.Int.Cast.Lemmas
import Mathlib.Data.List.Nodup

/-!
`listener_t`: how it uses the descriptors of the process. A spare one, `idle_fd`, is given up to
accept and turn away a connection when there are no more. Each system call of `handle_accept` is a
step, and the rest of the process opens and closes its own descriptors between any two of them. The
kernel has `limit` descriptors and refuses one, with `EMFILE`, exactly if they are all open.
-/

namespace Angel.Accepting

open Lib

/-- Whose an open descriptor is: the spare one, one from `accept` that `handle_accept` still has, or
one of the rest of the process, the connections that `onaccept` was given among them. -/
inductive Owner where
  | idle
  | accepted
  | other
  deriving DecidableEq, Repr

/-- The open descriptors. -/
abbrev Table := List (Nat × Owner)

/-- `close`, which has no effect where nothing is open. -/
def Table.close (table : Table) (fd : Int) : Table := table.filter fun entry => (entry.1 : Int) ≠ fd

/-- A descriptor of `handle_accept` goes to `onaccept`. -/
def Table.give (table : Table) (fd : Nat) : Table :=
  table.map fun entry => if entry.1 = fd then (fd, .other) else entry

/-- The values of `errno` that `handle_accept` tells apart. -/
inductive Errno where
  | eintr
  | ewouldblock
  | eproto
  | econnaborted
  | emfile
  | unknown
  deriving DecidableEq, Repr

inductive AcceptResult where
  | fd (n : Nat)
  | failed (errno : Errno)
  deriving DecidableEq, Repr

/-- Where `handle_accept` is. -/
inductive Place where
  | outside
  /-- with a connection, in front of `onaccept` -/
  | connected (fd : Nat)
  /-- in the branch of `EMFILE`, in front of `close(idle_fd)` -/
  | full
  | freed
  /-- behind the second `accept`, in front of the `close` of what it has returned -/
  | refusing (connfd : Int)
  | reopening
  deriving DecidableEq, Repr

structure Listener where
  idleFd : Int
  /-- whether `onaccept` is set -/
  onaccept : Bool
  place : Place
  table : Table
  /-- what the first `accept` has returned -/
  taken : List Nat
  /-- what `onaccept` was given -/
  given : List Nat
  deriving DecidableEq, Repr

/-- A listener whose `open` of `/dev/null` has succeeded, beside what else is open. -/
def Listener.init (onaccept : Bool) (idleFd : Nat) (fds : List Nat) : Listener where
  idleFd := idleFd
  onaccept := onaccept
  place := .outside
  table := (idleFd, .idle) :: fds.map fun fd => (fd, .other)
  taken := []
  given := []

inductive Event where
  | accept (r : AcceptResult)
  | handOver
  | closeIdle
  | acceptAgain (r : AcceptResult)
  | closeAgain
  | openIdle (fd : Option Nat)
  | otherOpens (fd : Nat)
  | otherCloses (fd : Nat)
  deriving DecidableEq, Repr

namespace Listener

def step (s : Listener) : Event → Listener
  | .accept (.fd n) =>
      { s with
        place := .connected n
        table := s.table ++ [(n, .accepted)]
        taken := s.taken ++ [n] }
  | .accept (.failed .emfile) => { s with place := .full }
  | .accept (.failed _) => s
  | .handOver =>
      match s.place with
      | .connected fd =>
          if s.onaccept then
            { s with place := .outside, table := s.table.give fd, given := s.given ++ [fd] }
          else { s with place := .outside, table := s.table.close fd }
      | _ => s
  | .closeIdle => { s with place := .freed, table := s.table.close s.idleFd }
  | .acceptAgain (.fd n) =>
      { s with place := .refusing n, table := s.table ++ [(n, .accepted)] }
  | .acceptAgain (.failed _) => { s with place := .refusing (-1) }
  | .closeAgain =>
      match s.place with
      | .refusing connfd => { s with place := .reopening, table := s.table.close connfd }
      | _ => s
  | .openIdle (some fd) =>
      { s with place := .outside, idleFd := fd, table := s.table ++ [(fd, .idle)] }
  | .openIdle none => { s with place := .outside, idleFd := -1 }
  | .otherOpens fd => { s with table := s.table ++ [(fd, .other)] }
  | .otherCloses fd => { s with table := s.table.close fd }

end Listener

/-- The kernel can return a descriptor. -/
def Table.Free (limit : Nat) (table : Table) (fd : Nat) : Prop :=
  table.length < limit ∧ ∀ owner, (fd, owner) ∉ table

/-- What `accept` can return. -/
def AcceptResult.From (limit : Nat) (table : Table) : AcceptResult → Prop
  | .fd n => table.Free limit n
  | .failed errno => errno = .emfile → limit ≤ table.length

namespace Listener

/-- The steps of `handle_accept` in their order, and those of others at any time. -/
def Allowed (limit : Nat) (s : Listener) : Event → Prop
  | .accept r => s.place = .outside ∧ r.From limit s.table
  | .handOver => ∃ fd, s.place = .connected fd
  | .closeIdle => s.place = .full
  | .acceptAgain r => s.place = .freed ∧ r.From limit s.table
  | .closeAgain => ∃ connfd, s.place = .refusing connfd
  | .openIdle (some fd) => s.place = .reopening ∧ s.table.Free limit fd
  | .openIdle none => s.place = .reopening ∧ limit ≤ s.table.length
  | .otherOpens fd => s.table.Free limit fd
  | .otherCloses fd => (fd, .other) ∈ s.table

/-- The spare descriptor is not given up at the moment. -/
def Keeps (s : Listener) : Prop :=
  match s.place with
  | .outside | .connected _ | .full => True
  | .freed | .refusing _ | .reopening => False

/-- `handle_accept` has a connection of its own at the moment. -/
def Has (s : Listener) (fd : Nat) : Prop :=
  match s.place with
  | .connected n => fd = n
  | .refusing connfd => (fd : Int) = connfd
  | _ => False

/-- The connection that is still to be given to `onaccept`. -/
def pending (s : Listener) : List Nat :=
  match s.place with
  | .connected fd => [fd]
  | _ => []

/-- The table tells whose each descriptor is. -/
structure Owned (limit : Nat) (s : Listener) : Prop where
  nodup : (s.table.map (·.1)).Nodup
  bound : s.table.length ≤ limit
  idle : ∀ fd : Nat, (fd, .idle) ∈ s.table ↔ s.Keeps ∧ (fd : Int) = s.idleFd
  accepted : ∀ fd : Nat, (fd, .accepted) ∈ s.table ↔ s.Has fd
  given : s.onaccept = true → s.taken = s.given ++ s.pending

end Listener

namespace Table

variable {table : Table} {fd n : Nat} {owner owner' : Owner} {limit : Nat}

@[simp] theorem mem_close {k : Int} :
    (fd, owner) ∈ table.close k ↔ (fd, owner) ∈ table ∧ (fd : Int) ≠ k := by
  simp [close]

@[simp] theorem close_none : table.close (-1) = table := by
  rw [close, List.filter_eq_self]
  intro entry _
  simp only [decide_eq_true_eq]
  omega

theorem close_nodup (h : (table.map (·.1)).Nodup) (k : Int) : ((table.close k).map (·.1)).Nodup :=
  h.sublist (List.filter_sublist.map _)

theorem close_length_le (k : Int) : (table.close k).length ≤ table.length :=
  List.length_filter_le _ _

theorem close_bound (h : table.length ≤ limit) (k : Int) : (table.close k).length ≤ limit :=
  Nat.le_trans (close_length_le k) h

theorem close_length_lt (h : (fd, owner) ∈ table) : (table.close fd).length < table.length := by
  refine List.length_filter_lt_length_iff_exists.mpr ⟨_, h, ?_⟩
  simp

theorem owner_eq (hnodup : (table.map (·.1)).Nodup) (h : (fd, owner) ∈ table)
    (h' : (fd, owner') ∈ table) : owner = owner' :=
  congrArg Prod.snd (List.inj_on_of_nodup_map hnodup h h' rfl)

theorem Free.nodup (h : table.Free limit n) (hnodup : (table.map (·.1)).Nodup) :
    ((table ++ [(n, owner)]).map (·.1)).Nodup := by
  rw [List.map_append, List.map_singleton, ← List.concat_eq_append]
  refine hnodup.concat ?_
  intro hmem
  obtain ⟨⟨fd, owner'⟩, hentry, rfl⟩ := List.mem_map.mp hmem
  exact h.2 owner' hentry

theorem Free.bound (h : table.Free limit n) : (table ++ [(n, owner)]).length ≤ limit := by
  rw [List.length_append, List.length_singleton]
  exact h.1

theorem give_keys : (table.give n).map (·.1) = table.map (·.1) := by
  rw [give, List.map_map]
  refine List.map_congr_left fun entry _ => ?_
  dsimp only [Function.comp_apply]
  split
  · next heq => exact heq.symm
  · rfl

@[simp] theorem give_length : (table.give n).length = table.length := List.length_map ..

theorem mem_give (howner : owner ≠ .other) :
    (fd, owner) ∈ table.give n ↔ (fd, owner) ∈ table ∧ fd ≠ n := by
  rw [give, List.mem_map]
  constructor
  · rintro ⟨entry, hmem, heq⟩
    split at heq
    · exact absurd (congrArg Prod.snd heq).symm howner
    · next hne =>
        subst heq
        exact ⟨hmem, hne⟩
  · rintro ⟨hmem, hne⟩
    exact ⟨_, hmem, if_neg hne⟩

@[simp] theorem idle_mem_give : (fd, .idle) ∈ table.give n ↔ (fd, .idle) ∈ table ∧ fd ≠ n :=
  mem_give (by simp)

@[simp] theorem accepted_mem_give :
    (fd, .accepted) ∈ table.give n ↔ (fd, .accepted) ∈ table ∧ fd ≠ n :=
  mem_give (by simp)

theorem other_mem_give (h : (fd, .other) ∈ table) : (fd, .other) ∈ table.give n := by
  refine List.mem_map.mpr ⟨_, h, ?_⟩
  dsimp only
  split
  · next heq => rw [heq]
  · rfl

end Table

namespace Listener

variable {limit : Nat} {s : Listener} {e : Event}

attribute [local simp] Keeps Has pending step

theorem Owned.other_step (h : s.Owned limit) {table : Table}
    (hnodup : (table.map (·.1)).Nodup) (hbound : table.length ≤ limit)
    (hmem : ∀ fd owner, owner ≠ .other → ((fd, owner) ∈ table ↔ (fd, owner) ∈ s.table)) :
    ({ s with table := table } : Listener).Owned limit where
  nodup := hnodup
  bound := hbound
  idle fd := (hmem fd .idle nofun).trans (h.idle fd)
  accepted fd := (hmem fd .accepted nofun).trans (h.accepted fd)
  given := h.given

private theorem accept_owned (h : s.Owned limit) {r : AcceptResult}
    (hok : s.Allowed limit (.accept r)) : (s.step (.accept r)).Owned limit := by
  obtain ⟨hplace, hfrom⟩ := hok
  obtain ⟨hnodup, hbound, hidle, haccepted, hgiven⟩ := h
  simp only [Keeps, Has, pending, hplace] at hidle haccepted hgiven
  cases r with
  | fd n =>
      refine ⟨hfrom.nodup hnodup, hfrom.bound, ?_, ?_, ?_⟩
      · simp [hidle]
      · simp [haccepted]
      · intro hset
        simp [hgiven hset]
  | failed errno =>
      cases errno with
      | emfile =>
          refine ⟨hnodup, hbound, ?_, ?_, ?_⟩
          · simpa using hidle
          · simpa using haccepted
          · simpa using hgiven
      | eintr | ewouldblock | eproto | econnaborted | unknown =>
          refine ⟨hnodup, hbound, ?_, ?_, ?_⟩
          · simpa [hplace] using hidle
          · simpa [hplace] using haccepted
          · simpa [hplace] using hgiven

private theorem handOver_owned (h : s.Owned limit) (hok : s.Allowed limit .handOver) :
    (s.step .handOver).Owned limit := by
  obtain ⟨n, hplace⟩ := hok
  obtain ⟨hnodup, hbound, hidle, haccepted, hgiven⟩ := h
  simp only [Keeps, Has, pending, hplace] at hidle haccepted hgiven
  have hown : ∀ fd : Nat, (fd : Int) = s.idleFd → fd ≠ n := by
    intro fd hfd heq
    have hboth := Table.owner_eq hnodup ((hidle fd).mpr ⟨trivial, hfd⟩) ((haccepted fd).mpr heq)
    exact nomatch hboth
  simp only [step, hplace]
  split
  · refine ⟨?_, ?_, ?_, ?_, ?_⟩
    · rw [Table.give_keys]
      exact hnodup
    · rw [Table.give_length]
      exact hbound
    · intro fd
      simpa [hidle] using hown fd
    · simp [haccepted]
    · intro hset
      simp [hgiven hset]
  · next hunset =>
      refine ⟨Table.close_nodup hnodup _, Table.close_bound hbound _, ?_, ?_, ?_⟩
      · intro fd
        simpa [hidle] using hown fd
      · simp [haccepted]
      · intro hset
        exact absurd hset hunset

private theorem closeIdle_owned (h : s.Owned limit) (hplace : s.place = .full) :
    (s.step .closeIdle).Owned limit := by
  obtain ⟨hnodup, hbound, hidle, haccepted, hgiven⟩ := h
  simp only [Keeps, Has, pending, hplace] at hidle haccepted hgiven
  refine ⟨Table.close_nodup hnodup _, Table.close_bound hbound _, ?_, ?_, ?_⟩
  · simp [hidle]
  · simp [haccepted]
  · simpa using hgiven

private theorem acceptAgain_owned (h : s.Owned limit) {r : AcceptResult}
    (hok : s.Allowed limit (.acceptAgain r)) : (s.step (.acceptAgain r)).Owned limit := by
  obtain ⟨hplace, hfrom⟩ := hok
  obtain ⟨hnodup, hbound, hidle, haccepted, hgiven⟩ := h
  simp only [Keeps, Has, pending, hplace] at hidle haccepted hgiven
  cases r with
  | fd n =>
      refine ⟨hfrom.nodup hnodup, hfrom.bound, ?_, ?_, ?_⟩
      · simp [hidle]
      · simp [haccepted]
      · simpa using hgiven
  | failed errno =>
      refine ⟨hnodup, hbound, ?_, ?_, ?_⟩
      · simp [hidle]
      · simp [haccepted]
      · simpa using hgiven

private theorem closeAgain_owned (h : s.Owned limit) (hok : s.Allowed limit .closeAgain) :
    (s.step .closeAgain).Owned limit := by
  obtain ⟨connfd, hplace⟩ := hok
  obtain ⟨hnodup, hbound, hidle, haccepted, hgiven⟩ := h
  simp only [Keeps, Has, pending, hplace] at hidle haccepted hgiven
  simp only [step, hplace]
  refine ⟨Table.close_nodup hnodup _, Table.close_bound hbound _, ?_, ?_, ?_⟩
  · simp [hidle]
  · simp [haccepted]
  · simpa using hgiven

private theorem openIdle_owned (h : s.Owned limit) {fd : Option Nat}
    (hok : s.Allowed limit (.openIdle fd)) : (s.step (.openIdle fd)).Owned limit := by
  obtain ⟨hnodup, hbound, hidle, haccepted, hgiven⟩ := h
  cases fd with
  | some n =>
      obtain ⟨hplace, hfree⟩ := hok
      simp only [Keeps, Has, pending, hplace] at hidle haccepted hgiven
      refine ⟨hfree.nodup hnodup, hfree.bound, ?_, ?_, ?_⟩
      · simp [hidle]
      · simp [haccepted]
      · simpa using hgiven
  | none =>
      obtain ⟨hplace, -⟩ := hok
      simp only [Keeps, Has, pending, hplace] at hidle haccepted hgiven
      refine ⟨hnodup, hbound, ?_, ?_, ?_⟩
      · simp [hidle]
      · simpa using haccepted
      · simpa using hgiven

theorem step_owned (h : s.Owned limit) (hok : s.Allowed limit e) : (s.step e).Owned limit := by
  cases e with
  | accept r => exact accept_owned h hok
  | handOver => exact handOver_owned h hok
  | closeIdle => exact closeIdle_owned h hok
  | acceptAgain r => exact acceptAgain_owned h hok
  | closeAgain => exact closeAgain_owned h hok
  | openIdle fd => exact openIdle_owned h hok
  | otherOpens fd =>
      refine h.other_step (hok.nodup h.nodup) hok.bound ?_
      intro n owner howner
      simp [howner]
  | otherCloses fd =>
      refine h.other_step (Table.close_nodup h.nodup _) (Table.close_bound h.bound _) ?_
      intro n owner howner
      rw [Table.mem_close, and_iff_left_iff_imp]
      intro hmem heq
      obtain rfl := Int.ofNat_inj.mp heq
      exact howner (Table.owner_eq h.nodup hmem hok)

theorem init_owned {onaccept : Bool} {idleFd : Nat} {fds : List Nat}
    (hnodup : (idleFd :: fds).Nodup)
    (hbound : (idleFd :: fds).length ≤ limit) : (init onaccept idleFd fds).Owned limit where
  nodup := by simpa [init, Function.comp_def] using hnodup
  bound := by simpa [init] using hbound
  idle fd := by simp [init]
  accepted fd := by simp [init]
  given _ := rfl

/-- No step of `handle_accept` closes what belongs to the rest of the process. -/
theorem other_kept (h : s.Owned limit) (hok : s.Allowed limit e)
    (hothers : ∀ fd, e ≠ .otherCloses fd)
    {fd : Nat} (hfd : (fd, .other) ∈ s.table) : (fd, .other) ∈ (s.step e).table := by
  have hkept : ∀ k : Int,
      (∀ n : Nat, (n : Int) = k → (n, .idle) ∈ s.table ∨ (n, .accepted) ∈ s.table) →
      (fd, .other) ∈ s.table.close k := by
    intro k hk
    refine Table.mem_close.mpr ⟨hfd, ?_⟩
    intro heq
    obtain hidle | haccepted := hk fd heq
    · exact nomatch Table.owner_eq h.nodup hfd hidle
    · exact nomatch Table.owner_eq h.nodup hfd haccepted
  cases e with
  | accept r =>
      cases r with
      | fd n => exact List.mem_append_left _ hfd
      | failed errno => cases errno <;> exact hfd
  | handOver =>
      obtain ⟨n, hplace⟩ := hok
      simp only [step, hplace]
      split
      · exact Table.other_mem_give hfd
      · refine hkept n fun m hm => .inr ((h.accepted m).mpr ?_)
        simpa [hplace] using Int.ofNat_inj.mp hm
  | closeIdle =>
      have hplace : s.place = .full := hok
      refine hkept s.idleFd fun m hm => .inl ((h.idle m).mpr ⟨?_, hm⟩)
      simp [hplace]
  | acceptAgain r =>
      cases r with
      | fd n => exact List.mem_append_left _ hfd
      | failed errno => exact hfd
  | closeAgain =>
      obtain ⟨connfd, hplace⟩ := hok
      simp only [step, hplace]
      refine hkept connfd fun m hm => .inr ((h.accepted m).mpr ?_)
      simpa [hplace] using hm
  | openIdle r =>
      cases r with
      | some n => exact List.mem_append_left _ hfd
      | none => exact hfd
  | otherOpens n => exact List.mem_append_left _ hfd
  | otherCloses n => exact absurd rfl (hothers n)

private theorem run_owned {onaccept : Bool} {idleFd : Nat} {fds : List Nat}
    (hnodup : (idleFd :: fds).Nodup)
    (hbound : (idleFd :: fds).length ≤ limit) {events : List Event}
    (hrun : Admissible step (Allowed limit) (init onaccept idleFd fds) events) :
    (run step (init onaccept idleFd fds) events).Owned limit :=
  run_invariant (fun _ _ => step_owned) (init_owned hnodup hbound) hrun

/-- Whatever the rest of the process opens and closes meanwhile, outside of `handle_accept` each
connection has been given to `onaccept`, in order, or closed, and no spare descriptor is open but
`idle_fd`; and no step of the listener closes a descriptor that is not its own. -/
theorem descriptors_owned {onaccept : Bool} {idleFd : Nat} {fds : List Nat}
    (hnodup : (idleFd :: fds).Nodup) (hbound : (idleFd :: fds).length ≤ limit) {events : List Event}
    (hrun : Admissible step (Allowed limit) (init onaccept idleFd fds) events) :
    let s := run step (init onaccept idleFd fds) events
    (s.place = .outside → (∀ fd, (fd, .accepted) ∉ s.table) ∧ (s.onaccept = true → s.given = s.taken) ∧
      ∀ fd : Nat, (fd, .idle) ∈ s.table ↔ (fd : Int) = s.idleFd) ∧
    ∀ e, s.Allowed limit e → (∀ fd, e ≠ .otherCloses fd) →
      ∀ fd, (fd, .other) ∈ s.table → (fd, .other) ∈ (s.step e).table := by
  intro s
  have h : s.Owned limit := run_owned hnodup hbound hrun
  refine ⟨?_, fun e hok hothers fd hfd => other_kept h hok hothers hfd⟩
  intro hplace
  obtain ⟨-, -, hidle, haccepted, hgiven⟩ := h
  simp only [Keeps, Has, pending, hplace] at hidle haccepted hgiven
  refine ⟨fun fd hfd => (haccepted fd).mp hfd, ?_, fun fd => ?_⟩
  · intro hset
    rw [hgiven hset, List.append_nil]
  · exact (hidle fd).trans (iff_of_eq (true_and _))

/-- The last descriptor goes to a connection, the next one is refused, and another thread is faster
with what was the spare one. -/
theorem descriptors_owned_race :
    let events := [Event.accept (.fd 4), .handOver, .accept (.failed .emfile), .closeIdle,
      .otherOpens 3, .acceptAgain (.failed .emfile), .closeAgain, .openIdle none]
    let s := run step (init true 3 [0]) events
    (s.place = .outside → (∀ fd, (fd, .accepted) ∉ s.table) ∧ (s.onaccept = true → s.given = s.taken) ∧
      ∀ fd : Nat, (fd, .idle) ∈ s.table ↔ (fd : Int) = s.idleFd) ∧
    ∀ e, s.Allowed 3 e → (∀ fd, e ≠ .otherCloses fd) →
      ∀ fd, (fd, .other) ∈ s.table → (fd, .other) ∈ (s.step e).table := by
  apply descriptors_owned
  · decide
  · decide
  · simp [Admissible, Allowed, AcceptResult.From, Table.Free, init, Table.give, Table.close]

/-- While the spare descriptor is given up, nobody else opens one. -/
def Quiet (s : Listener) (e : Event) : Prop := ∀ fd, e = .otherOpens fd → s.Keeps

/-- What was closed makes room for what is opened. -/
structure Spare (limit : Nat) (s : Listener) : Prop where
  idle : s.Keeps → ∃ fd : Nat, s.idleFd = fd
  room : s.place = .freed ∨ s.place = .reopening ∨ (∃ connfd < 0, s.place = .refusing connfd) →
    s.table.length < limit

private theorem step_spare (h : s.Owned limit) (hspare : s.Spare limit) (hok : s.Allowed limit e)
    (hquiet : s.Quiet e) : (s.step e).Spare limit := by
  obtain ⟨hidle, hroom⟩ := hspare
  cases e with
  | accept r =>
      obtain ⟨hplace, -⟩ := hok
      have hkeeps : s.Keeps := by simp [hplace]
      cases r with
      | fd n => exact ⟨fun _ => hidle hkeeps, by simp⟩
      | failed errno =>
          cases errno with
          | emfile => exact ⟨fun _ => hidle hkeeps, by simp⟩
          | eintr | ewouldblock | eproto | econnaborted | unknown => exact ⟨hidle, hroom⟩
  | handOver =>
      obtain ⟨n, hplace⟩ := hok
      have hkeeps : s.Keeps := by simp [hplace]
      simp only [step, hplace]
      split
      · exact ⟨fun _ => hidle hkeeps, by simp⟩
      · exact ⟨fun _ => hidle hkeeps, by simp⟩
  | closeIdle =>
      have hplace : s.place = .full := hok
      have hkeeps : s.Keeps := by simp [hplace]
      obtain ⟨fd, hfd⟩ := hidle hkeeps
      have hopen : (fd, .idle) ∈ s.table := (h.idle fd).mpr ⟨hkeeps, hfd.symm⟩
      refine ⟨by simp, fun _ => ?_⟩
      simp only [step, hfd]
      exact Nat.lt_of_lt_of_le (Table.close_length_lt hopen) h.bound
  | acceptAgain r =>
      obtain ⟨hplace, -⟩ := hok
      cases r with
      | fd n =>
          refine ⟨by simp, ?_⟩
          rintro (hfreed | hreopening | ⟨connfd, hneg, hrefusing⟩)
          · simp at hfreed
          · simp at hreopening
          · have heq : (n : Int) = connfd := Place.refusing.inj hrefusing
            omega
      | failed errno => exact ⟨by simp, fun _ => hroom (.inl hplace)⟩
  | closeAgain =>
      obtain ⟨connfd, hplace⟩ := hok
      simp only [step, hplace]
      refine ⟨by simp, fun _ => ?_⟩
      obtain hneg | hpos := Int.lt_or_le connfd 0
      · have hbefore := hroom (.inr (.inr ⟨connfd, hneg, hplace⟩))
        exact Nat.lt_of_le_of_lt (Table.close_length_le _) hbefore
      · obtain ⟨n, rfl⟩ := Int.eq_ofNat_of_zero_le hpos
        have hopen : (n, .accepted) ∈ s.table := (h.accepted n).mpr (by simp [hplace])
        exact Nat.lt_of_lt_of_le (Table.close_length_lt hopen) h.bound
  | openIdle r =>
      cases r with
      | some n => exact ⟨fun _ => ⟨n, rfl⟩, by simp⟩
      | none => exact absurd (hroom (.inr (.inl hok.1))) (Nat.not_lt.mpr hok.2)
  | otherOpens n =>
      have hkeeps := hquiet n rfl
      refine ⟨hidle, ?_⟩
      rintro (hfreed | hreopening | ⟨connfd, -, hrefusing⟩)
      · simp [show s.place = .freed from hfreed] at hkeeps
      · simp [show s.place = .reopening from hreopening] at hkeeps
      · simp [show s.place = .refusing connfd from hrefusing] at hkeeps
  | otherCloses n =>
      exact ⟨hidle, fun hplace => Nat.lt_of_le_of_lt (Table.close_length_le _) (hroom hplace)⟩

/-- Where no other thread opens a descriptor while the spare one is given up, running out of
descriptors never costs the listener its spare one: neither the second `accept` nor the `open` is
refused for want of a descriptor, and outside of `handle_accept` it is open. -/
theorem idle_kept {onaccept : Bool} {idleFd : Nat} {fds : List Nat} (hnodup : (idleFd :: fds).Nodup)
    (hbound : (idleFd :: fds).length ≤ limit) {events : List Event}
    (hrun : Admissible step (fun s e => s.Allowed limit e ∧ s.Quiet e) (init onaccept idleFd fds)
      events) :
    let s := run step (init onaccept idleFd fds) events
    (s.place = .outside → ∃ fd : Nat, s.idleFd = fd ∧ (fd, .idle) ∈ s.table) ∧
      ¬ s.Allowed limit (.acceptAgain (.failed .emfile)) ∧ ¬ s.Allowed limit (.openIdle none) := by
  intro s
  have hstep : ∀ (s : Listener) (e : Event), s.Owned limit ∧ s.Spare limit →
      s.Allowed limit e ∧ s.Quiet e → (s.step e).Owned limit ∧ (s.step e).Spare limit :=
    fun _ _ h hok => ⟨step_owned h.1 hok.1, step_spare h.1 h.2 hok.1 hok.2⟩
  have hspare : (init onaccept idleFd fds).Spare limit :=
    ⟨fun _ => ⟨idleFd, rfl⟩, by simp [init]⟩
  obtain ⟨hown, hidle, hroom⟩ : s.Owned limit ∧ s.Spare limit :=
    run_invariant hstep ⟨init_owned hnodup hbound, hspare⟩ hrun
  refine ⟨?_, ?_, ?_⟩
  · intro hplace
    have hkeeps : s.Keeps := by simp [hplace]
    obtain ⟨fd, hfd⟩ := hidle hkeeps
    exact ⟨fd, hfd, (hown.idle fd).mpr ⟨hkeeps, hfd.symm⟩⟩
  · rintro ⟨hplace, hfrom⟩
    exact Nat.not_lt.mpr (hfrom rfl) (hroom (.inl hplace))
  · rintro ⟨hplace, hfull⟩
    exact Nat.not_lt.mpr hfull (hroom (.inr (.inl hplace)))

/-- A connection is turned away. -/
theorem idle_kept_refused :
    let s := run step (init true 3 [0]) [.accept (.fd 4), .handOver, .accept (.failed .emfile),
      .closeIdle, .acceptAgain (.fd 3), .closeAgain, .openIdle (some 3)]
    (s.place = .outside → ∃ fd : Nat, s.idleFd = fd ∧ (fd, .idle) ∈ s.table) ∧
      ¬ s.Allowed 3 (.acceptAgain (.failed .emfile)) ∧ ¬ s.Allowed 3 (.openIdle none) := by
  apply idle_kept
  · decide
  · decide
  · simp [Admissible, Allowed, Quiet, AcceptResult.From, Table.Free, init, Table.give, Table.close]

end Listener

end Angel.Accepting
