import Mathlib.Data.List.Nodup
import Mathlib.Logic.Function.Basic
import Mathlib.Tactic.Common

/-!
`http_connection_pool` of `httplib.cc`: the connections of one route, those that
wait for a request in `avail` and those that serve one in `leased`. All four
operations run under `router_mutex`.

A connection is an address of type `π`; `conns` tells which addresses are live and
holds the objects there, and the two vectors own them. `ρ` is the type of the
promises. An operation that would trip an assertion or read a dead or missing
object gives `none`.
-/

namespace Angel.Http

variable {π ρ : Type}

/-- The fields of `http_connection` that the pool and the timers of the client go
by. -/
structure PooledConnection (ρ : Type) where
  create : Bool
  leased : Bool
  removing : Bool
  requestTimeoutTimerId : Nat
  responsePromise : ρ
  deriving DecidableEq, Repr

structure HttpConnectionPool (π ρ : Type) where
  avail : List π
  leased : List π
  conns : π → Option (PooledConnection ρ)

/-- `std::swap(list[i], list.back())`. -/
def swapBack (i : Nat) (list : List π) : List π :=
  match list[i]?, list.getLast? with
  | some conn, some back => (list.set i back).set (list.length - 1) conn
  | _, _ => list

section SwapBack

variable [DecidableEq π]

theorem swapBack_spec {i : Nat} {list : List π} {c : π} (h : list[i]? = some c) :
    ∃ rest, swapBack i list = rest ++ [c] ∧ rest.Perm (list.erase c) := by
  obtain ⟨hi, hc⟩ := List.getElem?_eq_some_iff.mp h
  have hlast : list.length - 1 < list.length := by omega
  have hback : list.getLast? = some list[list.length - 1] := by
    rw [List.getLast?_eq_getElem?, List.getElem?_eq_getElem hlast]
  have hswap : swapBack i list = (list.set i list[list.length - 1]).set (list.length - 1) list[i] := by
    simp [swapBack, h, hback, hc]
  have hperm : (swapBack i list).Perm list := hswap ▸ List.set_set_perm hi hlast
  have hne : swapBack i list ≠ [] := by
    intro hnil
    rw [hnil] at hperm
    simp [hperm.symm.eq_nil] at hi
  have hend : (swapBack i list).getLast hne = c := by
    simp only [hswap, List.getLast_eq_getElem, List.length_set, List.getElem_set_self, hc]
  refine ⟨(swapBack i list).dropLast, ?_, ?_⟩
  · rw [← hend]
    exact (List.dropLast_append_getLast hne).symm
  · rw [← List.dropLast_append_getLast hne, hend] at hperm
    have hcons := (List.perm_append_singleton c _).symm.trans hperm
    exact (List.cons_perm_iff_perm_erase.mp hcons).2

theorem findIdx?_mem {list : List π} {c : π} (h : c ∈ list) :
    ∃ i, list.findIdx? (· = c) = some i ∧ list[i]? = some c := by
  have hsome : (list.findIdx? (· = c)).isSome := by
    simpa [List.findIdx?_isSome] using h
  obtain ⟨i, hi⟩ := Option.isSome_iff_exists.mp hsome
  obtain ⟨hlt, hat, -⟩ := List.findIdx?_eq_some_iff_getElem.mp hi
  refine ⟨i, hi, ?_⟩
  rw [List.getElem?_eq_getElem hlt]
  simpa using hat

end SwapBack

namespace HttpConnectionPool

def init : HttpConnectionPool π ρ where
  avail := []
  leased := []
  conns := fun _ => none

def activeConns (p : HttpConnectionPool π ρ) : Nat := p.leased.length + p.avail.length

/-- The operations of a pool. -/
inductive Operation (π ρ : Type) where
  | create (conn : π) (promise : ρ)
  | lease (promise : ρ)
  | release (httpConn : π)
  | remove (httpConn : π)

section Operations

variable [DecidableEq π]

/-- `conn` is where `new` put the object. -/
def createConnection (conn : π) (promise : ρ) (p : HttpConnectionPool π ρ) :
    HttpConnectionPool π ρ where
  avail := p.avail
  leased := p.leased ++ [conn]
  conns := Function.update p.conns conn (some
    { create := true, leased := true, removing := false, requestTimeoutTimerId := 0
      responsePromise := promise })

def leaseConnection (promise : ρ) (p : HttpConnectionPool π ρ) :
    Option (HttpConnectionPool π ρ) := do
  let back ← p.avail.getLast?
  let conn ← p.conns back
  some
    { avail := p.avail.dropLast
      leased := p.leased ++ [back]
      conns := Function.update p.conns back
        (some { conn with leased := true, responsePromise := promise }) }

def releaseConnection (httpConn : π) (p : HttpConnectionPool π ρ) :
    Option (HttpConnectionPool π ρ) := do
  let conn ← p.conns httpConn
  if conn.leased then
    match p.leased.findIdx? (· = httpConn) with
    | none => some p
    | some i =>
        let leased := swapBack i p.leased
        let back ← leased.getLast?
        some
          { avail := p.avail ++ [back]
            leased := leased.dropLast
            conns := Function.update p.conns httpConn (some { conn with leased := false }) }
  else none

/-- What goes with the popped element is its object. -/
def removeConnection (httpConn : π) (p : HttpConnectionPool π ρ) :
    Option (HttpConnectionPool π ρ) := do
  let conn ← p.conns httpConn
  if conn.removing then none
  else
    let conns := Function.update p.conns httpConn (some { conn with removing := true })
    let list := if conn.leased then p.leased else p.avail
    match list.findIdx? (· = httpConn) with
    | none => some { p with conns := conns }
    | some i =>
        let list := swapBack i list
        let back ← list.getLast?
        let conns := Function.update conns back none
        some <| if conn.leased then { p with leased := list.dropLast, conns := conns }
          else { p with avail := list.dropLast, conns := conns }

def apply (p : HttpConnectionPool π ρ) : Operation π ρ → Option (HttpConnectionPool π ρ)
  | .create conn promise => some (p.createConnection conn promise)
  | .lease promise => p.leaseConnection promise
  | .release httpConn => p.releaseConnection httpConn
  | .remove httpConn => p.removeConnection httpConn

end Operations

/-- When the client makes a call. `new` gives an address that nothing lives at. -/
def Allowed (maxConns : Nat) (p : HttpConnectionPool π ρ) : Operation π ρ → Prop
  | .create conn _ => p.avail = [] ∧ p.activeConns < maxConns ∧ p.conns conn = none
  | .lease _ => p.avail ≠ []
  | .release httpConn => ∃ conn, p.conns httpConn = some conn ∧ conn.leased = true
  | .remove httpConn => ∃ conn, p.conns httpConn = some conn

/-- Every live connection is in exactly one of the two vectors, once, its flag
tells which, and there are no more than the bound. -/
structure Valid (maxConns : Nat) (p : HttpConnectionPool π ρ) : Prop where
  live : ∀ c, p.conns c ≠ none ↔ c ∈ p.avail ++ p.leased
  once : (p.avail ++ p.leased).Nodup
  flag : ∀ c conn, p.conns c = some conn → (conn.leased = true ↔ c ∈ p.leased)
  kept : ∀ c conn, p.conns c = some conn → conn.removing = false
  bound : p.activeConns ≤ maxConns

namespace Valid

variable {maxConns : Nat} {p p' : HttpConnectionPool π ρ} {c : π} {conn : PooledConnection ρ}

theorem disjoint (h : p.Valid maxConns) (havail : c ∈ p.avail) : c ∉ p.leased := by
  intro hleased
  exact (List.nodup_append.mp h.once).2.2 c havail c hleased rfl

theorem mem_leased (h : p.Valid maxConns) (hc : p.conns c = some conn)
    (hflag : conn.leased = true) : c ∈ p.leased :=
  (h.flag c conn hc).mp hflag

theorem mem_avail (h : p.Valid maxConns) (hc : p.conns c = some conn)
    (hflag : ¬ conn.leased = true) : c ∈ p.avail := by
  have hmem := (h.live c).mp (by simp [hc])
  rcases List.mem_append.mp hmem with havail | hleased
  · exact havail
  · exact absurd ((h.flag c conn hc).mpr hleased) hflag

theorem exists_conn (h : p.Valid maxConns) (hmem : c ∈ p.avail ++ p.leased) :
    ∃ conn, p.conns c = some conn :=
  Option.ne_none_iff_exists'.mp ((h.live c).mpr hmem)

end Valid

variable {maxConns : Nat} {p p' : HttpConnectionPool π ρ} {c : π}

theorem init_valid : (init : HttpConnectionPool π ρ).Valid maxConns where
  live := by simp [init]
  once := by simp [init]
  flag := by simp [init]
  kept := by simp [init]
  bound := by simp [init, activeConns]

theorem activeConns_eq (p : HttpConnectionPool π ρ) :
    p.activeConns = (p.avail ++ p.leased).length := by
  simp [activeConns, Nat.add_comm]

variable [DecidableEq π]

/-- The states of a pool with a fixed `max_conns_per_route`. -/
inductive Reachable (maxConns : Nat) : HttpConnectionPool π ρ → Prop where
  | init : Reachable maxConns init
  | step {p p' : HttpConnectionPool π ρ} (op : Operation π ρ) :
      Reachable maxConns p → p.Allowed maxConns op → p.apply op = some p' → Reachable maxConns p'

/-- What an operation does: which connection it moves, creates or deletes, with
every other one where it was; a connection that starts to serve a request is the
last of `leased`. -/
def Effect (p p' : HttpConnectionPool π ρ) : Operation π ρ → Prop
  | .create conn promise =>
      p'.avail = p.avail ∧ p'.leased = p.leased ++ [conn] ∧
      p'.conns = Function.update p.conns conn (some ⟨true, true, false, 0, promise⟩)
  | .lease promise =>
      ∃ c conn, p.conns c = some conn ∧ p.avail = p'.avail ++ [c] ∧ p'.leased = p.leased ++ [c] ∧
      p'.conns = Function.update p.conns c
        (some { conn with leased := true, responsePromise := promise })
  | .release c =>
      ∃ conn, p.conns c = some conn ∧ c ∈ p.leased ∧
      p'.avail = p.avail ++ [c] ∧ p'.leased.Perm (p.leased.erase c) ∧
      p'.conns = Function.update p.conns c (some { conn with leased := false })
  | .remove c =>
      p'.avail.Perm (p.avail.erase c) ∧ p'.leased.Perm (p.leased.erase c) ∧
      p'.conns = Function.update p.conns c none

theorem lease_effect (promise : ρ) (h : p.Valid maxConns) (hok : p.avail ≠ []) :
    ∃ p', p.leaseConnection promise = some p' ∧ p.Effect p' (.lease promise) := by
  set back := p.avail.getLast hok with hback
  have hlast : p.avail.getLast? = some back := List.getLast?_eq_some_getLast hok
  have hmem : back ∈ p.avail ++ p.leased := List.mem_append_left _ (List.getLast_mem hok)
  obtain ⟨conn, hconn⟩ := h.exists_conn hmem
  refine ⟨⟨p.avail.dropLast, p.leased ++ [back], Function.update p.conns back
    (some { conn with leased := true, responsePromise := promise })⟩, ?_, back, conn, hconn, ?_,
    rfl, rfl⟩
  · simp [leaseConnection, hlast, hconn]
  · exact (List.dropLast_append_getLast hok).symm

theorem release_effect (h : p.Valid maxConns)
    (hok : ∃ conn, p.conns c = some conn ∧ conn.leased = true) :
    ∃ p', p.releaseConnection c = some p' ∧ p.Effect p' (.release c) := by
  obtain ⟨conn, hconn, hflag⟩ := hok
  have hmem := h.mem_leased hconn hflag
  obtain ⟨i, hidx, hat⟩ := findIdx?_mem hmem
  obtain ⟨rest, hswap, hperm⟩ := swapBack_spec hat
  refine ⟨⟨p.avail ++ [c], rest, Function.update p.conns c (some { conn with leased := false })⟩,
    ?_, conn, hconn, hmem, rfl, hperm, rfl⟩
  simp [releaseConnection, hconn, hflag, hidx, hswap]

theorem remove_effect (h : p.Valid maxConns) (hok : ∃ conn, p.conns c = some conn) :
    ∃ p', p.removeConnection c = some p' ∧ p.Effect p' (.remove c) := by
  obtain ⟨conn, hconn⟩ := hok
  have hkept := h.kept c conn hconn
  -- the flag picks the vector that the connection is in
  by_cases hflag : conn.leased = true
  · have hmem := h.mem_leased hconn hflag
    have hnot : c ∉ p.avail := fun havail => h.disjoint havail hmem
    obtain ⟨i, hidx, hat⟩ := findIdx?_mem hmem
    obtain ⟨rest, hswap, hperm⟩ := swapBack_spec hat
    refine ⟨⟨p.avail, rest, Function.update p.conns c none⟩, ?_, ?_, hperm, rfl⟩
    · simp [removeConnection, hconn, hkept, hflag, hidx, hswap]
    · simp [List.erase_of_not_mem hnot]
  · have hmem := h.mem_avail hconn hflag
    obtain ⟨i, hidx, hat⟩ := findIdx?_mem hmem
    obtain ⟨rest, hswap, hperm⟩ := swapBack_spec hat
    refine ⟨⟨rest, p.leased, Function.update p.conns c none⟩, ?_, hperm, ?_, rfl⟩
    · simp [removeConnection, hconn, hkept, hflag, hidx, hswap]
    · simp [List.erase_of_not_mem (h.disjoint hmem)]

theorem apply_effect (h : p.Valid maxConns) {op : Operation π ρ} (hok : p.Allowed maxConns op) :
    ∃ p', p.apply op = some p' ∧ p.Effect p' op := by
  cases op with
  | create conn promise => exact ⟨_, rfl, rfl, rfl, rfl⟩
  | lease promise => exact lease_effect promise h hok
  | release c => exact release_effect h hok
  | remove c => exact remove_effect h hok

theorem Valid.moved {conn new : PooledConnection ρ} (h : p.Valid maxConns)
    (hconn : p.conns c = some conn)
    (hperm : (p'.avail ++ p'.leased).Perm (p.avail ++ p.leased))
    (hconns : p'.conns = Function.update p.conns c (some new))
    (hremoving : new.removing = conn.removing)
    (hflag : new.leased = true ↔ c ∈ p'.leased)
    (hothers : ∀ d, d ≠ c → (d ∈ p'.leased ↔ d ∈ p.leased)) : p'.Valid maxConns where
  live := by
    intro d
    rw [hperm.mem_iff, ← h.live d, hconns]
    by_cases hd : d = c
    · simp [hd, hconn]
    · simp [Function.update_of_ne hd]
  once := hperm.nodup_iff.mpr h.once
  flag := by
    intro d rec hrec
    rw [hconns] at hrec
    by_cases hd : d = c
    · subst hd
      rw [Function.update_self, Option.some.injEq] at hrec
      exact hrec ▸ hflag
    · rw [Function.update_of_ne hd] at hrec
      rw [hothers d hd]
      exact h.flag d rec hrec
  kept := by
    intro d rec hrec
    rw [hconns] at hrec
    by_cases hd : d = c
    · subst hd
      rw [Function.update_self, Option.some.injEq] at hrec
      rw [← hrec, hremoving]
      exact h.kept d conn hconn
    · rw [Function.update_of_ne hd] at hrec
      exact h.kept d rec hrec
  bound := by
    rw [activeConns_eq, hperm.length_eq, ← activeConns_eq]
    exact h.bound

theorem Valid.update {old new : PooledConnection ρ} (h : p.Valid maxConns)
    (hold : p.conns c = some old) (hleased : new.leased = old.leased)
    (hremoving : new.removing = old.removing) :
    ({ p with conns := Function.update p.conns c (some new) } : HttpConnectionPool π ρ).Valid
      maxConns := by
  refine h.moved hold (List.Perm.refl _) rfl hremoving ?_ (fun _ _ => Iff.rfl)
  rw [hleased]
  exact h.flag c old hold

theorem create_valid {promise : ρ} (h : p.Valid maxConns)
    (hok : p.Allowed maxConns (.create c promise)) : (p.createConnection c promise).Valid maxConns := by
  obtain ⟨-, hbound, hfresh⟩ := hok
  have hnot : c ∉ p.avail ++ p.leased := fun hmem => (h.live c).mpr hmem hfresh
  have hperm : ((p.createConnection c promise).avail ++ (p.createConnection c promise).leased).Perm
      (c :: (p.avail ++ p.leased)) := by
    simp only [createConnection, ← List.append_assoc]
    exact List.perm_append_singleton c _
  refine ⟨?_, ?_, ?_, ?_, ?_⟩
  · intro d
    rw [hperm.mem_iff, List.mem_cons, ← h.live d]
    by_cases hd : d = c
    · simp [createConnection, hd]
    · simp [createConnection, hd]
  · exact hperm.nodup_iff.mpr (List.nodup_cons.mpr ⟨hnot, h.once⟩)
  · intro d rec hrec
    by_cases hd : d = c
    · subst hd
      simp only [createConnection, Function.update_self, Option.some.injEq] at hrec
      simp [createConnection, ← hrec]
    · simp only [createConnection, Function.update_of_ne hd] at hrec
      simp [createConnection, hd, h.flag d rec hrec]
  · intro d rec hrec
    by_cases hd : d = c
    · subst hd
      simp only [createConnection, Function.update_self, Option.some.injEq] at hrec
      simp [← hrec]
    · simp only [createConnection, Function.update_of_ne hd] at hrec
      exact h.kept d rec hrec
  · rw [activeConns_eq, hperm.length_eq, List.length_cons, ← activeConns_eq]
    exact hbound

private theorem remove_valid (h : p.Valid maxConns) (heffect : p.Effect p' (.remove c)) :
    p'.Valid maxConns := by
  obtain ⟨havail, hleased, hconns⟩ := heffect
  obtain ⟨hnodup₁, hnodup₂, hdisjoint⟩ := List.nodup_append.mp h.once
  have hmem_avail : ∀ d, d ∈ p'.avail ↔ d ≠ c ∧ d ∈ p.avail := by
    intro d
    rw [havail.mem_iff, hnodup₁.mem_erase_iff]
  have hmem_leased : ∀ d, d ∈ p'.leased ↔ d ≠ c ∧ d ∈ p.leased := by
    intro d
    rw [hleased.mem_iff, hnodup₂.mem_erase_iff]
  have hkept : ∀ d conn, p'.conns d = some conn → d ≠ c ∧ p.conns d = some conn := by
    intro d conn hd
    rw [hconns] at hd
    by_cases hc : d = c
    · simp [hc] at hd
    · exact ⟨hc, by rwa [Function.update_of_ne hc] at hd⟩
  refine ⟨?_, ?_, ?_, ?_, ?_⟩
  · intro d
    rw [List.mem_append, hmem_avail, hmem_leased, ← and_or_left, ← List.mem_append, ← h.live d,
      hconns]
    by_cases hd : d = c
    · simp [hd]
    · simp [hd]
  · refine List.nodup_append.mpr ⟨havail.nodup_iff.mpr (hnodup₁.erase c),
      hleased.nodup_iff.mpr (hnodup₂.erase c), ?_⟩
    intro a ha b hb
    exact hdisjoint a ((hmem_avail a).mp ha).2 b ((hmem_leased b).mp hb).2
  · intro d conn hd
    obtain ⟨hne, hold⟩ := hkept d conn hd
    rw [h.flag d conn hold, hmem_leased]
    simp [hne]
  · intro d conn hd
    exact h.kept d conn (hkept d conn hd).2
  · have hlen₁ := havail.length_eq
    have hlen₂ := hleased.length_eq
    have hle₁ := List.length_erase_le (a := c) (l := p.avail)
    have hle₂ := List.length_erase_le (a := c) (l := p.leased)
    have := h.bound
    simp only [activeConns] at this ⊢
    omega

theorem effect_valid (h : p.Valid maxConns) {op : Operation π ρ} (hok : p.Allowed maxConns op)
    (happly : p.apply op = some p') (heffect : p.Effect p' op) : p'.Valid maxConns := by
  cases op with
  | create c promise =>
      obtain rfl : p.createConnection c promise = p' := Option.some.inj happly
      exact create_valid h hok
  | lease promise =>
      obtain ⟨c, conn, hconn, havail, hleased, hconns⟩ := heffect
      refine h.moved hconn ?_ hconns rfl (by simp [hleased]) ?_
      · rw [havail, hleased, List.append_assoc]
        exact (List.perm_append_comm).append_left p'.avail
      · intro d hd
        simp [hleased, hd]
  | release c =>
      obtain ⟨conn, hconn, hmem, havail, hleased, hconns⟩ := heffect
      obtain ⟨-, hnodup, -⟩ := List.nodup_append.mp h.once
      have hgone : c ∉ p'.leased := by
        rw [hleased.mem_iff]
        exact hnodup.not_mem_erase
      refine h.moved hconn ?_ hconns rfl (by simp [hgone]) ?_
      · rw [havail, List.append_assoc]
        refine List.Perm.append_left p.avail ?_
        exact (hleased.cons c).trans (List.perm_cons_erase hmem).symm
      · intro d hd
        rw [hleased.mem_iff, List.mem_erase_of_ne hd]
  | remove c => exact remove_valid h heffect

theorem Reachable.valid (h : Reachable maxConns p) : p.Valid maxConns := by
  induction h with
  | init => exact init_valid
  | step op _ hok happly ih =>
      obtain ⟨p'', happly', heffect⟩ := apply_effect ih hok
      obtain rfl := Option.some.inj (happly'.symm.trans happly)
      exact effect_valid ih hok happly heffect

/-- In every state of a pool the live connections are split over the two vectors
as their flags say, no more of them than the bound; and each operation the client
makes is defined, changes the connection it names and no other, and leaves the one
that starts to serve a request as the last of `leased`. -/
theorem pool_operations (h : Reachable maxConns p) :
    p.Valid maxConns ∧
    ∀ op, p.Allowed maxConns op → ∃ p', p.apply op = some p' ∧ p.Effect p' op ∧
      (∀ c promise, op = .create c promise → p'.leased.getLast? = some c) ∧
      (∀ promise, op = .lease promise → p'.leased.getLast? = p.avail.getLast?) := by
  refine ⟨h.valid, ?_⟩
  intro op hok
  obtain ⟨p', happly, heffect⟩ := apply_effect h.valid hok
  refine ⟨p', happly, heffect, ?_, ?_⟩
  · rintro c promise rfl
    obtain ⟨-, hleased, -⟩ := heffect
    simp [hleased]
  · rintro promise rfl
    obtain ⟨c, conn, -, havail, hleased, -⟩ := heffect
    simp [havail, hleased]

/-- Two connections to one route, the first of which has been put back. -/
def putBack : HttpConnectionPool Nat Unit :=
  ⟨[0], [1], Function.update ((init.createConnection 0 ()).createConnection 1 ()).conns 0
    (some ⟨true, false, false, 0, ()⟩)⟩

private theorem putBack_reachable : Reachable 2 putBack := by
  have hone : Reachable 2 ((init : HttpConnectionPool Nat Unit).createConnection 0 ()) :=
    .step (.create 0 ()) .init (by simp [Allowed, init, activeConns]) rfl
  have htwo : Reachable 2 ((init.createConnection 0 ()).createConnection (ρ := Unit) 1 ()) :=
    .step (.create 1 ()) hone (by simp [Allowed, init, activeConns, createConnection]) rfl
  exact .step (.release 0) htwo (by simp [Allowed, createConnection, init]) rfl

theorem pool_operations_putBack :
    putBack.avail ≠ [] ∧ ∃ p', putBack.apply (.lease ()) = some p' ∧ p'.leased.getLast? = some 0 := by
  have hok : putBack.Allowed 2 (.lease ()) := by simp [Allowed, putBack]
  obtain ⟨p', happly, -, -, hback⟩ := (pool_operations putBack_reachable).2 _ hok
  exact ⟨hok, p', happly, hback () rfl⟩

end HttpConnectionPool

end Angel.Http
