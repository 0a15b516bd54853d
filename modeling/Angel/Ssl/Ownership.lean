import Angel.Ssl.Handshake
import Mathlib.Data.List.Nodup

/-!
Who owns the handshakes and the channels of an `ssl_server`. A handshake is owned by `shmap` while
it shakes hands, and by its connection afterwards; a channel by its handshake, then by its
connection, and by the loop once it is removed. Nothing is used when it is deleted, and nothing is
left behind, unless the connection handler drops the connection it is given: that deletes the
handshake which called it.
-/

namespace Angel.SslServer

open Lib

/-- The watches of a channel; once it is removed it has none. -/
structure Channel.Fits (chl : Channel) (id : Nat) : Prop where
  owner : ∀ sh, chl.phase = .established sh → sh = id
  reads : chl.phase ≠ .removed → (chl.reading = true ↔ chl.lastWant ≠ some .write)
  gone : chl.phase = .removed → chl.reading = false ∧ chl.writing = false

/-- A handshake has its channel as long as it shakes hands, and lives on with the connection it
made, without it. -/
structure Held (id : Nat) (chl : Option Channel) (h : Option Handshake) (conn : Option Nat) :
    Prop where
  shaking : (∃ c ∈ chl, c.phase = .shaking) ↔ h = some ⟨some id, true⟩
  holding : (∃ sh, conn = some sh) ↔ h = some ⟨none, true⟩
  forms : ∀ x, h = some x → x = ⟨some id, true⟩ ∨ x = ⟨none, true⟩
  own : ∀ sh, conn = some sh → sh = id
  established : (∃ c ∈ chl, ∃ sh, c.phase = .established sh) → ∃ sh, conn = some sh

namespace Server

structure Valid (s : Server) : Prop where
  made : ∀ id, ∀ chl ∈ s.channels id, id < s.nextChannel
  connected : ∀ id sh, s.connections id = some sh → id < s.nextChannel
  fits : ∀ id, ∀ chl ∈ s.channels id, chl.Fits id
  apart : ∀ id, ∀ chl ∈ s.channels id, ∀ other, ∀ chl' ∈ s.channels other,
    chl.fd = chl'.fd → id = other
  listed : ∀ fd id, s.shmap fd = some id ↔ ∃ chl ∈ s.channels id, chl.fd = fd ∧ chl.phase = .shaking
  queued : ∀ id, id ∈ s.tasks ↔ ∃ chl ∈ s.channels id, chl.phase = .removed
  once : s.tasks.Nodup
  held : ∀ id, Held id (s.channels id) (s.handshakes id) (s.connections id)

variable {s s' : Server} {id fd : Nat} {chl chl' : Channel}

theorem init_valid : Valid init where
  made := nofun
  connected := nofun
  fits := nofun
  apart := nofun
  listed := by simp [init]
  queued := by simp [init]
  once := List.nodup_nil
  held _ := ⟨by simp [init], by simp [init], nofun, nofun, by simp [init]⟩

@[simp] private theorem mem_set {other : Nat} {c : Channel} :
    c ∈ (s.set id chl).channels other ↔ other = id ∧ c = chl ∨ other ≠ id ∧ c ∈ s.channels other := by
  obtain rfl | hne := eq_or_ne other id
  · simp [set, eq_comm]
  · simp [set, hne]

/-- A channel that changes and keeps its descriptor, with its handshake and its connection. -/
private theorem Valid.replace (h : Valid s) (hchl : chl ∈ s.channels id) (chl' : Channel)
    (hfd : chl'.fd = chl.fd) (hfits : chl'.Fits id) {shmap : Nat → Option Nat} {tasks : List Nat}
    {handshake : Option Handshake} {connection : Option Nat}
    (hlisted : ∀ fd other, shmap fd = some other ↔
      other = id ∧ chl.fd = fd ∧ chl'.phase = .shaking ∨ other ≠ id ∧ s.shmap fd = some other)
    (hqueued : ∀ other, other ∈ tasks ↔
      other = id ∧ chl'.phase = .removed ∨ other ≠ id ∧ other ∈ s.tasks)
    (honce : tasks.Nodup) (hheld : Held id (some chl') handshake connection) :
    Valid { s.set id chl' with
      handshakes := Function.update s.handshakes id handshake
      shmap := shmap
      connections := Function.update s.connections id connection
      tasks := tasks } where
  made other c hc := by
    obtain ⟨rfl, -⟩ | ⟨-, hold⟩ := mem_set.mp hc
    · exact h.made other chl hchl
    · exact h.made other c hold
  connected other sh hsh := by
    obtain rfl | hne := eq_or_ne other id
    · exact h.made other chl hchl
    · exact h.connected other sh (by simpa [hne] using hsh)
  fits other c hc := by
    obtain ⟨rfl, rfl⟩ | ⟨-, hold⟩ := mem_set.mp hc
    · exact hfits
    · exact h.fits other c hold
  apart other c hc other' c' hc' hsame := by
    obtain ⟨rfl, rfl⟩ | ⟨-, hold⟩ := mem_set.mp hc
    · obtain ⟨rfl, rfl⟩ | ⟨-, hold'⟩ := mem_set.mp hc'
      · rfl
      · exact h.apart other chl hchl other' c' hold' (hfd ▸ hsame)
    · obtain ⟨rfl, rfl⟩ | ⟨-, hold'⟩ := mem_set.mp hc'
      · exact h.apart other c hold other' chl hchl (hfd ▸ hsame)
      · exact h.apart other c hold other' c' hold' hsame
  listed fd other := by
    rw [hlisted, h.listed]
    obtain rfl | hne := eq_or_ne other id
    · simp [set, hfd]
    · simp [set, hne]
  queued other := by
    rw [hqueued, h.queued]
    obtain rfl | hne := eq_or_ne other id
    · simp [set]
    · simp [set, hne]
  once := honce
  held other := by
    obtain rfl | hne := eq_or_ne other id
    · simpa [set] using hheld
    · simpa [set, hne] using h.held other

private theorem Valid.watch (h : Valid s) (hchl : chl ∈ s.channels id) (chl' : Channel)
    (hfd : chl'.fd = chl.fd) (hphase : chl'.phase = chl.phase) (hfits : chl'.Fits id) :
    Valid (s.set id chl') := by
  have hlisted : ∀ fd other, s.shmap fd = some other ↔
      other = id ∧ chl.fd = fd ∧ chl'.phase = .shaking ∨ other ≠ id ∧ s.shmap fd = some other := by
    intro fd other
    obtain rfl | hne := eq_or_ne other id
    · rw [h.listed]
      simp [Option.mem_def.mp hchl, hphase]
    · simp [hne]
  have hqueued : ∀ other, other ∈ s.tasks ↔
      other = id ∧ chl'.phase = .removed ∨ other ≠ id ∧ other ∈ s.tasks := by
    intro other
    obtain rfl | hne := eq_or_ne other id
    · rw [h.queued]
      simp [Option.mem_def.mp hchl, hphase]
    · simp [hne]
  have hheld : Held id (some chl') (s.handshakes id) (s.connections id) := by
    obtain ⟨hshaking, hholding, hforms, hown, hestablished⟩ := h.held id
    rw [Option.mem_def.mp hchl] at hshaking hestablished
    refine ⟨?_, hholding, hforms, hown, ?_⟩
    · simpa [hphase] using hshaking
    · simpa [hphase] using hestablished
  have hkept := h.replace hchl chl' hfd hfits hlisted hqueued h.once hheld
  simp only [Function.update_eq_self] at hkept
  exact hkept

private theorem Valid.unlisted (h : Valid s) (hchl : chl ∈ s.channels id)
    (hphase : chl'.phase ≠ .shaking) (fd other : Nat) :
    Function.update s.shmap chl.fd none fd = some other ↔
      other = id ∧ chl.fd = fd ∧ chl'.phase = .shaking ∨ other ≠ id ∧ s.shmap fd = some other := by
  obtain rfl | hne := eq_or_ne fd chl.fd
  · have hnone : other ≠ id → s.shmap chl.fd ≠ some other := by
      intro hother hlisted
      obtain ⟨c, hc, hsame, -⟩ := (h.listed chl.fd other).mp hlisted
      exact hother (h.apart other c hc id chl hchl hsame)
    simpa [hphase] using hnone
  · have hnot : other = id → s.shmap fd ≠ some other := by
      rintro rfl hlisted
      obtain ⟨c, hc, hsame, -⟩ := (h.listed fd other).mp hlisted
      obtain rfl : c = chl := Option.mem_unique hc hchl
      exact hne hsame.symm
    simp only [Function.update_of_ne hne, hphase, and_false, false_or]
    exact ⟨fun hlisted => ⟨fun hid => hnot hid hlisted, hlisted⟩, And.right⟩

private theorem Valid.queue (h : Valid s) (hchl : chl ∈ s.channels id)
    (hphase : chl.phase ≠ .removed) :
    (∀ other, other ∈ s.tasks ++ [id] ↔
      other = id ∧ (.removed : Phase) = .removed ∨ other ≠ id ∧ other ∈ s.tasks) ∧
    (s.tasks ++ [id]).Nodup := by
  have hfresh : id ∉ s.tasks := by
    intro hmem
    obtain ⟨c, hc, hremoved⟩ := (h.queued id).mp hmem
    obtain rfl : c = chl := Option.mem_unique hc hchl
    exact hphase hremoved
  refine ⟨?_, ?_⟩
  · intro other
    obtain rfl | hne := eq_or_ne other id
    · simp
    · simp [hne]
  · simpa [List.nodup_append] using ⟨h.once, fun other hmem heq => hfresh (heq ▸ hmem)⟩

private theorem Valid.unqueued (h : Valid s) (hchl : chl ∈ s.channels id)
    (hold : chl.phase ≠ .removed) (hnew : chl'.phase ≠ .removed) (other : Nat) :
    other ∈ s.tasks ↔
      other = id ∧ chl'.phase = .removed ∨ other ≠ id ∧ other ∈ s.tasks := by
  obtain rfl | hne := eq_or_ne other id
  · have hnot : other ∉ s.tasks := by
      intro hmem
      obtain ⟨c, hc, hremoved⟩ := (h.queued other).mp hmem
      obtain rfl : c = chl := Option.mem_unique hc hchl
      exact hold hremoved
    simp [hnot, hnew]
  · simp [hne]

/-- What a handshake that goes on has: a channel and an `SSL` object, and no connection. -/
private theorem Valid.shakes (h : Valid s) (hchl : chl ∈ s.channels id)
    (hphase : chl.phase = .shaking) :
    s.handshakes id = some ⟨some id, true⟩ ∧ s.connections id = none ∧
      s.shmap chl.fd = some id := by
  obtain ⟨hshaking, hholding, -⟩ := h.held id
  have hhandshake := hshaking.mp ⟨chl, hchl, hphase⟩
  have hnone : s.connections id = none := by
    rw [Option.eq_none_iff_forall_not_mem]
    intro sh hsh
    have hother := hholding.mp ⟨sh, hsh⟩
    rw [hhandshake] at hother
    simp at hother
  exact ⟨hhandshake, hnone, (h.listed chl.fd id).mpr ⟨chl, hchl, rfl, hphase⟩⟩

private theorem done_valid (h : Valid s) (hchl : chl ∈ s.channels id)
    (hphase : chl.phase = .shaking) {handled : Handled} (hkept : handled ≠ .closed false) :
    ∃ s', s.handshake id (.done handled) = some s' ∧ Valid s' := by
  have hsome : s.channels id = some chl := hchl
  obtain ⟨hhandshake, -, hlisted⟩ := h.shakes hchl hphase
  have hfits := h.fits id chl hchl
  have hreads := hfits.reads (by simp [hphase])
  cases handled with
  | stays =>
      have hheld : Held id (some { chl with phase := .established id }) (some ⟨none, true⟩)
          (some id) := by
        constructor <;> simp
      have hnew : ({ chl with phase := .established id } : Channel).Fits id :=
        ⟨by simp, fun _ => hreads, nofun⟩
      have hvalid := h.replace hchl { chl with phase := .established id } rfl hnew
        (h.unlisted hchl (by simp)) (h.unqueued hchl (by simp [hphase]) (by simp)) h.once hheld
      refine ⟨_, ?_, hvalid⟩
      simp [handshake, hhandshake, hsome, establish, createConnection, hlisted, setHandshake, set]
  | closed kept =>
      obtain rfl : kept = true := by simpa using hkept
      have hheld : Held id (some { chl with phase := .removed, reading := false, writing := false })
          (some ⟨none, true⟩) (some id) := by
        constructor <;> simp
      obtain ⟨hqueued, honce⟩ := h.queue hchl (by simp [hphase])
      have hvalid := h.replace hchl { chl with phase := .removed, reading := false, writing := false }
        rfl ⟨by simp, by simp, by simp⟩ (h.unlisted hchl (by simp)) hqueued honce hheld
      refine ⟨_, ?_, hvalid⟩
      simp [handshake, hhandshake, hsome, establish, createConnection, hlisted, setHandshake, set,
        remove]

private theorem failed_valid (h : Valid s) (hchl : chl ∈ s.channels id)
    (hphase : chl.phase = .shaking) : ∃ s', s.handshake id .failed = some s' ∧ Valid s' := by
  have hsome : s.channels id = some chl := hchl
  obtain ⟨hhandshake, hconnection, hlisted⟩ := h.shakes hchl hphase
  have hheld : Held id (some { chl with phase := .removed, reading := false, writing := false })
      none none := by
    constructor <;> simp
  obtain ⟨hqueued, honce⟩ := h.queue hchl (by simp [hphase])
  have hvalid := h.replace hchl { chl with phase := .removed, reading := false, writing := false }
    rfl ⟨by simp, by simp, by simp⟩ (h.unlisted hchl (by simp)) hqueued honce hheld
  have hsame : Function.update s.connections id none = s.connections := by
    rw [← hconnection, Function.update_eq_self]
  rw [hsame] at hvalid
  refine ⟨_, ?_, hvalid⟩
  simp [handshake, hhandshake, hsome, shutdown, remove, fail, hlisted, deleteHandshake,
    setHandshake, set]

private theorem wants_valid (h : Valid s) (hchl : chl ∈ s.channels id)
    (hphase : chl.phase = .shaking) (want : Want) :
    ∃ s', s.handshake id (.wants want) = some s' ∧ Valid s' := by
  have hsome : s.channels id = some chl := hchl
  obtain ⟨hhandshake, -, -⟩ := h.shakes hchl hphase
  cases want with
  | read =>
      have hvalid := h.watch hchl
        { chl with reading := true, writing := false, lastWant := some .read } rfl rfl
        ⟨by simp [hphase], by simp, by simp [hphase]⟩
      exact ⟨_, by simp [handshake, hhandshake, hsome], hvalid⟩
  | write =>
      have hvalid := h.watch hchl
        { chl with writing := true, reading := false, lastWant := some .write } rfl rfl
        ⟨by simp [hphase], by simp, by simp [hphase]⟩
      exact ⟨_, by simp [handshake, hhandshake, hsome], hvalid⟩

theorem handshake_valid (h : Valid s) (hchl : chl ∈ s.channels id) (hphase : chl.phase = .shaking)
    {r : HandshakeResult} (hkept : r ≠ .done (.closed false)) :
    ∃ s', s.handshake id r = some s' ∧ Valid s' := by
  cases r with
  | done handled => exact done_valid h hchl hphase (by simpa using hkept)
  | wants want => exact wants_valid h hchl hphase want
  | failed => exact failed_valid h hchl hphase

/-- The state in which the first handshake of a descriptor starts. -/
private def started (s : Server) (fd : Nat) : Server :=
  { (s.set s.nextChannel ⟨fd, .shaking, true, false, none⟩).setHandshake s.nextChannel
      (some ⟨some s.nextChannel, true⟩) with
    shmap := Function.update s.shmap fd (some s.nextChannel)
    nextChannel := s.nextChannel + 1 }

private theorem mem_started {other : Nat} {c : Channel} :
    c ∈ (s.started fd).channels other ↔
      other = s.nextChannel ∧ c = ⟨fd, .shaking, true, false, none⟩ ∨
        other ≠ s.nextChannel ∧ c ∈ s.channels other :=
  mem_set

private theorem started_valid (h : Valid s) (hfd : ∀ id, ∀ chl ∈ s.channels id, chl.fd ≠ fd) :
    Valid (s.started fd) where
  made other c hc := by
    obtain ⟨rfl, -⟩ | ⟨-, hold⟩ := mem_started.mp hc
    · exact Nat.lt_succ_self _
    · exact Nat.lt_succ_of_lt (h.made other c hold)
  connected other sh hsh := Nat.lt_succ_of_lt (h.connected other sh hsh)
  fits other c hc := by
    obtain ⟨-, rfl⟩ | ⟨-, hold⟩ := mem_started.mp hc
    · exact ⟨nofun, by simp, nofun⟩
    · exact h.fits other c hold
  apart other c hc other' c' hc' hsame := by
    obtain ⟨rfl, rfl⟩ | ⟨-, hold⟩ := mem_started.mp hc
    · obtain ⟨rfl, rfl⟩ | ⟨-, hold'⟩ := mem_started.mp hc'
      · rfl
      · exact absurd hsame.symm (hfd other' c' hold')
    · obtain ⟨rfl, rfl⟩ | ⟨-, hold'⟩ := mem_started.mp hc'
      · exact absurd hsame (hfd other c hold)
      · exact h.apart other c hold other' c' hold' hsame
  listed fd' other := by
    obtain rfl | hne := eq_or_ne fd' fd
    · simp only [started, Function.update_self, Option.some.injEq]
      constructor
      · rintro rfl
        exact ⟨_, mem_started.mpr (.inl ⟨rfl, rfl⟩), rfl, rfl⟩
      · rintro ⟨c, hc, hsame, -⟩
        obtain ⟨rfl, -⟩ | ⟨-, hold⟩ := mem_started.mp hc
        · rfl
        · exact absurd hsame (hfd other c hold)
    · have hsame : (s.started fd).shmap fd' = s.shmap fd' := by simp [started, hne]
      rw [hsame, h.listed]
      constructor
      · rintro ⟨c, hc, hsame, hphase⟩
        have hother : other ≠ s.nextChannel := Nat.ne_of_lt (h.made other c hc)
        exact ⟨c, mem_started.mpr (.inr ⟨hother, hc⟩), hsame, hphase⟩
      · rintro ⟨c, hc, hsame, hphase⟩
        obtain ⟨-, rfl⟩ | ⟨-, hold⟩ := mem_started.mp hc
        · exact absurd hsame.symm hne
        · exact ⟨c, hold, hsame, hphase⟩
  queued other := by
    change other ∈ s.tasks ↔ _
    rw [h.queued]
    constructor
    · rintro ⟨c, hc, hremoved⟩
      have hother : other ≠ s.nextChannel := Nat.ne_of_lt (h.made other c hc)
      exact ⟨c, mem_started.mpr (.inr ⟨hother, hc⟩), hremoved⟩
    · rintro ⟨c, hc, hremoved⟩
      obtain ⟨-, rfl⟩ | ⟨-, hold⟩ := mem_started.mp hc
      · exact nomatch hremoved
      · exact ⟨c, hold, hremoved⟩
  once := h.once
  held other := by
    obtain rfl | hne := eq_or_ne other s.nextChannel
    · have hnone : s.connections s.nextChannel = none := by
        rw [Option.eq_none_iff_forall_not_mem]
        exact fun sh hsh => Nat.lt_irrefl _ (h.connected _ sh hsh)
      simp only [started, set, setHandshake, Function.update_self, hnone]
      constructor <;> simp
    · simpa [started, set, setHandshake, hne] using h.held other

private theorem accept_eq (h : Valid s) (hfd : ∀ id, ∀ chl ∈ s.channels id, chl.fd ≠ fd)
    (r : HandshakeResult) : s.accept fd r = (s.started fd).handshake s.nextChannel r := by
  have hfree : s.shmap fd = none := by
    rw [Option.eq_none_iff_forall_not_mem]
    intro other hlisted
    obtain ⟨c, hc, hsame, -⟩ := (h.listed fd other).mp hlisted
    exact hfd other c hc hsame
  simp [accept, hfree, started, set, setHandshake]

/-- The last pointer to a closed connection goes, and with it the handshake. -/
private theorem drop_valid (h : Valid s) (hconn : ∃ sh, s.connections id = some sh)
    (hclosed : ¬ s.Established id) : ∃ s', s.dropConnection id = some s' ∧ Valid s' := by
  obtain ⟨hshaking, hholding, hforms, hown, -⟩ := h.held id
  have hhandshake := hholding.mp hconn
  obtain ⟨sh, hsh⟩ := hconn
  obtain rfl := hown sh hsh
  have hnot : ¬ s.Shakes sh := by
    intro hshakes
    have hother := hshaking.mp hshakes
    rw [hhandshake] at hother
    simp at hother
  refine ⟨{ s with
    handshakes := Function.update s.handshakes sh none
    connections := Function.update s.connections sh none }, ?_, ?_⟩
  · simp [dropConnection, hsh, deleteHandshake, shutdown, hhandshake, setHandshake]
  · exact {
      made := h.made
      connected := by
        intro other conn hother
        obtain rfl | hne := eq_or_ne other sh
        · simp at hother
        · exact h.connected other conn (by simpa [hne] using hother)
      fits := h.fits
      apart := h.apart
      listed := h.listed
      queued := h.queued
      once := h.once
      held := by
        intro other
        obtain rfl | hne := eq_or_ne other sh
        · simp only [Function.update_self]
          exact ⟨⟨fun hshakes => absurd hshakes hnot, nofun⟩, by simp, nofun, nofun,
            fun hestablished => absurd hestablished hclosed⟩
        · simpa [hne] using h.held other }

private theorem close_valid (h : Valid s) (hestablished : s.Established id) :
    ∃ s', s.remove id = some s' ∧ Valid s' := by
  obtain ⟨chl, hchl, sh, hphase⟩ := hestablished
  have hsome : s.channels id = some chl := hchl
  obtain ⟨hqueued, honce⟩ := h.queue hchl (by simp [hphase])
  obtain ⟨hshaking, hholding, hforms, hown, hconnected⟩ := h.held id
  rw [hsome] at hshaking hconnected
  have hlisted : ∀ fd other, s.shmap fd = some other ↔
      other = id ∧ chl.fd = fd ∧ (.removed : Phase) = .shaking ∨
        other ≠ id ∧ s.shmap fd = some other := by
    intro fd other
    obtain rfl | hne := eq_or_ne other id
    · simp [h.listed, hsome, hphase]
    · simp [hne]
  have hheld : Held id (some { chl with phase := .removed, reading := false, writing := false })
      (s.handshakes id) (s.connections id) := by
    refine ⟨?_, hholding, hforms, hown, by simp⟩
    simpa [hphase] using hshaking
  have hvalid := h.replace hchl { chl with phase := .removed, reading := false, writing := false }
    rfl ⟨by simp, by simp, by simp⟩ hlisted hqueued honce hheld
  simp only [Function.update_eq_self] at hvalid
  exact ⟨_, by simp [remove, hsome, set], hvalid⟩

private theorem run_valid (h : Valid s) {tasks : List Nat} (htasks : s.tasks = id :: tasks) :
    ∃ s', s.step .run = some s' ∧ Valid s' := by
  obtain ⟨chl, hchl, hphase⟩ := (h.queued id).mp (by simp [htasks])
  have hsome : s.channels id = some chl := hchl
  have hmem : ∀ {other c}, c ∈ Function.update s.channels id none other ↔
      other ≠ id ∧ c ∈ s.channels other := by
    intro other c
    obtain rfl | hne := eq_or_ne other id
    · simp
    · simp [hne]
  have honce := h.once
  rw [htasks, List.nodup_cons] at honce
  refine ⟨{ s with channels := Function.update s.channels id none, tasks := tasks },
    by simp [step, htasks, hsome], ?_⟩
  exact {
    made := fun other c hc => h.made other c (hmem.mp hc).2
    connected := h.connected
    fits := fun other c hc => h.fits other c (hmem.mp hc).2
    apart := fun other c hc other' c' hc' => h.apart other c (hmem.mp hc).2 other' c' (hmem.mp hc').2
    listed := by
      intro fd other
      rw [h.listed]
      constructor
      · rintro ⟨c, hc, hsame, hshakes⟩
        have hother : other ≠ id := by
          rintro rfl
          obtain rfl : c = chl := Option.mem_unique hc hchl
          exact nomatch hshakes.symm.trans hphase
        exact ⟨c, hmem.mpr ⟨hother, hc⟩, hsame, hshakes⟩
      · rintro ⟨c, hc, hsame, hshakes⟩
        exact ⟨c, (hmem.mp hc).2, hsame, hshakes⟩
    queued := by
      intro other
      have hqueued := h.queued other
      rw [htasks, List.mem_cons] at hqueued
      constructor
      · intro hin
        obtain ⟨c, hc, hremoved⟩ := hqueued.mp (.inr hin)
        have hother : other ≠ id := by
          rintro rfl
          exact honce.1 hin
        exact ⟨c, hmem.mpr ⟨hother, hc⟩, hremoved⟩
      · rintro ⟨c, hc, hremoved⟩
        obtain ⟨hother, hold⟩ := hmem.mp hc
        exact (hqueued.mpr ⟨c, hold, hremoved⟩).resolve_left hother
    once := honce.2
    held := by
      intro other
      obtain rfl | hne := eq_or_ne other id
      · obtain ⟨hshaking, hholding, hforms, hown, -⟩ := h.held other
        rw [hsome] at hshaking
        simp only [Function.update_self]
        refine ⟨?_, hholding, hforms, hown, by simp⟩
        simpa [hphase] using hshaking
      · simpa [hne] using h.held other }

theorem step_valid (s : Server) (e : Event) (h : Valid s) (hok : s.Possible e) (hkept : ¬ e.Drops) :
    ∃ s', s.step e = some s' ∧ Valid s' := by
  cases e with
  | accept fd r =>
      have hvalid := handshake_valid (started_valid h hok) (mem_started.mpr (.inl ⟨rfl, rfl⟩)) rfl hkept
      rwa [← accept_eq h hok] at hvalid
  | ready id r =>
      obtain ⟨chl, hchl, hphase⟩ := hok
      exact handshake_valid h hchl hphase hkept
  | watchWrite id enabled =>
      obtain ⟨chl, hchl, sh, hphase⟩ := hok
      have hsome : s.channels id = some chl := hchl
      have hfits := h.fits id chl hchl
      have hvalid := h.watch hchl { chl with writing := enabled } rfl rfl
        ⟨hfits.owner, hfits.reads, by simp [hphase]⟩
      exact ⟨_, by simp [step, hsome], hvalid⟩
  | close id => exact close_valid h hok
  | drop id => exact drop_valid h hok.1 hok.2
  | run =>
      cases htasks : s.tasks with
      | nil => exact ⟨s, by simp [step, htasks], h⟩
      | cons id tasks => exact run_valid h htasks

/-- What the handshakes and the channels of a server belong to. -/
structure Owned (s : Server) : Prop where
  /-- `shmap` has the handshakes that are not over, each by its descriptor. -/
  listed : ∀ fd id, s.shmap fd = some id ↔ ∃ chl ∈ s.channels id, chl.fd = fd ∧ chl.phase = .shaking
  /-- A connection has the handshake of its own channel. -/
  own : ∀ id, ∀ chl ∈ s.channels id, ∀ sh, chl.phase = .established sh → sh = id
  /-- There are no handshakes but those in `shmap` and those of connections. -/
  alive : ∀ sh, (∃ h, s.handshakes sh = some h) ↔
    (∃ fd, s.shmap fd = some sh) ∨ ∃ id, s.connections id = some sh
  /-- The handshake of a connection has its `SSL` object, and no channel. -/
  secured : ∀ id sh, s.connections id = some sh → s.handshakes sh = some ⟨none, true⟩
  /-- A channel that is removed is to be deleted once. -/
  once : ∀ id, (∃ chl ∈ s.channels id, chl.phase = .removed) → s.tasks.count id = 1

theorem Valid.owned (h : Valid s) : Owned s where
  listed := h.listed
  own id chl hchl := (h.fits id chl hchl).owner
  alive sh := by
    obtain ⟨hshaking, hholding, hforms, hown, -⟩ := h.held sh
    constructor
    · rintro ⟨x, hx⟩
      obtain rfl | rfl := hforms x hx
      · obtain ⟨chl, hchl, hphase⟩ := hshaking.mpr hx
        exact .inl ⟨chl.fd, (h.listed chl.fd sh).mpr ⟨chl, hchl, rfl, hphase⟩⟩
      · obtain ⟨other, hother⟩ := hholding.mpr hx
        obtain rfl := hown other hother
        exact .inr ⟨other, hother⟩
    · rintro (⟨fd, hlisted⟩ | ⟨id, hid⟩)
      · obtain ⟨chl, hchl, -, hphase⟩ := (h.listed fd sh).mp hlisted
        exact ⟨_, hshaking.mp ⟨chl, hchl, hphase⟩⟩
      · obtain rfl := (h.held id).own sh hid
        exact ⟨_, hholding.mp ⟨_, hid⟩⟩
  secured id sh hid := by
    obtain rfl := (h.held id).own sh hid
    exact (h.held sh).holding.mp ⟨_, hid⟩
  once id hremoved := List.count_eq_one_of_mem h.once ((h.queued id).mpr hremoved)

/-- In every run, a connection is read from unless the last call of `SSL_do_handshake` that was not
the last one wanted to write: such a connection never hears of its data. -/
theorem reads_unless_wrote {events : List Event} (hrun : AdmissibleM step Allowed init events) :
    ∃ s, events.foldlM step init = some s ∧
      ∀ id, ∀ chl ∈ s.channels id, chl.phase ≠ .removed →
        (chl.reading = true ↔ chl.lastWant ≠ some .write) := by
  have hstep : ∀ s e, Valid s → s.Allowed e → ∃ s', s.step e = some s' ∧ Valid s' :=
    fun s e h hok => step_valid s e h hok.1 hok.2
  obtain ⟨s, hs, hvalid⟩ := foldlM_invariant hstep init_valid hrun
  exact ⟨s, hs, fun id chl hchl => (hvalid.fits id chl hchl).reads⟩

/-- A handshake that ends behind a wish to write, and a connection with nothing left to send. -/
def silent : List Event := [.accept 5 (.wants .write), .ready 0 (.done .stays), .watchWrite 0 false]

private theorem silent_allowed : AdmissibleM step Allowed init silent :=
  .cons ⟨by simp [Possible, init], by decide⟩ rfl
    (.cons ⟨⟨_, rfl, rfl⟩, by decide⟩ rfl (.cons ⟨⟨_, rfl, _, rfl⟩, by decide⟩ rfl trivial))

theorem reads_unless_wrote_silent : ∃ s, silent.foldlM step init = some s ∧
    ∃ chl ∈ s.channels 0, chl.phase = .established 0 ∧ chl.reading = false ∧ chl.writing = false := by
  obtain ⟨s, hs, hreads⟩ := reads_unless_wrote silent_allowed
  obtain rfl : s = _ := (Option.some.inj hs).symm
  have hreads := hreads 0 _ rfl nofun
  exact ⟨_, hs, _, rfl, rfl, Bool.eq_false_iff.mpr fun hread => hreads.mp hread rfl, rfl⟩

end Server

end Angel.SslServer
