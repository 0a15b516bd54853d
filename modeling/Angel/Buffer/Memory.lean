import Angel.Basic
import Angel.Lib.Run
import Angel.Lib.Store
import Mathlib.Logic.Function.Basic

/-!
`buffer.cc` down to its vector and two indices. Every store is checked against the
bounds of the vector, and so is that `begin()` has an element to point to; an
operation that fails one of these checks gives `none`. Over any sequence of
operations, on any number of buffers, none fails, and the bytes from `peek()` to
`end()` are a first-in first-out queue.
-/

namespace Angel.Buffer

open Lib Lib.Store

/-- The members of `buffer`. -/
structure Memory where
  buf : Bytes
  readIndex : Nat
  writeIndex : Nat
  deriving DecidableEq, Repr

namespace Memory

def create (size : Nat) : Memory where
  buf := List.replicate size 0
  readIndex := 0
  writeIndex := 0

def prependable (m : Memory) : Nat := m.readIndex

def readable (m : Memory) : Nat := m.writeIndex - m.readIndex

def writeable (m : Memory) : Nat := m.buf.length - m.writeIndex

/-- The bytes from `peek()` to `end()`. -/
def content (m : Memory) : Bytes := (m.buf.take m.writeIndex).drop m.readIndex

/-- `&*buf.begin()`, the address that all offsets are taken from. -/
def begin (m : Memory) : Option Nat := if m.buf.isEmpty then none else some 0

/-- `buf.resize`: shorter, or with zeros at the end. -/
def resize (size : Nat) (m : Memory) : Memory :=
  { m with buf := m.buf.take size ++ List.replicate (size - m.buf.length) 0 }

def makeSpace (len : Nat) (m : Memory) : Option Memory :=
  if m.writeable < len then
    if len ≤ m.writeable + m.prependable then do
      let base ← m.begin
      let readBytes := m.readable
      let buf ← copyWithin base (base + m.readIndex) readBytes m.buf
      some { buf := buf, readIndex := 0, writeIndex := readBytes }
    else some (m.resize (m.writeIndex + len))
  else some m

def append (data : Bytes) (m : Memory) : Option Memory := do
  let m ← m.makeSpace data.length
  let base ← m.begin
  let buf ← storeAll (base + m.writeIndex) data m.buf
  some { m with buf := buf, writeIndex := m.writeIndex + data.length }

def retrieve (len : Nat) (m : Memory) : Memory :=
  if len < m.readable then { m with readIndex := m.readIndex + len }
  else { m with readIndex := 0, writeIndex := 0 }

def retrieveAll (m : Memory) : Memory := m.retrieve m.readable

def cStr (m : Memory) : Option Memory := do
  let m ← m.makeSpace 1
  let _ ← m.begin
  let buf ← store m.writeIndex 0 m.buf
  some { m with buf := buf }

def extrabufSize : Nat := 65536

/-- `read_fd`, with the bytes that `readv` has for it: they go to the free end of
the vector, and from there on to `extrabuf`, which has to hold them. -/
def readFd (received : Bytes) (m : Memory) : Option Memory := do
  let base ← m.begin
  let writen := m.writeable
  if writen + extrabufSize < received.length then none
  let buf ← storeAll (base + m.writeIndex) (received.take writen) m.buf
  let m := { m with buf := buf }
  if received.length ≤ writen then
    some { m with writeIndex := m.writeIndex + received.length }
  else
    ({ m with writeIndex := m.writeIndex + writen } : Memory).append (received.drop writen)

/-- The operations on a family of buffers. -/
inductive Operation (ι : Type) where
  | append (i : ι) (data : Bytes)
  | retrieve (i : ι) (len : Nat)
  | retrieveAll (i : ι)
  | cStr (i : ι)
  | swap (i j : ι)
  | readFd (i : ι) (received : Bytes)

variable {ι : Type} [DecidableEq ι]

/-- Two buffers with their members exchanged. -/
def swap {β : Type} (i j : ι) (buffers : ι → β) : ι → β :=
  Function.update (Function.update buffers i (buffers j)) j (buffers i)

def onBuffer (i : ι) (f : Memory → Option Memory) (buffers : ι → Memory) : Option (ι → Memory) :=
  (f (buffers i)).map (Function.update buffers i)

def execute (buffers : ι → Memory) : Operation ι → Option (ι → Memory)
  | .append i data => onBuffer i (append data) buffers
  | .retrieve i len => onBuffer i (fun m => some (m.retrieve len)) buffers
  | .retrieveAll i => onBuffer i (fun m => some m.retrieveAll) buffers
  | .cStr i => onBuffer i cStr buffers
  | .swap i j => some (swap i j buffers)
  | .readFd i received => onBuffer i (readFd received) buffers

def step (buffers : Option (ι → Memory)) (op : Operation ι) : Option (ι → Memory) :=
  buffers.bind fun buffers => execute buffers op

/-- `readv` fills at most the space it is offered. -/
def Offered (buffers : Option (ι → Memory)) : Operation ι → Prop
  | .readFd i received => ∀ memory, buffers = some memory →
      received.length ≤ (memory i).writeable + extrabufSize
  | _ => True

/-- The queues that the buffers are for. -/
def queueStep (queues : ι → Bytes) : Operation ι → ι → Bytes
  | .append i data => Function.update queues i (queues i ++ data)
  | .retrieve i len => Function.update queues i ((queues i).drop len)
  | .retrieveAll i => Function.update queues i []
  | .cStr _ => queues
  | .swap i j => swap i j queues
  | .readFd i received => Function.update queues i (queues i ++ received)

/-- The vector holds the bytes of the queue between the two indices. -/
structure Holds (m : Memory) (q : Bytes) : Prop where
  nonempty : m.buf ≠ []
  layout : ∃ front back, m.buf = front ++ q ++ back ∧ m.readIndex = front.length ∧
    m.writeIndex = front.length + q.length

section Holds

variable {m : Memory} {q : Bytes}

theorem begin_eq (h : m.buf ≠ []) : m.begin = some 0 := by
  simp [begin, h]

theorem create_holds {size : Nat} (hsize : 1 ≤ size) : (create size).Holds [] where
  nonempty := by
    simp only [create, ne_eq, List.replicate_eq_nil_iff]
    omega
  layout := ⟨[], List.replicate size 0, rfl, rfl, rfl⟩

theorem Holds.bounds (h : m.Holds q) :
    m.readIndex ≤ m.writeIndex ∧ m.writeIndex ≤ m.buf.length ∧ m.content = q := by
  obtain ⟨front, back, hbuf, hread, hwrite⟩ := h.layout
  refine ⟨by omega, ?_, ?_⟩
  · simp only [hwrite, hbuf, List.length_append]
    omega
  · have htake : m.buf.take m.writeIndex = front ++ q := by
      rw [hbuf, hwrite, ← List.length_append]
      exact List.take_left
    rw [content, htake, hread]
    exact List.drop_left

/-- There is room for `len` bytes behind `end()` afterwards, and the queue is as it
was. -/
theorem makeSpace_holds (len : Nat) (h : m.Holds q) :
    ∃ m', m.makeSpace len = some m' ∧ m'.Holds q ∧ len ≤ m'.writeable := by
  obtain ⟨front, back, hbuf, hread, hwrite⟩ := h.layout
  have hsize : m.buf.length = front.length + q.length + back.length := by
    rw [hbuf, List.length_append, List.length_append]
  unfold makeSpace
  split
  case isFalse hfits => exact ⟨m, rfl, h, Nat.le_of_not_lt hfits⟩
  case isTrue hshort =>
    split
    case isTrue hslide =>
      -- there is something in front, or the space at the end would do
      have hfront : front ≠ [] := by
        rintro rfl
        simp only [prependable, hread, List.length_nil] at hslide
        omega
      obtain ⟨g, gap, rfl⟩ := List.exists_cons_of_ne_nil hfront
      have hreadable : m.readable = q.length := by
        simp only [readable, hread, hwrite]
        omega
      have hcopy := copyWithin_append [] gap q back g
      simp only [List.nil_append, List.length_nil, ← hbuf] at hcopy
      rw [begin_eq h.nonempty]
      simp only [Option.bind_eq_bind, Option.bind_some, Nat.zero_add, hread, hreadable, hcopy]
      refine ⟨_, rfl, ⟨?_, ⟨[], (g :: gap ++ q).drop q.length ++ back, ?_, rfl, ?_⟩⟩, ?_⟩
      · intro hnil
        have hlen := congrArg List.length hnil
        simp only [List.length_append, List.length_drop, List.length_cons, List.length_nil] at hlen
        omega
      · simp
      · simp
      · simp only [writeable, prependable, hwrite, hread, hsize, List.length_append,
          List.length_drop] at hslide ⊢
        omega
    case isFalse hgrow =>
      have hmore : m.buf.length ≤ m.writeIndex + len := by
        simp only [writeable] at hshort
        omega
      refine ⟨_, rfl, ⟨?_, ⟨front,
        back ++ List.replicate (m.writeIndex + len - m.buf.length) 0, ?_, hread, hwrite⟩⟩, ?_⟩
      · simp [resize, List.take_of_length_le hmore, h.nonempty]
      · simp only [resize, List.take_of_length_le hmore]
        rw [hbuf, List.append_assoc (front ++ q)]
      · simp only [writeable, resize, List.take_of_length_le hmore, List.length_append,
          List.length_replicate]
        omega

theorem storeAll_holds {data : Bytes} (h : m.Holds q) (hroom : data.length ≤ m.writeable) :
    ∃ buf, storeAll m.writeIndex data m.buf = some buf ∧
      ({ m with buf := buf, writeIndex := m.writeIndex + data.length } : Memory).Holds (q ++ data) := by
  obtain ⟨front, back, hbuf, hread, hwrite⟩ := h.layout
  have hback : data.length ≤ back.length := by
    simp only [writeable, hbuf, hwrite, List.length_append] at hroom
    omega
  have hstore := storeAll_append (front ++ q) data (back.take data.length) (back.drop data.length)
    (List.length_take_of_le hback)
  rw [List.append_assoc (front ++ q), List.take_append_drop, ← hbuf, List.length_append, ← hwrite]
    at hstore
  refine ⟨_, hstore, ⟨?_, ⟨front, back.drop data.length, ?_, hread, ?_⟩⟩⟩
  · intro hnil
    have hlen := congrArg List.length hnil
    have hpos := List.length_pos_of_ne_nil h.nonempty
    simp only [hbuf, List.length_append, List.length_drop, List.length_nil] at hlen hpos
    omega
  · simp
  · simp only [hwrite, List.length_append]
    omega

theorem append_holds (data : Bytes) (h : m.Holds q) :
    ∃ m', m.append data = some m' ∧ m'.Holds (q ++ data) := by
  obtain ⟨m', hspace, hholds, hroom⟩ := makeSpace_holds data.length h
  obtain ⟨buf, hstore, hafter⟩ := storeAll_holds hholds hroom
  refine ⟨_, ?_, hafter⟩
  simp [append, hspace, begin_eq hholds.nonempty, hstore]

theorem retrieve_holds (len : Nat) (h : m.Holds q) : (m.retrieve len).Holds (q.drop len) := by
  obtain ⟨front, back, hbuf, hread, hwrite⟩ := h.layout
  have hreadable : m.readable = q.length := by
    simp only [readable, hread, hwrite]
    omega
  unfold retrieve
  split
  case isTrue hless =>
    refine ⟨h.nonempty, front ++ q.take len, back, ?_, ?_, ?_⟩
    · simp [hbuf]
    · simp only [hread, List.length_append, List.length_take]
      omega
    · simp only [hwrite, List.length_append, List.length_take, List.length_drop]
      omega
  case isFalse hall =>
    rw [List.drop_eq_nil_of_le (by omega)]
    exact ⟨h.nonempty, [], m.buf, rfl, rfl, rfl⟩

theorem retrieveAll_holds (h : m.Holds q) : m.retrieveAll.Holds [] := by
  obtain ⟨front, back, -, hread, hwrite⟩ := h.layout
  have hreadable : m.readable = q.length := by
    simp only [readable, hread, hwrite]
    omega
  have hall := retrieve_holds m.readable h
  rw [hreadable, List.drop_length, ← hreadable] at hall
  exact hall

theorem cStr_holds (h : m.Holds q) : ∃ m', m.cStr = some m' ∧ m'.Holds q := by
  obtain ⟨m', hspace, hholds, hroom⟩ := makeSpace_holds 1 h
  obtain ⟨front, back, hbuf, hread, hwrite⟩ := hholds.layout
  have hback : back ≠ [] := by
    rintro rfl
    simp only [writeable, hbuf, hwrite, List.length_append, List.length_nil] at hroom
    omega
  obtain ⟨old, back, rfl⟩ := List.exists_cons_of_ne_nil hback
  have hstore := store_append (front ++ q) old 0 back
  rw [← hbuf, List.length_append, ← hwrite] at hstore
  refine ⟨{ m' with buf := front ++ q ++ 0 :: back }, ?_, ⟨by simp, ⟨front, 0 :: back, rfl, hread, hwrite⟩⟩⟩
  simp [cStr, hspace, begin_eq hholds.nonempty, hstore]

theorem readFd_holds {received : Bytes} (h : m.Holds q)
    (hoffered : received.length ≤ m.writeable + extrabufSize) :
    ∃ m', m.readFd received = some m' ∧ m'.Holds (q ++ received) := by
  have hroom : (received.take m.writeable).length ≤ m.writeable := List.length_take_le _ _
  obtain ⟨buf, hstore, hafter⟩ := storeAll_holds h hroom
  by_cases hfits : received.length ≤ m.writeable
  · rw [List.take_of_length_le hfits] at hafter hstore
    refine ⟨_, ?_, hafter⟩
    simp [readFd, begin_eq h.nonempty, Nat.not_lt.mpr hoffered, List.take_of_length_le hfits, hstore,
      hfits]
  · -- the vector is full to its end, and the rest is appended from `extrabuf`
    have hfull : (received.take m.writeable).length = m.writeable :=
      List.length_take_of_le (by omega)
    rw [hfull] at hafter
    obtain ⟨m', happend, hholds⟩ := append_holds (received.drop m.writeable) hafter
    refine ⟨m', ?_, ?_⟩
    · simp [readFd, begin_eq h.nonempty, Nat.not_lt.mpr hoffered, hstore, hfits, happend]
    · rw [List.append_assoc, List.take_append_drop] at hholds
      exact hholds

end Holds

variable {buffers : ι → Memory} {queues : ι → Bytes}

private theorem onBuffer_holds (i : ι) (f : Memory → Option Memory) {q : Bytes}
    (h : ∀ i, (buffers i).Holds (queues i)) (hf : ∃ m', f (buffers i) = some m' ∧ m'.Holds q) :
    ∃ buffers', onBuffer i f buffers = some buffers' ∧
      ∀ j, (buffers' j).Holds (Function.update queues i q j) := by
  obtain ⟨m', hresult, hholds⟩ := hf
  refine ⟨Function.update buffers i m', by simp [onBuffer, hresult], ?_⟩
  intro j
  by_cases hj : j = i
  · subst hj
    simpa using hholds
  · simpa [hj] using h j

private theorem swap_holds {i j : ι} (h : ∀ i, (buffers i).Holds (queues i)) (k : ι) :
    (swap i j buffers k).Holds (swap i j queues k) := by
  unfold swap
  by_cases hj : k = j
  · subst hj
    simpa using h i
  · by_cases hi : k = i
    · subst hi
      simpa [hj] using h j
    · simpa [hi, hj] using h k

private theorem execute_holds (op : Operation ι) (h : ∀ i, (buffers i).Holds (queues i))
    (hoffered : Offered (some buffers) op) :
    ∃ buffers', execute buffers op = some buffers' ∧
      ∀ i, (buffers' i).Holds (queueStep queues op i) := by
  cases op with
  | append i data => exact onBuffer_holds i _ h (append_holds data (h i))
  | retrieve i len =>
      exact onBuffer_holds i (fun m => some (m.retrieve len)) h ⟨_, rfl, retrieve_holds len (h i)⟩
  | retrieveAll i =>
      exact onBuffer_holds i (fun m => some m.retrieveAll) h ⟨_, rfl, retrieveAll_holds (h i)⟩
  | cStr i =>
      have hsame := onBuffer_holds i _ h (cStr_holds (h i))
      rw [Function.update_eq_self] at hsame
      exact hsame
  | swap i j => exact ⟨_, rfl, swap_holds h⟩
  | readFd i received => exact onBuffer_holds i _ h (readFd_holds (h i) (hoffered buffers rfl))

private theorem run_holds {ops : List (Operation ι)} (h : ∀ i, (buffers i).Holds (queues i))
    (hoffered : Admissible step Offered (some buffers) ops) :
    ∃ buffers', run step (some buffers) ops = some buffers' ∧
      ∀ i, (buffers' i).Holds (run queueStep queues ops i) := by
  induction ops generalizing buffers queues with
  | nil => exact ⟨buffers, rfl, h⟩
  | cons op ops ih =>
      obtain ⟨hfirst, hrest⟩ := hoffered
      obtain ⟨buffers', hstep, hholds⟩ := execute_holds op h hfirst
      have hstep' : step (some buffers) op = some buffers' := hstep
      rw [hstep'] at hrest
      obtain ⟨buffers'', hrun, hend⟩ := ih hholds hrest
      refine ⟨buffers'', ?_, hend⟩
      rw [run_cons, hstep']
      exact hrun

/-- No sequence of operations makes a store outside its vector; the indices stay in
order, and what lies between them is what the queue holds. -/
theorem refines_queue {sizes : ι → Nat} (hsizes : ∀ i, 1 ≤ sizes i) {ops : List (Operation ι)}
    (hoffered : Admissible step Offered (some fun i => create (sizes i)) ops) :
    ∃ buffers, run step (some fun i => create (sizes i)) ops = some buffers ∧
      ∀ i, (buffers i).readIndex ≤ (buffers i).writeIndex ∧
        (buffers i).writeIndex ≤ (buffers i).buf.length ∧
        (buffers i).content = run queueStep (fun _ => []) ops i := by
  obtain ⟨buffers, hrun, hholds⟩ := run_holds (fun i => create_holds (hsizes i)) hoffered
  exact ⟨buffers, hrun, fun i => (hholds i).bounds⟩

/-- Two buffers of two bytes: the first grows, slides and is swapped. -/
def slideAndSwap : List (Operation Bool) :=
  [.append true [1, 2, 3], .retrieve true 2, .append true [4, 5], .cStr true, .swap true false,
    .readFd false [6]]

theorem refines_queue_slideAndSwap :
    ∃ buffers : Bool → Memory,
      run step (some fun _ => create 2) slideAndSwap = some buffers ∧
      (buffers false).content = [3, 4, 5, 6] := by
  have hoffered : Admissible step Offered (some fun _ : Bool => create 2) slideAndSwap := by
    refine ⟨trivial, trivial, trivial, trivial, trivial, ?_, trivial⟩
    intro memory _
    exact Nat.le_trans (by decide) (Nat.le_add_left extrabufSize _)
  obtain ⟨buffers, hrun, hall⟩ := refines_queue (fun _ => Nat.le_succ 1) hoffered
  exact ⟨buffers, hrun, (hall false).2.2⟩

end Memory

end Angel.Buffer
