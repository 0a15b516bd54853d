import Angel.Lib.Store

/-!
Text that is put into an array piece by piece, each piece behind the one before. What lies in the
array behind the text is old. A chain of such writes is followed step by step with one rule: either
the piece fits, and the text has grown by it, or the whole chain has no result.
-/

namespace Angel.Lib.Store

variable {α β : Type*}

/-- A place in an array. -/
structure Cursor (α : Type*) where
  ptr : Nat
  cells : List α

/-- `memcpy(ptr, data, n)` and `ptr += n`. -/
def Cursor.put (data : List α) (cur : Cursor α) : Option (Cursor α) :=
  (storeAll cur.ptr data cur.cells).map fun cells => ⟨cur.ptr + data.length, cells⟩

/-- The text ends at the cursor. -/
structure Cursor.Behind (cur : Cursor α) (text : List α) (size : Nat) : Prop where
  ptr_eq : cur.ptr = text.length
  written : text <+: cur.cells
  length_eq : cur.cells.length = size

theorem behind_start (cells : List α) : (Cursor.mk 0 cells).Behind [] cells.length :=
  ⟨rfl, List.nil_prefix, rfl⟩

theorem storeAll_full {i : Nat} {data cells : List α} (hi : i ≤ cells.length)
    (hfull : cells.length < i + data.length) : storeAll i data cells = none := by
  induction data generalizing i cells with
  | nil => exact absurd hfull (Nat.not_lt.mpr hi)
  | cons c data ih =>
      rw [storeAll]
      unfold store
      split
      · next hin =>
          rw [Option.bind_some]
          apply ih
          · rw [List.length_set]
            exact hin
          · rw [List.length_set]
            simp only [List.length_cons] at hfull
            omega
      · rfl

theorem storeAll_behind {text data cells : List α} (htext : text <+: cells)
    (hfits : (text ++ data).length ≤ cells.length) :
    ∃ cells', storeAll text.length data cells = some cells' ∧ text ++ data <+: cells' ∧
      cells'.length = cells.length := by
  obtain ⟨old, rfl⟩ := htext
  simp only [List.length_append] at hfits
  have hold : (old.take data.length).length = data.length := by
    rw [List.length_take]
    omega
  have hstore := storeAll_append text data (old.take data.length) (old.drop data.length) hold
  rw [List.append_assoc text, List.take_append_drop] at hstore
  refine ⟨_, hstore, List.prefix_append _ _, ?_⟩
  simp only [List.length_append, List.length_drop]
  omega

namespace Cursor

variable {cur : Cursor α} {text : List α} {size : Nat}

theorem Behind.put_fits (h : cur.Behind text size) {data : List α}
    (hfits : (text ++ data).length ≤ size) :
    ∃ cur', cur.put data = some cur' ∧ cur'.Behind (text ++ data) size := by
  obtain ⟨cells, hstore, hwritten, hlen⟩ := storeAll_behind h.written (h.length_eq ▸ hfits)
  refine ⟨⟨cur.ptr + data.length, cells⟩, ?_, ?_, hwritten, hlen.trans h.length_eq⟩
  · rw [put, h.ptr_eq, hstore, Option.map_some]
  · rw [h.ptr_eq, List.length_append]

theorem Behind.put_full (h : cur.Behind text size) {data : List α}
    (hfull : size < (text ++ data).length) : cur.put data = none := by
  have hnone : storeAll cur.ptr data cur.cells = none := by
    apply storeAll_full
    · rw [h.ptr_eq]
      exact h.written.length_le
    · rw [h.ptr_eq, h.length_eq, ← List.length_append]
      exact hfull
  rw [put, hnone, Option.map_none]

/-- The rule for a chain of writes: what holds of the rest of the chain if the piece fits, and of no
result if it does not, holds of the chain. -/
theorem Behind.put_bind (h : cur.Behind text size) {data : List α} {k : Cursor α → Option β}
    {P : Option β → Prop} (hfull : size < (text ++ data).length → P none)
    (hfits : (text ++ data).length ≤ size → ∀ cur', cur'.Behind (text ++ data) size → P (k cur')) :
    P ((cur.put data).bind k) := by
  obtain hlt | hle := Nat.lt_or_ge size (text ++ data).length
  · rw [h.put_full hlt]
    exact hfull hlt
  · obtain ⟨cur', hput, hbehind⟩ := h.put_fits hle
    rw [hput]
    exact hfits hle cur' hbehind

theorem Behind.take_ptr (h : cur.Behind text size) : cur.cells.take cur.ptr = text := by
  rw [h.ptr_eq]
  exact (List.prefix_iff_eq_take.mp h.written).symm

end Cursor

end Angel.Lib.Store
