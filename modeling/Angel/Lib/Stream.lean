import Angel.Lib.Run

/-!
Streams received in segments. A receiver is correct for every segmentation
when one segment takes it from "`seg ++ rest` is still to come" to "`rest` is
still to come".
-/

namespace Angel.Lib

variable {σ α : Type*}

/-- Of an awaited piece `x` either a proper part has arrived, or all of it and
something of what follows. -/
theorem arrived_cases {buf rest x y : List α} (h : buf ++ rest = x ++ y) :
    (∃ more, more ≠ [] ∧ buf ++ more = x ∧ rest = more ++ y) ∨
      ∃ extra, buf = x ++ extra ∧ extra ++ rest = y := by
  rcases List.append_eq_append_iff.mp h with ⟨more, hx, hrest⟩ | ⟨extra, hbuf, hy⟩
  · cases more with
    | nil => exact Or.inr ⟨[], by simpa using hx.symm, by simpa using hrest⟩
    | cons a more => exact Or.inl ⟨a :: more, by simp, hx.symm, hrest⟩
  · exact Or.inr ⟨extra, hbuf, hy.symm⟩

theorem arrived_length_lt {buf more x : List α} (hmore : more ≠ []) (h : buf ++ more = x) :
    buf.length < x.length := by
  rw [← h, List.length_append]
  exact Nat.lt_add_of_pos_right (List.length_pos_iff.mpr hmore)

theorem take_arrived {buf more x y : List α} (h : buf ++ more = x ++ y)
    (hlen : x.length ≤ buf.length) : buf.take x.length = x := by
  have htake := congrArg (List.take x.length) h
  rwa [List.take_append_of_le_length hlen, List.take_left] at htake

/-- A relation between the receiver and the bytes to come that every segment
keeps, provided the boundary behind it is allowed, holds after every
segmentation with allowed boundaries. -/
theorem run_segments_of {recv : σ → List α → σ} {Awaits : σ → List α → Prop}
    {Allowed : List α → Prop}
    (hstep : ∀ s seg rest, Allowed rest → Awaits s (seg ++ rest) → Awaits (recv s seg) rest)
    {s : σ} {segments : List (List α)} {rest : List α}
    (hallowed : ∀ front back, segments = front ++ back → Allowed (back.flatten ++ rest))
    (h : Awaits s (segments.flatten ++ rest)) : Awaits (run recv s segments) rest := by
  induction segments generalizing s with
  | nil => simpa using h
  | cons seg segments ih =>
      apply ih
      · intro front back hsplit
        exact hallowed (seg :: front) back (by rw [hsplit]; rfl)
      · apply hstep
        · exact hallowed [seg] segments rfl
        · simpa using h

theorem run_segments {recv : σ → List α → σ} {Awaits : σ → List α → Prop}
    (hstep : ∀ s seg rest, Awaits s (seg ++ rest) → Awaits (recv s seg) rest) {s : σ}
    {segments : List (List α)} {rest : List α} (h : Awaits s (segments.flatten ++ rest)) :
    Awaits (run recv s segments) rest :=
  run_segments_of (fun s seg rest (_ : True) => hstep s seg rest) (fun _ _ _ => trivial) h

end Angel.Lib
