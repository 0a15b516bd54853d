import Angel.Http.Message

/-!
What the header and body parsers leave in the message and in the buffer, and
how the chunk parser goes on from one pass to the next: every pass that goes
round again takes bytes from the buffer, and none puts bytes back.
-/

namespace Angel.Http

open Util Buffer Lib

private theorem headerPass_again_length {m : Message} {buf : Bytes} {s' : Message × Bytes}
    (h : headerPass (m, buf) = .again s') : s'.2.length ≤ buf.length := by
  unfold headerPass at h
  dsimp only at h
  split at h
  · cases h
  split at h
  · cases h
  split at h
  · cases h
  split at h
  · cases h
  cases h
  simp only [List.length_drop]
  omega

private theorem headerPass_done_length {m m' : Message} {buf left : Bytes} {code : StatusCode}
    (h : headerPass (m, buf) = .done (some (m', left, code))) : left.length ≤ buf.length := by
  unfold headerPass at h
  dsimp only at h
  split at h
  · cases h
    exact Nat.le_refl _
  split at h
  · cases h
    simp only [List.length_drop]
    omega
  split at h
  · cases h
    exact Nat.le_refl _
  split at h <;> cases h

theorem parseHeader_length {m m' : Message} {buf left : Bytes} {code : StatusCode}
    (h : m.parseHeader buf = some (m', left, code)) : left.length ≤ buf.length := by
  let Inv := fun s : Message × Bytes => s.2.length ≤ buf.length
  let Post := fun r : Parsed => ∀ m' left code, r = some (m', left, code) →
    left.length ≤ buf.length
  have hagain : ∀ s s', Inv s → headerPass s = .again s' → Inv s' := by
    rintro ⟨m, rest⟩ s' hinv hpass
    exact (headerPass_again_length hpass).trans hinv
  have hdone : ∀ s r, Inv s → headerPass s = .done r → Post r := by
    rintro ⟨m, rest⟩ r hinv hpass m' left code rfl
    exact (headerPass_done_length hpass).trans hinv
  have hjoin : loop headerPass (buf.length + 1) (m, buf) = some (some (m', left, code)) :=
    Option.join_eq_some_iff.mp h
  exact loop_sound hagain hdone (show Inv (m, buf) from Nat.le_refl _) hjoin m' left code rfl

/-- `parse_header` reads and writes the header map and nothing else of the
message. -/
theorem headerPass_frame (m : Message) (s : Message × Bytes) :
    PassRel (fun s s' : Message × Bytes => s' = ({ m with headers := s.1.headers }, s.2))
      (fun r r' : Parsed => r' = r.map fun p => ({ m with headers := p.1.headers }, p.2))
      (headerPass s) (headerPass ({ m with headers := s.1.headers }, s.2)) := by
  obtain ⟨other, buf⟩ := s
  unfold headerPass
  dsimp only
  cases findCrlf buf with
  | none => exact .done rfl
  | some crlf =>
      dsimp only
      split
      · exact .done rfl
      · cases find [COLON] buf with
        | none => exact .done rfl
        | some pos =>
            dsimp only
            split
            · exact .done rfl
            · exact .again rfl

theorem parseHeader_frame {m other : Message} (hheaders : other.headers = m.headers)
    (buf : Bytes) :
    m.parseHeader buf =
      (other.parseHeader buf).map fun p => ({ m with headers := p.1.headers }, p.2) := by
  have hrel := loop_simulation (fun s s' (h : s' = ({ m with headers := s.1.headers }, s.2)) => by
    rw [h]
    exact headerPass_frame m s) (buf.length + 1) (s := (other, buf)) rfl
  have hstart : (({ m with headers := other.headers }, buf) : Message × Bytes) = (m, buf) := by
    rw [hheaders]
  rw [hstart] at hrel
  exact rel_join (Q := fun r r' : Parsed =>
    r' = r.map fun p => ({ m with headers := p.1.headers }, p.2)) rfl hrel

theorem parseHeader_headers {m m' : Message} {buf buf' : Bytes} {code : StatusCode}
    (h : m.parseHeader buf = some (m', buf', code)) :
    m' = { m with headers := m'.headers } := by
  have hframe := parseHeader_frame (m := m) rfl buf
  rw [h] at hframe
  exact congrArg Prod.fst (Option.some.inj hframe)

theorem chunkData_again_length {m : Message} {buf : Bytes} {s' : Message × Bytes}
    (h : chunkData m buf = .again s') : s'.2.length < buf.length := by
  unfold chunkData at h
  dsimp only at h
  split at h
  · split at h
    · cases h
    · split at h
      · cases h
        simp only [List.length_drop]
        omega
      · cases h
  · cases h

theorem chunkData_done_length {m m' : Message} {buf left : Bytes} {code : StatusCode}
    (h : chunkData m buf = .done (some (m', left, code))) : left.length ≤ buf.length := by
  unfold chunkData at h
  dsimp only at h
  split at h
  · split at h
    · cases h
      exact Nat.le_refl _
    · split at h
      · cases h
      · cases h
        simp only [List.length_drop]
        omega
  · cases h
    exact Nat.zero_le _

theorem chunkTrailer_length {m m' : Message} {buf left : Bytes} {code : StatusCode}
    (h : chunkTrailer m buf = .done (some (m', left, code))) : left.length ≤ buf.length := by
  unfold chunkTrailer at h
  split at h
  · next hparse =>
      cases h
      exact parseHeader_length hparse
  · injection h with hparse
    exact parseHeader_length hparse

theorem chunkData_refused {m m' : Message} {buf left : Bytes}
    (h : chunkData m buf = .done (some (m', left, .badRequest))) :
    left = buf.drop (toSizeT m.chunkSize) ∧ toSizeT m.chunkSize < buf.length := by
  unfold chunkData at h
  dsimp only at h
  split at h
  · next hlen =>
      split at h
      · cases h
      · split at h
        · cases h
        · cases h
          exact ⟨rfl, hlen⟩
  · cases h

theorem chunkTrailer_refused {m m' : Message} {buf left : Bytes}
    (h : chunkTrailer m buf = .done (some (m', left, .badRequest))) :
    m'.chunkSize = m.chunkSize := by
  unfold chunkTrailer at h
  split at h
  · cases h
  · injection h with hparse
    rw [parseHeader_headers hparse]

theorem chunkTrailer_again {m : Message} {buf : Bytes} {s' : Message × Bytes} :
    chunkTrailer m buf ≠ .again s' := by
  intro h
  unfold chunkTrailer at h
  split at h <;> cases h

theorem chunkPass_again_length {m : Message} {buf : Bytes} {s' : Message × Bytes}
    (h : chunkPass (m, buf) = .again s') : s'.2.length < buf.length := by
  unfold chunkPass at h
  dsimp only at h
  split at h
  · cases h
  split at h
  · split at h
    · cases h
    split at h
    · cases h
    split at h
    · cases h
    split at h
    · cases h
      simp only [List.length_drop]
      omega
    · have hlen := chunkData_again_length h
      simp only [List.length_drop] at hlen
      omega
  · split at h
    · exact absurd h chunkTrailer_again
    · exact chunkData_again_length h

private theorem chunkPass_done_length {m m' : Message} {buf left : Bytes} {code : StatusCode}
    (h : chunkPass (m, buf) = .done (some (m', left, code))) : left.length ≤ buf.length := by
  unfold chunkPass at h
  dsimp only at h
  split at h
  · cases h
    exact Nat.le_refl _
  split at h
  · split at h
    · cases h
      exact Nat.le_refl _
    split at h
    · cases h
      exact Nat.le_refl _
    split at h
    · cases h
      simp only [List.length_drop]
      omega
    split at h
    · cases h
    · have hlen := chunkData_done_length h
      simp only [List.length_drop] at hlen
      omega
  · split at h
    · exact chunkTrailer_length h
    · exact chunkData_done_length h

theorem parseBodyByChunked_length {m m' : Message} {buf left : Bytes} {code : StatusCode}
    (h : m.parseBodyByChunked buf = some (m', left, code)) : left.length ≤ buf.length := by
  let Inv := fun s : Message × Bytes => s.2.length ≤ buf.length
  let Post := fun r : Parsed => ∀ m' left code, r = some (m', left, code) →
    left.length ≤ buf.length
  have hagain : ∀ s s', Inv s → chunkPass s = .again s' → Inv s' := by
    rintro ⟨m, rest⟩ s' hinv hpass
    exact (Nat.le_of_lt (chunkPass_again_length hpass)).trans hinv
  have hdone : ∀ s r, Inv s → chunkPass s = .done r → Post r := by
    rintro ⟨m, rest⟩ r hinv hpass m' left code rfl
    exact (chunkPass_done_length hpass).trans hinv
  have hjoin : loop chunkPass (buf.length + 1) (m, buf) = some (some (m', left, code)) :=
    Option.join_eq_some_iff.mp h
  exact loop_sound hagain hdone (show Inv (m, buf) from Nat.le_refl _) hjoin m' left code rfl

theorem parseBody_length {m m' : Message} {buf left : Bytes} {code : StatusCode}
    (h : m.parseBody buf = some (m', left, code)) : left.length ≤ buf.length := by
  unfold Message.parseBody at h
  split at h
  · exact parseBodyByChunked_length h
  · unfold Message.parseBodyByContentLength at h
    split at h
    · cases h
      simp only [List.length_drop]
      omega
    · cases h
      exact Nat.zero_le _

theorem parseBodyByChunked_again {m m' : Message} {buf buf' : Bytes}
    (h : chunkPass (m, buf) = .again (m', buf')) :
    m.parseBodyByChunked buf = m'.parseBodyByChunked buf' := by
  have hsize : buf'.length < buf.length := chunkPass_again_length h
  have hfuel : loop chunkPass buf.length (m', buf') =
      loop chunkPass (buf'.length + 1) (m', buf') :=
    loop_fuel (fun s => s.2.length) (fun s s' hpass => chunkPass_again_length hpass) hsize
      (Nat.lt_succ_self _)
  rw [Message.parseBodyByChunked, loop_again h, hfuel, Message.parseBodyByChunked]

theorem parseBodyByChunked_done {m : Message} {buf : Bytes} {r : Parsed}
    (h : chunkPass (m, buf) = .done r) : m.parseBodyByChunked buf = r := by
  rw [Message.parseBodyByChunked, loop_done h]
  rfl

theorem parseBodyByChunked_congr {m m' : Message} {buf buf' : Bytes}
    (h : chunkPass (m, buf) = chunkPass (m', buf')) :
    m.parseBodyByChunked buf = m'.parseBodyByChunked buf' := by
  cases hpass : chunkPass (m', buf') with
  | again s =>
      rw [parseBodyByChunked_again hpass, parseBodyByChunked_again (h.trans hpass)]
  | done r => rw [parseBodyByChunked_done hpass, parseBodyByChunked_done (h.trans hpass)]

end Angel.Http
