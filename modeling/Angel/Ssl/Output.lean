import Angel.Connection.Front
import Angel.Ssl.Refinement

/-!
What OpenSSL takes of the data that is sent on an `ssl_connection`: the front of what was submitted,
and all of it but what is queued. The case left out is the one `send_in_loop` goes wrong in, a
direct `SSL_write` of data that has to be repeated.
-/

namespace Angel.Ssl

open Lib Connection

variable {H : Type} {pagesize : Nat} {files : Nat → Bytes} {s : Session H} {e : Event H}

/-- A file part that is sent lies inside its file, and a direct write of data need not be
repeated. -/
def Session.Allowed (files : Nat → Bytes) (s : Session H) (e : Event H) : Prop :=
  e.Ranged files ∧ ¬ e.plain.DirectAgain s.conn

structure Session.Sound (files : Nat → Bytes) (s : Session H) : Prop where
  ranged : Ranged files s.conn
  front : accepted s.conn.trace <+: submitted s.conn.trace
  represented : ExactlyRepresented files s.conn

namespace Session

private theorem init_sound (files : Nat → Bytes) (mark : Nat) (markHandler : Bool) (timer : Nat) :
    Sound files (init mark markHandler timer : Session H) where
  ranged _ _ hmem := absurd hmem List.not_mem_nil
  front := List.prefix_rfl
  represented := exactlyRepresented_init files mark markHandler timer

private theorem step_sound (pagesize : Nat) (s : Session H) (e : Event H) (h : Sound files s)
    (hok : s.Allowed files e) : Sound files (s.step pagesize files e) := by
  rw [step_eq h.ranged hok.1]
  refine ⟨step_ranged h.ranged hok.1, ?_, exactlyRepresented_step files h.represented hok.2⟩
  obtain hclosed | hopen := eq_or_ne s.conn.state .closed
  · exact (step_quiet_of_closed files hclosed e.plain).keeps h.front
  · obtain ⟨tasks, htasks, hexact⟩ := h.represented hopen
    exact step_front files htasks hexact hopen e.plain

/-- In every run, OpenSSL has taken the front of what was submitted; until the connection is
closed, the rest of it is queued. -/
theorem tls_output_exact (pagesize : Nat) (files : Nat → Bytes) (mark : Nat) (markHandler : Bool)
    (timer : Nat) {events : List (Event H)}
    (hrun : Admissible (step pagesize files) (Allowed files) (init mark markHandler timer) events) :
    let s := run (step pagesize files) (init mark markHandler timer) events
    accepted s.conn.trace <+: submitted s.conn.trace ∧
      (s.conn.state ≠ .closed → OutputExact files s.conn) := by
  intro s
  have hsound : Sound files s :=
    run_invariant (step_sound pagesize) (init_sound files mark markHandler timer) hrun
  refine ⟨hsound.front, ?_⟩
  intro hopen
  obtain ⟨tasks, htasks, hexact⟩ := hsound.represented hopen
  exact htasks.outputExact hexact

/-- Part of a file in two pages, that has to be repeated, data behind it, and the two of them in a
write event. -/
def mappedEvents : List (Event Unit) :=
  [.sendFile ⟨3, 5, 3⟩ .wantRead, .send 0 [7, 8] .failed, .writable .failed (.written 3),
    .writable (.written 1) .failed]

theorem tls_output_exact_mapped :
    let s := run (step 4 fun _ => [0, 1, 2, 3, 4, 5, 6, 7]) (init 0 false 0) mappedEvents
    s.conn.state = .connected ∧ accepted s.conn.trace = [5, 6, 7, 7] ∧
      OutputExact (fun _ => [0, 1, 2, 3, 4, 5, 6, 7]) s.conn := by
  intro s
  have hrun : Admissible (step 4 fun _ => [0, 1, 2, 3, 4, 5, 6, 7])
      (Allowed fun _ => [0, 1, 2, 3, 4, 5, 6, 7]) (init 0 false 0) mappedEvents := by
    refine ⟨⟨show 5 + 3 ≤ 8 by decide, id⟩, ⟨trivial, ?_⟩, ⟨trivial, id⟩, ⟨trivial, id⟩, trivial⟩
    rintro ⟨hr, -⟩
    exact nomatch hr
  have hopen : s.conn.state = .connected := by decide
  have hexact := (tls_output_exact 4 (fun _ => [0, 1, 2, 3, 4, 5, 6, 7]) 0 false 0 hrun).2
  exact ⟨hopen, by decide, hexact (by rw [hopen]; decide)⟩

end Session

end Angel.Ssl
