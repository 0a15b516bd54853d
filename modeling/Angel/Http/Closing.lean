import Angel.Connection.State
import Angel.Http.Leftover
import Angel.Http.OneResponse

/-!
Requests behind a closing one. `message_handler` looks at the connection once,
on entry; its loop goes on with the bytes behind a request that has closed it.
What is processed there is decided by whether those bytes hold the end of a
header block, an empty line.
-/

namespace Angel.Http

open Util Buffer Lib

/-- The end of a header block. -/
def BLANK : Bytes := CRLF ++ CRLF

private theorem headerPass_again {m : Message} {buf : Bytes} {s' : Message × Bytes}
    (h : headerPass (m, buf) = .again s') : ∃ line, buf = line ++ CRLF ++ s'.2 := by
  unfold headerPass at h
  dsimp only at h
  split at h
  · cases h
  · next crlf hcrlf =>
      split at h
      · cases h
      · split at h
        · cases h
        · split at h
          · cases h
          · cases h
            obtain ⟨line, tail, rfl, rfl, _⟩ := findCrlf_some hcrlf
            refine ⟨line, ?_⟩
            dsimp only
            rw [List.drop_left' (by simp [CRLF])]

private theorem headerPass_ok {m m' : Message} {buf left : Bytes}
    (h : headerPass (m, buf) = .done (some (m', left, .ok))) : buf = CRLF ++ left := by
  unfold headerPass at h
  dsimp only at h
  split at h
  · cases h
  · next crlf hcrlf =>
      split at h
      · next hzero =>
          cases h
          obtain ⟨line, tail, rfl, hlen, _⟩ := findCrlf_some hcrlf
          obtain rfl : line = [] := List.length_eq_zero_iff.mp (hlen.trans hzero)
          rfl
      · split at h
        · cases h
        · split at h <;> cases h

/-- A complete header block ends with an empty line, that of the line in front
of it included. -/
theorem parseHeader_ok {m m' : Message} {buf left : Bytes}
    (h : m.parseHeader buf = some (m', left, .ok)) :
    ∃ block, CRLF ++ buf = block ++ BLANK ++ left := by
  -- every pass stands right behind a CRLF
  let Inv := fun s : Message × Bytes => ∃ block, CRLF ++ buf = block ++ CRLF ++ s.2
  let Post := fun r : Parsed => ∀ m' left, r = some (m', left, .ok) →
    ∃ block, CRLF ++ buf = block ++ BLANK ++ left
  have hagain : ∀ s s', Inv s → headerPass s = .again s' → Inv s' := by
    rintro ⟨m, rest⟩ s' ⟨block, hblock⟩ hpass
    obtain ⟨line, hline⟩ := headerPass_again hpass
    refine ⟨block ++ CRLF ++ line, ?_⟩
    rw [hblock, hline]
    simp only [List.append_assoc]
  have hdone : ∀ s r, Inv s → headerPass s = .done r → Post r := by
    rintro ⟨m, rest⟩ r ⟨block, hblock⟩ hpass m' left rfl
    refine ⟨block, ?_⟩
    rw [hblock, headerPass_ok hpass, BLANK]
    simp only [List.append_assoc]
  have hjoin : loop headerPass (buf.length + 1) (m, buf) = some (some (m', left, .ok)) :=
    Option.join_eq_some_iff.mp h
  have hstart : Inv (m, buf) := ⟨[], rfl⟩
  exact loop_sound hagain hdone hstart hjoin m' left rfl

private theorem parseVersion_error (version : Bytes) : parseVersion version ≠ .error .ok := by
  unfold parseVersion
  split
  · simp
  · split
    · simp
    · split <;> simp

theorem parseLine_ok {req req' : Request} {buf left : Bytes}
    (h : req.parseLine buf = some (req', left, .ok)) :
    ∃ line, buf = line ++ CRLF ++ left := by
  unfold Request.parseLine at h
  split at h
  · cases h
  · next crlf hcrlf =>
      split at h
      · cases h
      · split at h
        · split at h
          · cases h
          · split at h
            · cases h
            · cases h
            · split at h
              · next code hversion =>
                  cases h
                  exact absurd hversion (parseVersion_error _)
              · cases h
                obtain ⟨line, tail, rfl, rfl, _⟩ := findCrlf_some hcrlf
                refine ⟨line, ?_⟩
                rw [List.drop_left' (by simp [CRLF])]
        · cases h

section Service

variable {ρ : Type} (service : Service ρ)

/-- The request a pass hands to `process_request`, with the bytes behind it. -/
def Service.completes (s : Session ρ) : Option (Request × Bytes) :=
  if s.buf = [] then none
  else
    match s.req.state with
    | .parseLine => none
    | .parseHeader =>
        match s.req.message.parseHeader s.buf with
        | some (m, buf, .ok) =>
            let req := { s.req with message := m }
            if !req.headers.count (ascii "Host") then none
            else if (service.expect s.env req).2 = .failed then none
            else
              match m.parseBodyLength with
              | (m, .continue) => some ({ req with message := m }, buf)
              | _ => none
        | _ => none
    | .parseBody =>
        match s.req.message.parseBody s.buf with
        | some (m, buf, .ok) => some ({ s.req with message := m }, buf)
        | _ => none

/-- What the code between two calls of `process_request` does to its
environment: it answers an expectation or an error. -/
inductive Service.Aside (env : ρ) : ρ → Prop where
  | same : Aside env env
  | expect (req : Request) : Aside env (service.expect env req).1
  | error (code : StatusCode) : Aside env (service.error env code)
  | both (req : Request) (code : StatusCode) :
      Aside env (service.error (service.expect env req).1 code)

/-- What one pass of the loop of `message_handler` can do. -/
inductive Service.Outcome (s : Session ρ) : Pass (Session ρ) (Option (Session ρ)) → Prop where
  /-- a complete request is processed -/
  | dispatch (env : ρ) (req : Request) (buf : Bytes) (henv : service.Aside s.env env)
      (hcompletes : service.completes s = some (req, buf))
      (hstate : s.req.state ≠ .parseLine)
      (hheader : s.req.state = .parseHeader → ∃ block, CRLF ++ s.buf = block ++ BLANK ++ buf)
      (hlength : buf.length + (if s.req.state = .parseBody then 0 else 1) ≤ s.buf.length) :
      Outcome s (service.dispatch env req buf)
  /-- a request line is read -/
  | line (req : Request) (buf line : Bytes) (hcompletes : service.completes s = none)
      (hstate : s.req.state = .parseLine) (hline : s.buf = line ++ CRLF ++ buf) :
      Outcome s (.again ⟨s.env, { req with state := .parseHeader }, buf⟩)
  /-- a header block is read and a body announced -/
  | header (env : ρ) (req : Request) (buf block : Bytes) (henv : service.Aside s.env env)
      (hcompletes : service.completes s = none) (hstate : s.req.state = .parseHeader)
      (hblock : CRLF ++ s.buf = block ++ BLANK ++ buf) :
      Outcome s (.again ⟨env, { req with state := .parseBody }, buf⟩)
  /-- the call returns, or the thread ends -/
  | leave (r : Option (Session ρ)) (hcompletes : service.completes s = none)
      (henv : ∀ t, r = some t → service.Aside s.env t.env) : Outcome s (.done r)

theorem linePass_outcome {s : Session ρ} (hbuf : s.buf ≠ []) (hstate : s.req.state = .parseLine) :
    service.Outcome s (service.linePass s) := by
  have hcompletes : service.completes s = none := by
    rw [Service.completes, if_neg hbuf, hstate]
  unfold Service.linePass
  cases hparse : s.req.parseLine s.buf with
  | none =>
      apply Service.Outcome.leave none hcompletes
      rintro t ⟨⟩
  | some p =>
      obtain ⟨req, buf, code⟩ := p
      cases code with
      | ok =>
          obtain ⟨line, hline⟩ := parseLine_ok hparse
          exact .line req buf line hcompletes hstate hline
      | «continue» =>
          apply Service.Outcome.leave _ hcompletes
          rintro t ⟨⟩
          exact .same
      | _ =>
          apply Service.Outcome.leave _ hcompletes
          rintro t ⟨⟩
          exact .error _

private theorem bodyLength_outcome {s : Session ρ} {env : ρ} {m : Message} {buf block : Bytes}
    (hstate : s.req.state = .parseHeader) (hblock : CRLF ++ s.buf = block ++ BLANK ++ buf)
    (henv : service.Aside s.env env)
    (herror : ∀ code, service.Aside s.env (service.error env code))
    (hcompletes : service.completes s =
      match m.parseBodyLength with
      | (m, .continue) => some ({ s.req with message := m }, buf)
      | _ => none) :
    service.Outcome s
      (match m.parseBodyLength with
        | (m, .ok) => .again ⟨env, { s.req with message := m, state := .parseBody }, buf⟩
        | (m, .continue) => service.dispatch env { s.req with message := m } buf
        | (m, code) =>
            .done (some ⟨service.error env code, { s.req with message := m }, buf⟩)) := by
  generalize m.parseBodyLength = r at hcompletes
  obtain ⟨m', code⟩ := r
  cases code with
  | ok => exact .header env { s.req with message := m' } buf block henv hcompletes hstate hblock
  | «continue» =>
      apply Service.Outcome.dispatch env _ buf henv hcompletes
      · rw [hstate]
        simp
      · intro _
        exact ⟨block, hblock⟩
      · have hlen := congrArg List.length hblock
        simp only [List.length_append, BLANK, CRLF, List.length_cons, List.length_nil] at hlen
        split <;> omega
  | _ =>
      apply Service.Outcome.leave _ hcompletes
      rintro t ⟨⟩
      exact herror _

private theorem headerPass_outcome {s : Session ρ} (hbuf : s.buf ≠ [])
    (hstate : s.req.state = .parseHeader) : service.Outcome s (service.headerPass s) := by
  have hunfold : service.completes s =
      match s.req.message.parseHeader s.buf with
      | some (m, buf, .ok) =>
          if !m.headers.count (ascii "Host") then none
          else if (service.expect s.env { s.req with message := m }).2 = .failed then none
          else
            match m.parseBodyLength with
            | (m, .continue) => some ({ s.req with message := m }, buf)
            | _ => none
      | _ => none := by
    rw [Service.completes, if_neg hbuf, hstate]
    rfl
  unfold Service.headerPass
  cases hparse : s.req.message.parseHeader s.buf with
  | none =>
      rw [hparse] at hunfold
      apply Service.Outcome.leave none hunfold
      rintro t ⟨⟩
  | some p =>
      obtain ⟨m, buf, code⟩ := p
      rw [hparse] at hunfold
      cases code with
      | ok =>
          obtain ⟨block, hblock⟩ := parseHeader_ok hparse
          dsimp only at hunfold ⊢
          unfold Service.headerDone
          have hheaders : Request.headers { s.req with message := m } = m.headers := rfl
          rw [hheaders]
          by_cases hhost : (!m.headers.count (ascii "Host")) = true
          · rw [if_pos hhost] at hunfold ⊢
            apply Service.Outcome.leave _ hunfold
            rintro t ⟨⟩
            exact .error _
          rw [if_neg hhost] at hunfold ⊢
          have henv : service.Aside s.env (service.expect s.env { s.req with message := m }).1 :=
            .expect _
          have herror : ∀ code, service.Aside s.env
              (service.error (service.expect s.env { s.req with message := m }).1 code) :=
            fun code => .both _ code
          generalize service.expect s.env { s.req with message := m } = r at *
          obtain ⟨env, expected⟩ := r
          cases expected with
          | failed =>
              apply Service.Outcome.leave _ hunfold
              rintro t ⟨⟩
              exact henv
          | noHeader => exact bodyLength_outcome service hstate hblock henv herror hunfold
          | successful => exact bodyLength_outcome service hstate hblock henv herror hunfold
      | «continue» =>
          apply Service.Outcome.leave _ hunfold
          rintro t ⟨⟩
          exact .same
      | _ =>
          apply Service.Outcome.leave _ hunfold
          rintro t ⟨⟩
          exact .error _

private theorem bodyPass_outcome {s : Session ρ} (hbuf : s.buf ≠ [])
    (hstate : s.req.state = .parseBody) : service.Outcome s (service.bodyPass s) := by
  have hunfold : service.completes s =
      match s.req.message.parseBody s.buf with
      | some (m, buf, .ok) => some ({ s.req with message := m }, buf)
      | _ => none := by
    rw [Service.completes, if_neg hbuf, hstate]
  unfold Service.bodyPass
  cases hparse : s.req.message.parseBody s.buf with
  | none =>
      rw [hparse] at hunfold
      apply Service.Outcome.leave none hunfold
      rintro t ⟨⟩
  | some p =>
      obtain ⟨m, buf, code⟩ := p
      rw [hparse] at hunfold
      cases code with
      | ok =>
          apply Service.Outcome.dispatch s.env _ buf .same hunfold
          · rw [hstate]
            simp
          · intro hheader
            rw [hstate] at hheader
            cases hheader
          · rw [if_pos hstate]
            exact parseBody_length hparse
      | «continue» =>
          apply Service.Outcome.leave _ hunfold
          rintro t ⟨⟩
          exact .same
      | _ =>
          apply Service.Outcome.leave _ hunfold
          rintro t ⟨⟩
          exact .error _

theorem pass_outcome (s : Session ρ) : service.Outcome s (service.pass s) := by
  unfold Service.pass
  by_cases hbuf : s.buf = []
  · rw [if_pos hbuf]
    apply Service.Outcome.leave
    · rw [Service.completes, if_pos hbuf]
    · rintro t ⟨⟩
      exact .same
  rw [if_neg hbuf]
  cases hstate : s.req.state with
  | parseLine => exact linePass_outcome service hbuf hstate
  | parseHeader => exact headerPass_outcome service hbuf hstate
  | parseBody => exact bodyPass_outcome service hbuf hstate

/-- What the loop needs of the calls it makes: a closed connection stays closed,
a request that is not kept alive closes it, and a processed request is
cleared. -/
structure Service.Closes : Prop where
  aside : ∀ {env env' : ρ}, service.isConnected env = false → service.Aside env env' →
    service.isConnected env' = false
  closing : ∀ {env env' : ρ} {req req' : Request},
    service.processRequest env req = some (env', req') → req.keepalive = false →
    service.isConnected env' = false
  cleared : ∀ {env env' : ρ} {req req' : Request},
    service.processRequest env req = some (env', req') → req'.state = .parseLine

/-- What a pass leaves to read: a body may be complete without another byte. -/
def Session.size (s : Session ρ) : Nat :=
  2 * s.buf.length + if s.req.state = .parseBody then 1 else 0

/-- Every call of the message handler returns: its passes are bounded by the
bytes in the buffer. -/
theorem messageHandler_returns {service : Service ρ} (hcloses : service.Closes) (s : Session ρ) :
    ∃ r, loop service.pass (2 * s.buf.length + 2) s = some r := by
  have hpass : ∀ t : Session ρ, True →
      (∃ t', service.pass t = .again t' ∧ True ∧ t'.size < t.size) ∨
        ∃ r, service.pass t = .done r ∧ True := by
    intro t _
    have hout := pass_outcome service t
    generalize service.pass t = p at hout
    cases hout with
    | dispatch env req buf henv hcompletes hstate hheader hlength =>
        unfold Service.dispatch
        cases hprocess : service.processRequest env req with
        | none => exact Or.inr ⟨_, rfl, trivial⟩
        | some r =>
            refine Or.inl ⟨_, rfl, trivial, ?_⟩
            have hcleared : r.2.state = .parseLine := hcloses.cleared hprocess
            simp only [Session.size, hcleared]
            split at hlength
            · next hbody =>
                rw [if_pos hbody, if_neg (by simp)]
                omega
            · rw [if_neg (by simp)]
              omega
    | line req buf line hcompletes hstate hline =>
        refine Or.inl ⟨_, rfl, trivial, ?_⟩
        simp only [Session.size, hline, List.length_append, CRLF, List.length_cons,
          List.length_nil]
        rw [if_neg (by simp)]
        omega
    | header env req buf block henv hcompletes hstate hblock =>
        refine Or.inl ⟨_, rfl, trivial, ?_⟩
        have hlen := congrArg List.length hblock
        simp only [List.length_append, BLANK, CRLF, List.length_cons, List.length_nil] at hlen
        simp only [Session.size, if_true]
        omega
    | leave r hcompletes henv => exact Or.inr ⟨r, rfl, trivial⟩
  have hsize : s.size < 2 * s.buf.length + 2 := by
    unfold Session.size
    split <;> omega
  obtain ⟨r, hloop, _⟩ := loop_spec Session.size hpass trivial hsize
  exact ⟨r, hloop⟩

/-- The sessions at the start of the passes of a call. -/
def Service.visited : Nat → Session ρ → List (Session ρ)
  | 0, _ => []
  | fuel + 1, s =>
      s :: match service.pass s with
        | .again t => Service.visited fuel t
        | .done _ => []

/-- The requests a call of `message_handler` processes, each with the bytes
that have arrived behind it. -/
def Service.processed (s : Session ρ) : List (Request × Bytes) :=
  if !service.isConnected s.env then []
  else (service.visited (2 * s.buf.length + 2) s).filterMap service.completes

theorem visited_again {s t : Session ρ} (h : service.pass s = .again t) (fuel : Nat) :
    service.visited (fuel + 1) s = s :: service.visited fuel t := by
  rw [Service.visited, h]

theorem visited_done {s : Session ρ} {r : Option (Session ρ)} (h : service.pass s = .done r)
    (fuel : Nat) : service.visited (fuel + 1) s = [s] := by
  rw [Service.visited, h]

/-- A property of the environment that every call keeps. -/
structure Service.Keeps (Inv : ρ → Prop) : Prop where
  expect : ∀ {env : ρ}, Inv env → ∀ req, Inv (service.expect env req).1
  processRequest : ∀ {env env' : ρ} {req req' : Request}, Inv env →
    service.processRequest env req = some (env', req') → Inv env'
  error : ∀ {env : ρ}, Inv env → ∀ code, Inv (service.error env code)

variable {service} {Inv : ρ → Prop}

theorem Service.Keeps.aside (h : service.Keeps Inv) {env env' : ρ} (henv : Inv env)
    (haside : service.Aside env env') : Inv env' := by
  cases haside with
  | same => exact henv
  | expect req => exact h.expect henv req
  | error code => exact h.error henv code
  | both req code => exact h.error (h.expect henv req) code

theorem Service.Keeps.pass (h : service.Keeps Inv) {s : Session ρ} (hs : Inv s.env) :
    (∃ t, service.pass s = .again t ∧ Inv t.env) ∨
      ∃ r, service.pass s = .done r ∧ ∀ t, r = some t → Inv t.env := by
  have hout := pass_outcome service s
  generalize service.pass s = p at hout
  cases hout with
  | dispatch env req buf henv hcompletes hstate hheader hlength =>
      have hkept := h.aside hs henv
      unfold Service.dispatch
      cases hprocess : service.processRequest env req with
      | none => exact Or.inr ⟨none, rfl, nofun⟩
      | some r => exact Or.inl ⟨_, rfl, h.processRequest hkept hprocess⟩
  | line req buf line hcompletes hstate hline => exact Or.inl ⟨_, rfl, hs⟩
  | header env req buf block henv hcompletes hstate hblock =>
      exact Or.inl ⟨_, rfl, h.aside hs henv⟩
  | leave r hcompletes henv => exact Or.inr ⟨r, rfl, fun t ht => h.aside hs (henv t ht)⟩

theorem Service.Keeps.visited (h : service.Keeps Inv) (fuel : Nat) {s : Session ρ}
    (hs : Inv s.env) : ∀ t ∈ service.visited fuel s, Inv t.env := by
  induction fuel generalizing s with
  | zero => exact fun t ht => absurd ht List.not_mem_nil
  | succ fuel ih =>
      rcases h.pass hs with ⟨next, hpass, hnext⟩ | ⟨r, hpass, _⟩
      · rw [visited_again service hpass, List.forall_mem_cons]
        exact ⟨hs, ih hnext⟩
      · rw [visited_done service hpass, List.forall_mem_singleton]
        exact hs

theorem Service.Keeps.messageHandler (h : service.Keeps Inv) {s t : Session ρ} (hs : Inv s.env)
    (hhandler : service.messageHandler s = some t) : Inv t.env := by
  unfold Service.messageHandler at hhandler
  split at hhandler
  · cases hhandler
    exact hs
  · have hloop := Option.join_eq_some_iff.mp hhandler
    exact loop_sound_of_pass (fun _ hs => h.pass hs) hs hloop t rfl

/-- The connection is closed and no header block can be completed. -/
structure Service.Dead (s : Session ρ) : Prop where
  closed : service.isConnected s.env = false
  unread : (s.req.state = .parseLine ∧ ¬ BLANK <:+: s.buf) ∨
    (s.req.state = .parseHeader ∧ ¬ BLANK <:+: CRLF ++ s.buf)

private theorem blank_infix_of_block {block buf left : Bytes} (h : buf = block ++ BLANK ++ left) :
    BLANK <:+: buf := ⟨block, left, h.symm⟩

private theorem dead_pass (hcloses : service.Closes) {s : Session ρ} (h : service.Dead s) :
    service.completes s = none ∧ (∀ t, service.pass s = .again t → service.Dead t) ∧
      ∀ t, service.pass s = .done (some t) → service.isConnected t.env = false := by
  have hout := pass_outcome service s
  generalize service.pass s = p at hout
  cases hout with
  | dispatch env req buf henv hcompletes hstate hheader hlength =>
      exfalso
      rcases h.unread with ⟨hline, _⟩ | ⟨hparse, hblank⟩
      · exact hstate hline
      · obtain ⟨block, hblock⟩ := hheader hparse
        exact hblank (blank_infix_of_block hblock)
  | line req buf line hcompletes hstate hline =>
      refine ⟨hcompletes, ?_, ?_⟩
      · intro t ht
        cases ht
        refine ⟨h.closed, Or.inr ⟨rfl, ?_⟩⟩
        intro hin
        rcases h.unread with ⟨_, hblank⟩ | ⟨hparse, _⟩
        · apply hblank
          rw [hline, List.append_assoc]
          exact hin.trans (List.suffix_append line (CRLF ++ buf)).isInfix
        · rw [hstate] at hparse
          cases hparse
      · intro t ht
        cases ht
  | header env req buf block henv hcompletes hstate hblock =>
      exfalso
      rcases h.unread with ⟨hline, _⟩ | ⟨_, hblank⟩
      · rw [hstate] at hline
        cases hline
      · exact hblank (blank_infix_of_block hblock)
  | leave r hcompletes henv =>
      refine ⟨hcompletes, ?_, ?_⟩
      · intro t ht
        cases ht
      · intro t ht
        cases ht
        exact hcloses.aside h.closed (henv t rfl)

theorem dead_visited (hcloses : service.Closes) (fuel : Nat) {s : Session ρ}
    (h : service.Dead s) :
    (service.visited fuel s).filterMap service.completes = [] ∧
      ∀ t, loop service.pass fuel s = some (some t) → service.isConnected t.env = false := by
  induction fuel generalizing s with
  | zero => exact ⟨rfl, fun t ht => by cases ht⟩
  | succ fuel ih =>
      obtain ⟨hcompletes, hagain, hdone⟩ := dead_pass hcloses h
      cases hpass : service.pass s with
      | again t =>
          obtain ⟨hnone, hresult⟩ := ih (hagain t hpass)
          rw [visited_again service hpass, List.filterMap_cons_none hcompletes, loop_again hpass]
          exact ⟨hnone, hresult⟩
      | done r =>
          rw [visited_done service hpass, List.filterMap_cons_none hcompletes, loop_done hpass]
          refine ⟨rfl, ?_⟩
          intro t ht
          cases ht
          exact hdone t hpass

variable (service) in
/-- A closing request is the last of its call, and the call leaves the
connection closed. -/
inductive Service.CallOutcome (processed : List (Request × Bytes))
    (r : Option (Option (Session ρ))) : Prop where
  | open (hopen : ∀ d ∈ processed, d.1.keepalive = true)
  | closed (front : List (Request × Bytes)) (last : Request × Bytes)
      (hprocessed : processed = front ++ [last]) (hfront : ∀ d ∈ front, d.1.keepalive = true)
      (hclosed : ∀ t, r = some (some t) → service.isConnected t.env = false)

theorem CallOutcome.cons {processed : List (Request × Bytes)} {r : Option (Option (Session ρ))}
    (h : service.CallOutcome processed r) {d : Request × Bytes}
    (hd : d.1.keepalive = true) :
    service.CallOutcome (d :: processed) r := by
  cases h with
  | «open» hopen =>
      apply Service.CallOutcome.open
      intro other hother
      rcases List.mem_cons.mp hother with rfl | hother
      · exact hd
      · exact hopen other hother
  | closed front last hprocessed hfront hclosed =>
      apply Service.CallOutcome.closed (d :: front) last
      · rw [hprocessed]
        rfl
      · intro other hother
        rcases List.mem_cons.mp hother with rfl | hother
        · exact hd
        · exact hfront other hother
      · exact hclosed

/-- One call, when no empty line is among the bytes behind a closing
request. -/
theorem call_outcome (hcloses : service.Closes) (fuel : Nat) (s : Session ρ)
    (hunread : ∀ d ∈ (service.visited fuel s).filterMap service.completes,
      d.1.keepalive = false → ¬ BLANK <:+: d.2) :
    service.CallOutcome
      ((service.visited fuel s).filterMap service.completes) (loop service.pass fuel s) := by
  induction fuel generalizing s with
  | zero => exact .open (by simp [Service.visited])
  | succ fuel ih =>
      have hout := pass_outcome service s
      generalize hpass : service.pass s = p at hout
      cases hout with
      | dispatch env req buf henv hcompletes hstate hheader hlength =>
          unfold Service.dispatch at hpass
          cases hprocess : service.processRequest env req with
          | none =>
              rw [hprocess] at hpass
              rw [visited_done service hpass, List.filterMap_cons_some hcompletes, loop_done hpass]
              exact .closed [] (req, buf) rfl (by simp) (by rintro t ⟨⟩)
          | some r =>
              obtain ⟨env', req'⟩ := r
              rw [hprocess] at hpass
              rw [visited_again service hpass, List.filterMap_cons_some hcompletes] at hunread ⊢
              rw [loop_again hpass]
              by_cases halive : req.keepalive = true
              · apply CallOutcome.cons
                · apply ih
                  intro d hd
                  exact hunread d (List.mem_cons_of_mem _ hd)
                · exact halive
              · -- the loop goes on with the bytes behind the closing request
                have hclosing : req.keepalive = false := by simpa using halive
                have hblank := hunread (req, buf) List.mem_cons_self hclosing
                have hdead : service.Dead ⟨env', req', buf⟩ :=
                  ⟨hcloses.closing hprocess hclosing,
                    Or.inl ⟨hcloses.cleared hprocess, hblank⟩⟩
                obtain ⟨hnone, hresult⟩ := dead_visited hcloses fuel hdead
                rw [hnone]
                exact .closed [] (req, buf) rfl (by simp) hresult
      | line req buf line hcompletes hstate hline =>
          rw [visited_again service hpass, List.filterMap_cons_none hcompletes] at hunread ⊢
          rw [loop_again hpass]
          exact ih _ hunread
      | header env req buf block henv hcompletes hstate hblock =>
          rw [visited_again service hpass, List.filterMap_cons_none hcompletes] at hunread ⊢
          rw [loop_again hpass]
          exact ih _ hunread
      | leave r hcompletes henv =>
          rw [visited_done service hpass, List.filterMap_cons_none hcompletes]
          exact .open (by simp)

end Service

section Runs

variable {W : Type} (sys : System W) (server : Server W)

private theorem perform_left {env : ServerState W} (h : env.conn.Left) (output : Output) :
    (env.perform sys output).conn.Left := by
  cases output with
  | head code headers => exact h
  | send bytes => exact Connection.sendInLoop_left h _ bytes _
  | sendFile fd offset count => exact Connection.sendFileInLoop_left _ h _ _
  | setSendCompleteHandler fd => exact h
  | close => exact Connection.close_left _

theorem performAll_left {env : ServerState W} (h : env.conn.Left) (out : List Output) :
    (out.foldl (ServerState.perform sys) env).conn.Left := by
  induction out generalizing env with
  | nil => exact h
  | cons output out ih => exact ih (perform_left sys h output)

/-- Outputs that close the connection leave it closed, whatever comes before or
after. -/
theorem performAll_close {out : List Output} (h : Output.close ∈ out) (env : ServerState W) :
    (out.foldl (ServerState.perform sys) env).conn.Left := by
  induction out generalizing env with
  | nil => exact absurd h List.not_mem_nil
  | cons output out ih =>
      rcases List.mem_cons.mp h with rfl | h
      · exact performAll_left sys (Connection.close_left _) out
      · exact ih h _

theorem apply_left {env : ServerState W} (h : env.conn.Left) (calls : List Call) :
    (env.apply sys calls).conn.Left := by
  unfold ServerState.apply
  apply performAll_left
  exact h

private theorem execAll_close {order : Headers → Headers} {now : Tm} {calls : List Call}
    (h : Call.connClose ∈ calls) (res : Response) :
    Output.close ∈ (res.execAll order now calls).2 := by
  induction calls generalizing res with
  | nil => exact absurd h List.not_mem_nil
  | cons call calls ih =>
      apply List.mem_append.mpr
      rcases List.mem_cons.mp h with rfl | h
      · exact Or.inl (List.mem_singleton_self _)
      · exact Or.inr (ih h _)

/-- An answer is what `dispatch` asks for and, without keep-alive, the close. -/
theorem answer_cases {res res' : Response} {w w' : W} {req req' : Request} {out : List Output}
    (h : server.answer sys res w req = some (res', w', req', out)) :
    ∃ (after : Request) (calls : List Call), req' = after.clear ∧
      out = (res.execAll sys.order (sys.now w) (calls ++
        if req.keepalive then [] else [.connClose])).2 := by
  unfold Server.answer Server.processRequest at h
  dsimp only at h
  cases hdispatch : server.dispatch sys w
      (res.headers.emplace (ascii "Connection") req.connectionHeader) req with
  | none =>
      rw [hdispatch] at h
      cases h
  | some p =>
      rw [hdispatch] at h
      cases h
      exact ⟨p.2.1, _, rfl, rfl⟩

theorem answer_close {res res' : Response} {w w' : W} {req req' : Request} {out : List Output}
    (h : server.answer sys res w req = some (res', w', req', out))
    (hclosing : req.keepalive = false) : Output.close ∈ out := by
  obtain ⟨after, calls, _, rfl⟩ := answer_cases sys server h
  rw [hclosing]
  apply execAll_close
  exact List.mem_append_right calls (List.mem_singleton_self _)

theorem answer_cleared {res res' : Response} {w w' : W} {req req' : Request} {out : List Output}
    (h : server.answer sys res w req = some (res', w', req', out)) :
    req'.state = .parseLine := by
  obtain ⟨after, calls, rfl, _⟩ := answer_cases sys server h
  rfl

theorem service_process_cases {env env' : ServerState W} {req req' : Request}
    (h : (server.service sys).processRequest env req = some (env', req')) :
    ∃ res w out, server.answer sys env.res env.world req = some (res, w, req', out) ∧
      env' = out.foldl (ServerState.perform sys) { env with res := res, world := w } := by
  unfold Server.service at h
  dsimp only at h
  split at h
  · cases h
  · next res w after out hanswer =>
      cases h
      exact ⟨res, w, out, hanswer, rfl⟩

theorem isConnected_iff (env : ServerState W) :
    (server.service sys).isConnected env = false ↔ env.conn.Left := by
  simp [Server.service, Connection.Conn.Left]

private theorem service_expect_left {env : ServerState W} (h : env.conn.Left) (req : Request) :
    ((server.service sys).expect env req).1.conn.Left := by
  unfold Server.service
  dsimp only
  split
  · exact h
  · split
    · exact h
    · dsimp only
      exact apply_left sys h _

private theorem service_error_left {env : ServerState W} (h : env.conn.Left) (code : StatusCode) :
    ((server.service sys).error env code).conn.Left := by
  unfold Server.service
  dsimp only
  exact apply_left sys h _

theorem service_closes : (server.service sys).Closes where
  aside := by
    intro env env' hclosed haside
    rw [isConnected_iff] at hclosed ⊢
    cases haside with
    | same => exact hclosed
    | expect req => exact service_expect_left sys server hclosed req
    | error code => exact service_error_left sys server hclosed code
    | both req code =>
        apply service_error_left
        exact service_expect_left sys server hclosed req
  closing := by
    intro env env' req req' hprocess hclosing
    obtain ⟨res, w, out, hanswer, rfl⟩ := service_process_cases sys server hprocess
    rw [isConnected_iff]
    exact performAll_close sys (answer_close sys server hanswer hclosing) _
  cleared := by
    intro env env' req req' hprocess
    obtain ⟨res, w, out, hanswer, _⟩ := service_process_cases sys server hprocess
    exact answer_cleared sys server hanswer

/-- What can happen to a connection of the server: bytes arrive, or its loop
enters it for another reason. -/
inductive ServerEvent where
  | segment (bytes : Bytes)
  | connection (event : Connection.Event Int)

def Server.step (s : Option (Session (ServerState W))) :
    ServerEvent → Option (Session (ServerState W))
  | .segment bytes => (server.service sys).receive s bytes
  | .connection event => s.map fun s => { s with env := { s.env with
      conn := s.env.conn.step (sys.openFiles s.env.world) event } }

/-- The requests that `process_request` is called with in a run, in their
order, each with the bytes that have arrived behind it. -/
def Server.history : Option (Session (ServerState W)) → List ServerEvent →
    List (Request × Bytes)
  | none, _ => []
  | some _, [] => []
  | some s, .segment bytes :: events =>
      (server.service sys).processed { s with buf := s.buf ++ bytes } ++
        Server.history (server.step sys (some s) (.segment bytes)) events
  | some s, .connection event :: events =>
      Server.history (server.step sys (some s) (.connection event)) events

theorem history_closed (events : List ServerEvent) {s : Session (ServerState W)}
    (h : s.env.conn.Left) : server.history sys (some s) events = [] := by
  induction events generalizing s with
  | nil => rfl
  | cons event events ih =>
      cases event with
      | segment bytes =>
          have hclosed : (server.service sys).isConnected s.env = false :=
            (isConnected_iff sys server s.env).mpr h
          have hprocessed : (server.service sys).processed { s with buf := s.buf ++ bytes } = [] := by
            rw [Service.processed]
            simp [hclosed]
          have hstep : server.step sys (some s) (.segment bytes) =
              some { s with buf := s.buf ++ bytes } := by
            simp [Server.step, Service.receive, Service.messageHandler, hclosed]
          rw [Server.history, hprocessed, hstep]
          exact ih h
      | connection event =>
          rw [Server.history]
          apply ih
          exact Connection.step_left _ h event

/-- A closing request is the last one. -/
def ClosingLast (processed : List (Request × Bytes)) : Prop :=
  ∀ front d back, processed = front ++ d :: back → d.1.keepalive = false → back = []

theorem closingLast_append {first second : List (Request × Bytes)}
    (hfirst : ∀ d ∈ first, d.1.keepalive = true) (hsecond : ClosingLast second) :
    ClosingLast (first ++ second) := by
  intro front d back hsplit hclosing
  rcases List.append_eq_append_iff.mp hsplit with ⟨middle, hfront, hback⟩ | ⟨middle, hmiddle, hback⟩
  · exact hsecond middle d back hback hclosing
  · cases middle with
    | nil => exact hsecond [] d back hback.symm hclosing
    | cons d' middle =>
        obtain ⟨rfl, rfl⟩ := List.cons.inj hback
        have halive := hfirst d (by rw [hmiddle]; simp)
        rw [hclosing] at halive
        cases halive

theorem closingLast_nil : ClosingLast [] := by
  intro front d back h
  simp at h

private theorem closingLast_singleton (d : Request × Bytes) : ClosingLast [d] := by
  intro front d' back h _
  cases front with
  | nil => exact (List.cons.inj h).2.symm
  | cons other front => simp at h

private theorem closingLast_call {events : List ServerEvent}
    {processed : List (Request × Bytes)} {r : Option (Option (Session (ServerState W)))}
    (hcall : (server.service sys).CallOutcome processed r)
    (hrest : ∀ t, r.join = some t → ClosingLast (server.history sys (some t) events)) :
    ClosingLast (processed ++ server.history sys r.join events) := by
  cases hcall with
  | «open» hopen =>
      apply closingLast_append hopen
      cases hjoin : r.join with
      | none =>
          rw [Server.history]
          exact closingLast_nil
      | some t => exact hrest t hjoin
  | closed front last hprocessed hfront hclosed =>
      have hnone : server.history sys r.join events = [] := by
        cases hjoin : r.join with
        | none => rw [Server.history]
        | some t =>
            apply history_closed
            rw [← isConnected_iff sys server]
            exact hclosed t (Option.join_eq_some_iff.mp hjoin)
      rw [hnone, hprocessed, List.append_nil]
      exact closingLast_append hfront (closingLast_singleton last)

/-- In every run, whatever the bytes, their segmentation and the other events
of the connection, a closing request with no empty line among the bytes that
have arrived behind it is the last request that is processed. -/
theorem no_request_after_close (s : Session (ServerState W)) (events : List ServerEvent)
    (hunread : ∀ d ∈ server.history sys (some s) events,
      d.1.keepalive = false → ¬ CRLF ++ CRLF <:+: d.2) :
    ∀ front d back, server.history sys (some s) events = front ++ d :: back →
      d.1.keepalive = false → back = [] := by
  suffices h : ClosingLast (server.history sys (some s) events) from h
  induction events generalizing s with
  | nil => exact closingLast_nil
  | cons event events ih =>
      cases event with
      | connection event =>
          rw [Server.history] at hunread ⊢
          exact ih _ hunread
      | segment bytes =>
          by_cases hconnected : (server.service sys).isConnected s.env = false
          · rw [history_closed sys server _ ((isConnected_iff sys server s.env).mp hconnected)]
            exact closingLast_nil
          · have hopen : (server.service sys).isConnected s.env = true := by
              simpa using hconnected
            have hprocessed : (server.service sys).processed { s with buf := s.buf ++ bytes } =
                ((server.service sys).visited (2 * (s.buf ++ bytes).length + 2)
                  { s with buf := s.buf ++ bytes }).filterMap (server.service sys).completes := by
              rw [Service.processed]
              simp [hopen]
            have hstep : server.step sys (some s) (.segment bytes) =
                (loop (server.service sys).pass (2 * (s.buf ++ bytes).length + 2)
                  { s with buf := s.buf ++ bytes }).join := by
              simp [Server.step, Service.receive, Service.messageHandler, hopen]
            rw [Server.history, hprocessed, hstep] at hunread ⊢
            apply closingLast_call
            · apply call_outcome (service_closes sys server)
              intro d hd
              exact hunread d (List.mem_append_left _ hd)
            · intro t ht
              apply ih
              intro d hd
              apply hunread
              rw [ht]
              exact List.mem_append_right _ hd

/-- A fresh connection of the sample server, whose socket takes every byte. -/
def Session.sample : Session (ServerState Unit) where
  env :=
    { conn := .init 0 false 0
      socket := fun _ => (0, .sent 65536)
      res := ⟨.ok, [], false, []⟩
      world := () }
  req := Request.clear (.simple .get [] [])
  buf := []

/-- A request that closes, and another one that the peer sends later. -/
def ServerEvent.closingSegments : List ServerEvent :=
  [.segment (ascii "GET /hello HTTP/1.0\r\nHost: a\r\n\r\n"),
    .segment (ascii "DELETE /x HTTP/1.1\r\nHost: a\r\n\r\n")]

/-- Only the first of the two is processed. -/
theorem no_request_after_close_segments :
    ∃ d, Server.sample.history .empty (some .sample) ServerEvent.closingSegments = [d] ∧
      d.1.keepalive = false := by
  have hne : Server.sample.history .empty (some .sample) ServerEvent.closingSegments ≠ [] := by
    rw [ne_eq, ← List.isEmpty_iff]
    decide +kernel
  have hclosing : ((Server.sample.history .empty (some .sample)
      ServerEvent.closingSegments).head hne).1.keepalive = false := by
    have hhead : ∀ d ∈ (Server.sample.history .empty (some .sample)
        ServerEvent.closingSegments).head?, d.1.keepalive = false := by
      decide +kernel
    exact hhead _ (List.head?_eq_some_head hne)
  have hlast := no_request_after_close System.empty Server.sample .sample
    ServerEvent.closingSegments (by decide +kernel) [] _ _ (List.cons_head_tail hne).symm hclosing
  refine ⟨_, ?_, hclosing⟩
  rw [← hlast]
  exact (List.cons_head_tail hne).symm

/-- Both requests in one segment: the second one is processed on the closed
connection. -/
theorem request_after_close :
    (Server.sample.history .empty (some .sample)
      [.segment (ascii "GET /hello HTTP/1.0\r\nHost: a\r\n\r\nDELETE /x HTTP/1.1\r\nHost: a\r\n\r\n")]).map
        (fun d => (d.1.reqMethod, d.1.absPath, d.1.keepalive)) =
      [(.get, ascii "/hello", false), (.delete, ascii "/x", true)] := by
  decide +kernel

end Runs

end Angel.Http
