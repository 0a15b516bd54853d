import Angel.Basic
import Angel.Lib.Loop
import Angel.Lib.Partial

/-!
The input of an `ssl_connection`: what is read from the socket goes through `ssl_filter::decrypt` to
the message handler. OpenSSL is a parameter. A memory BIO takes all that is written to it. What a
read of the socket without data leads to (`handle_close`, `handle_error`) is not part of a run.
-/

namespace Angel.SslFilter

open Lib

/-- What `SSL_read` returns. -/
inductive ReadResult where
  | got (data : Bytes)
  | wantRead
  | wantWrite
  | failed
  deriving DecidableEq, Repr

/-- OpenSSL, reading from a memory BIO. -/
structure Tls (σ : Type) where
  bioWrite : σ → Bytes → σ
  sslRead : σ → Nat → σ × ReadResult

/-- The size of `ssl_filter::buf`. -/
def bufSize : Nat := 1024

structure Conn (σ : Type) where
  ssl : σ
  inputBuf : Bytes
  decrypted : Bytes
  /-- whether `message_handler` is set -/
  messageHandler : Bool
  /-- what the handler has retrieved from `decrypted` -/
  taken : Bytes
  /-- whether the last `SSL_read` wanted to write -/
  wantedWrite : Bool

/-- Data comes from the socket, and if the handler is called it retrieves `n` bytes; or the user
sets the handler. -/
inductive Event where
  | read (data : Bytes) (n : Nat)
  | setMessageHandler
  deriving DecidableEq, Repr

variable {σ : Type}

section Code

variable (tls : Tls σ) (fuel : Nat)

/-- One pass of the loop in `decrypt`. -/
def readPass (s : σ × Bytes) : Pass (σ × Bytes) (σ × Bytes × Bool) :=
  match tls.sslRead s.1 bufSize with
  | (ssl, .got data) => .again (ssl, s.2 ++ data)
  | (ssl, .wantWrite) => .done (ssl, s.2, true)
  | (ssl, .wantRead) => .done (ssl, s.2, false)
  | (ssl, .failed) => .done (ssl, s.2, false)

def decrypt (ssl : σ) (input decrypted : Bytes) : Option (σ × Bytes × Bool) :=
  let ssl := if input ≠ [] then tls.bioWrite ssl input else ssl
  loop (readPass tls) fuel (ssl, decrypted)

namespace Conn

def init (ssl : σ) : Conn σ where
  ssl := ssl
  inputBuf := []
  decrypted := []
  messageHandler := false
  taken := []
  wantedWrite := false

/-- `handle_message` of an `ssl_connection`. -/
def handleMessage (n : Nat) (s : Conn σ) : Option (Conn σ) := do
  let (ssl, decrypted, wantedWrite) ← decrypt tls fuel s.ssl s.inputBuf s.decrypted
  let s := { s with ssl := ssl, inputBuf := [], decrypted := decrypted, wantedWrite := wantedWrite }
  if decrypted ≠ [] then
    some { s with taken := s.taken ++ decrypted.take n, decrypted := decrypted.drop n }
  else some s

/-- `handle_read`. Without a handler the data is discarded. -/
def step (s : Conn σ) : Event → Option (Conn σ)
  | .read data n =>
      let s := { s with inputBuf := s.inputBuf ++ data }
      if s.messageHandler then s.handleMessage tls fuel n else some { s with inputBuf := [] }
  | .setMessageHandler => some { s with messageHandler := true }

end Conn

end Code

/-- What the connection relies on. `received` is what was written to the BIO and `delivered` what
`SSL_read` has returned, both up to now; `plain` is what can be decrypted of a ciphertext. A call
that wants to read has returned all of it before. -/
structure Tls.Decrypts (tls : Tls σ) (received delivered : σ → Bytes) (plain : Bytes → Bytes) :
    Prop where
  nil : plain [] = []
  monotone : ∀ front rest, plain front <+: plain (front ++ rest)
  bioWrite : ∀ ssl data, received (tls.bioWrite ssl data) = received ssl ++ data ∧
    delivered (tls.bioWrite ssl data) = delivered ssl
  kept : ∀ ssl n, received (tls.sslRead ssl n).1 = received ssl
  got : ∀ ssl n data, (tls.sslRead ssl n).2 = .got data → data ≠ [] ∧
    delivered (tls.sslRead ssl n).1 = delivered ssl ++ data ∧
    delivered ssl ++ data <+: plain (received ssl)
  wanted : ∀ ssl n, (∀ data, (tls.sslRead ssl n).2 ≠ .got data) →
    delivered (tls.sslRead ssl n).1 = delivered ssl
  ended : ∀ ssl n, 0 < n → (tls.sslRead ssl n).2 = .wantRead ∨ (tls.sslRead ssl n).2 = .failed →
    delivered ssl = plain (received ssl)

/-- The ciphertext that comes while a handler is set. -/
def encrypted : Bool → List Event → Bytes
  | _, [] => []
  | set, .read data _ :: events => (if set then data else []) ++ encrypted set events
  | _, .setMessageHandler :: events => encrypted true events

variable {tls : Tls σ} {fuel : Nat} {received delivered : σ → Bytes} {plain : Bytes → Bytes}

/-- What has been decrypted of `cipher`, with `before` handed on earlier. -/
structure Reading (received delivered : σ → Bytes) (plain : Bytes → Bytes) (cipher before : Bytes)
    (ssl : σ) (decrypted : Bytes) : Prop where
  given : received ssl = cipher
  handed : before ++ decrypted = delivered ssl
  front : delivered ssl <+: plain cipher

private theorem readPass_spec (h : tls.Decrypts received delivered plain) {cipher before : Bytes}
    (s : σ × Bytes) (hs : Reading received delivered plain cipher before s.1 s.2) :
    (∃ s', readPass tls s = .again s' ∧
      Reading received delivered plain cipher before s'.1 s'.2 ∧
      (plain cipher).length - (delivered s'.1).length <
        (plain cipher).length - (delivered s.1).length) ∨
    ∃ r, readPass tls s = .done r ∧ Reading received delivered plain cipher before r.1 r.2.1 ∧
      (r.2.2 = false → before ++ r.2.1 = plain cipher) := by
  obtain ⟨ssl, decrypted⟩ := s
  obtain ⟨hreceived, hdelivered, hfront⟩ := hs
  dsimp only at hreceived hdelivered hfront
  have hkept := (h.kept ssl bufSize).trans hreceived
  have hended := h.ended ssl bufSize (by decide)
  have hwanted := h.wanted ssl bufSize
  have hgot := h.got ssl bufSize
  unfold readPass
  dsimp only
  generalize tls.sslRead ssl bufSize = answer at hkept hended hwanted hgot ⊢
  obtain ⟨ssl', r⟩ := answer
  dsimp only at hkept hended hwanted hgot ⊢
  cases r with
  | got data =>
      obtain ⟨hne, hmore, hnext⟩ := hgot data rfl
      have hpos : 0 < data.length := List.length_pos_iff.mpr hne
      rw [hreceived, ← hmore] at hnext
      have hle := hnext.length_le
      refine .inl ⟨(ssl', decrypted ++ data), rfl, ⟨hkept, ?_, hnext⟩, ?_⟩
      · rw [hmore, ← hdelivered, List.append_assoc]
      · rw [hmore, List.length_append] at hle ⊢
        omega
  | wantWrite =>
      have hsame := hwanted nofun
      refine .inr ⟨_, rfl, ⟨hkept, hdelivered.trans hsame.symm, ?_⟩, nofun⟩
      rw [hsame]
      exact hfront
  | wantRead | failed =>
      have hsame := hwanted nofun
      refine .inr ⟨_, rfl, ⟨hkept, hdelivered.trans hsame.symm, ?_⟩, fun _ => ?_⟩
      · rw [hsame]
        exact hfront
      · rw [hdelivered, hended (by simp), hreceived]

/-- `decrypt` ends, with all that can be decrypted unless OpenSSL wants to write. -/
theorem decrypt_spec (h : tls.Decrypts received delivered plain) {ssl : σ}
    {cipher before decrypted input : Bytes}
    (hs : Reading received delivered plain cipher before ssl decrypted)
    (hfuel : (plain (cipher ++ input)).length < fuel) :
    ∃ r, decrypt tls fuel ssl input decrypted = some r ∧
      Reading received delivered plain (cipher ++ input) before r.1 r.2.1 ∧
      (r.2.2 = false → before ++ r.2.1 = plain (cipher ++ input)) := by
  have hstart : Reading received delivered plain (cipher ++ input) before
      (if input ≠ [] then tls.bioWrite ssl input else ssl) decrypted := by
    obtain ⟨hreceived, hdelivered, hfront⟩ := hs
    split
    · obtain ⟨hwritten, hsame⟩ := h.bioWrite ssl input
      refine ⟨by rw [hwritten, hreceived], hdelivered.trans hsame.symm, ?_⟩
      rw [hsame]
      exact hfront.trans (h.monotone cipher input)
    · next hnone =>
        obtain rfl := not_not.mp hnone
        rw [List.append_nil]
        exact ⟨hreceived, hdelivered, hfront⟩
  exact loop_spec (fun s => (plain (cipher ++ input)).length - (delivered s.1).length)
    (readPass_spec h) hstart (Nat.lt_of_le_of_lt (Nat.sub_le ..) hfuel)

/-- The connection has decrypted and handed on what is left of `cipher`. -/
structure Conn.Passes (received delivered : σ → Bytes) (plain : Bytes → Bytes) (cipher : Bytes)
    (s : Conn σ) : Prop where
  empty : s.inputBuf = []
  reading : Reading received delivered plain cipher s.taken s.ssl s.decrypted
  all : s.wantedWrite = false → s.taken ++ s.decrypted = plain cipher

private theorem handleMessage_passes (h : tls.Decrypts received delivered plain) {cipher : Bytes}
    {s : Conn σ} (hs : s.Passes received delivered plain cipher) (data : Bytes) (n : Nat)
    (hfuel : (plain (cipher ++ data)).length < fuel) :
    ∃ s', ({ s with inputBuf := s.inputBuf ++ data } : Conn σ).handleMessage tls fuel n = some s' ∧
      s'.Passes received delivered plain (cipher ++ data) ∧ s'.messageHandler = s.messageHandler := by
  obtain ⟨r, hdecrypt, hreading, hall⟩ := decrypt_spec h hs.reading hfuel
  obtain ⟨ssl, decrypted, wantedWrite⟩ := r
  unfold Conn.handleMessage
  simp only [hs.empty, List.nil_append, hdecrypt, Option.bind_eq_bind, Option.bind_some]
  have htaken : s.taken ++ decrypted.take n ++ decrypted.drop n = s.taken ++ decrypted := by
    rw [List.append_assoc, List.take_append_drop]
  split
  · refine ⟨_, rfl, ⟨rfl, ⟨hreading.given, ?_, hreading.front⟩, ?_⟩, rfl⟩
    · exact htaken.trans hreading.handed
    · exact fun hwanted => htaken.trans (hall hwanted)
  · exact ⟨_, rfl, ⟨rfl, hreading, hall⟩, rfl⟩

private theorem run_passes (h : tls.Decrypts received delivered plain) {events : List Event}
    {cipher : Bytes} {s : Conn σ} (hs : s.Passes received delivered plain cipher)
    (hfuel : (plain (cipher ++ encrypted s.messageHandler events)).length < fuel) :
    ∃ s', events.foldlM (Conn.step tls fuel) s = some s' ∧
      s'.Passes received delivered plain (cipher ++ encrypted s.messageHandler events) := by
  induction events generalizing cipher s with
  | nil =>
      refine ⟨s, rfl, ?_⟩
      rw [encrypted, List.append_nil]
      exact hs
  | cons e events ih =>
      rw [List.foldlM_cons]
      cases e with
      | read data n =>
          rw [encrypted, ← List.append_assoc] at hfuel ⊢
          unfold Conn.step
          dsimp only
          obtain hset | hunset := Bool.eq_false_or_eq_true s.messageHandler
          · simp only [if_pos hset] at hfuel ⊢
            have hfirst : (plain (cipher ++ data)).length < fuel :=
              Nat.lt_of_le_of_lt (h.monotone _ _).length_le hfuel
            obtain ⟨s', hstep, hpasses, hsame⟩ := handleMessage_passes h hs data n hfirst
            rw [hstep, Option.bind_eq_bind, Option.bind_some]
            rw [← hsame] at hfuel ⊢
            exact ih hpasses hfuel
          · have hnot : ¬ s.messageHandler = true := by simp [hunset]
            simp only [if_neg hnot, List.append_nil] at hfuel ⊢
            have hdropped : ({ s with inputBuf := [] } : Conn σ).Passes received delivered plain
                cipher := ⟨rfl, hs.reading, hs.all⟩
            exact ih hdropped hfuel
      | setMessageHandler =>
          have hsetter : ({ s with messageHandler := true } : Conn σ).Passes received delivered plain
              cipher := ⟨hs.empty, hs.reading, hs.all⟩
          exact ih hsetter hfuel

/-- However the ciphertext is cut into reads, what the handler has retrieved and what waits for it
are together the front of what can be decrypted of it, and all of that unless OpenSSL wanted to
write. The ciphertext is what has come since a handler was set: all before is lost. -/
theorem input_exact (h : tls.Decrypts received delivered plain) {ssl : σ}
    (hreceived : received ssl = []) (hdelivered : delivered ssl = []) {events : List Event}
    (hfuel : (plain (encrypted false events)).length < fuel) :
    ∃ s, events.foldlM (Conn.step tls fuel) (Conn.init ssl) = some s ∧ s.inputBuf = [] ∧
      received s.ssl = encrypted false events ∧
      s.taken ++ s.decrypted <+: plain (encrypted false events) ∧
      (s.wantedWrite = false → s.taken ++ s.decrypted = plain (encrypted false events)) := by
  have hstart : (Conn.init ssl).Passes received delivered plain [] := by
    have hfront : delivered ssl <+: plain [] := by
      rw [hdelivered]
      exact List.nil_prefix
    exact ⟨rfl, ⟨hreceived, hdelivered.symm, hfront⟩, fun _ => h.nil.symm⟩
  obtain ⟨s, hs, hempty, hreading, hall⟩ := run_passes h hstart hfuel
  refine ⟨s, hs, hempty, hreading.given, ?_, hall⟩
  rw [hreading.handed]
  exact hreading.front

/-- The null cipher: what was returned, and what can be read next. -/
def null : Tls (Bytes × Bytes) where
  bioWrite ssl data := (ssl.1, ssl.2 ++ data)
  sslRead ssl n :=
    match ssl.2.take n with
    | [] => (ssl, .wantRead)
    | b :: data => ((ssl.1 ++ b :: data, ssl.2.drop n), .got (b :: data))

private theorem null_decrypts :
    null.Decrypts (fun ssl => ssl.1 ++ ssl.2) (fun ssl => ssl.1) id where
  nil := rfl
  monotone front rest := List.prefix_append front rest
  bioWrite ssl data := ⟨(List.append_assoc ..).symm, rfl⟩
  kept ssl n := by
    unfold null
    dsimp only
    split
    · rfl
    · next b data hnext =>
        dsimp only
        rw [← hnext, List.append_assoc, List.take_append_drop]
  got ssl n data hgot := by
    unfold null at hgot ⊢
    dsimp only at hgot ⊢
    split at hgot
    · cases hgot
    · next b more hnext =>
        obtain rfl : b :: more = data := by simpa using hgot
        refine ⟨by simp, rfl, ?_⟩
        rw [← hnext]
        exact (List.prefix_append_right_inj ssl.1).mpr (List.take_prefix n ssl.2)
  wanted ssl n hnone := by
    unfold null at hnone ⊢
    dsimp only at hnone ⊢
    split
    · rfl
    · next b data hnext =>
        rw [hnext] at hnone
        exact absurd rfl (hnone (b :: data))
  ended ssl n hn hlast := by
    unfold null at hlast
    dsimp only at hlast
    split at hlast
    · next hnext =>
        obtain hzero | hempty := List.take_eq_nil_iff.mp hnext
        · omega
        · simp [hempty]
    · simp at hlast

/-- Two bytes come before the handler is set, then two reads of which it retrieves three bytes. -/
theorem input_exact_null :
    ∃ s, [Event.read [1, 2] 0, .setMessageHandler, .read [3, 4] 1, .read [5] 2].foldlM
        (Conn.step null 9) (Conn.init ([], [])) = some s ∧ s.inputBuf = [] ∧
      s.ssl.1 ++ s.ssl.2 = [3, 4, 5] ∧ s.taken ++ s.decrypted <+: [3, 4, 5] ∧
      (s.wantedWrite = false → s.taken ++ s.decrypted = [3, 4, 5]) :=
  input_exact null_decrypts rfl rfl (by decide)

end Angel.SslFilter
