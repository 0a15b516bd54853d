import Angel.Logger
import Angel.Lib.Cursor
import Angel.Lib.Partial
import Angel.Util

/-!
`logger::format`: how a thread makes the record of a message in its own buffer, and the time of the
record in another, of which it only renews the milliseconds within a second. Every store is in
bounds or the call has no result. `localtime_r` is a parameter, and the time is not in the first
second of the epoch.
-/

namespace Angel.Log

open Lib Lib.Store Util

/-- `logger::level`. -/
inductive Level where
  | debug
  | info
  | warn
  | error
  | fatal
  deriving DecidableEq, Repr

def Level.toNat : Level → Nat
  | .debug => 0
  | .info => 1
  | .warn => 2
  | .error => 3
  | .fatal => 4

def isFilter (logLevel level : Level) : Bool := level.toNat < logLevel.toNat

def getLevelStr : Level → Bytes
  | .debug => ascii "DEBUG: "
  | .info => ascii "INFO:  "
  | .warn => ascii "WARN:  "
  | .error => ascii "ERROR: "
  | .fatal => ascii "FATAL: "

/-- What `localtime_r` fills in, of a time behind 1900. -/
structure Tm where
  tmYear : Nat
  tmMon : Fin 12
  tmMday : Fin 32
  tmHour : Fin 24
  tmMin : Fin 60
  tmSec : Fin 61

/-- `%4d` and `%02d` of a number that is not negative, with the character that fills up. -/
def padded (fill : UInt8) (width n : Nat) : Bytes :=
  List.replicate (width - (decimal n).length) fill ++ decimal n

/-- `%d`. -/
def signed (n : Int) : Bytes := if n < 0 then 45 :: decimal n.natAbs else decimal n.natAbs

/-- The text of `"%4d-%02d-%02d %02d:%02d:%02d."`. -/
def Tm.date (tm : Tm) : Bytes :=
  padded 32 4 (tm.tmYear + 1900) ++ ascii "-" ++ padded 48 2 (tm.tmMon + 1) ++ ascii "-" ++
    padded 48 2 tm.tmMday ++ ascii " " ++ padded 48 2 tm.tmHour ++ ascii ":" ++
    padded 48 2 tm.tmMin ++ ascii ":" ++ padded 48 2 tm.tmSec ++ ascii "."

/-- The milliseconds of a second as `"%03lld"`. -/
def millis (ms : Nat) : Bytes := padded 48 3 (ms % 1000)

/-- The text is cut so that its null character has room. -/
def snprintf (ptr size : Nat) (text cells : Bytes) : Option Bytes :=
  if size = 0 then some cells else storeAll ptr (text.take (size - 1) ++ [0]) cells

/-- `strlen` from `ptr` on; there is no result if it would leave the array. -/
def strlen (ptr : Nat) (cells : Bytes) : Option Nat := (cells.drop ptr).findIdx? (· = 0)

/-- `snprintf` and `ptr += strlen(ptr)`. -/
def print (size : Nat) (text : Bytes) (cur : Cursor UInt8) : Option (Cursor UInt8) := do
  let cells ← snprintf cur.ptr size text cur.cells
  let n ← strlen cur.ptr cells
  some ⟨cur.ptr + n, cells⟩

/-- The size of `log_time_buf`. -/
def timeBufSize : Nat := 32

/-- The size of `log_output_buf`. -/
def outputBufSize : Nat := 65536

/-- The thread-local variables of `format`. -/
structure Thread where
  logCurTid : Bytes
  logTimeBuf : Bytes
  logLastSecond : Nat
  logOutputBuf : Bytes

def Thread.init (tid : Bytes) : Thread where
  logCurTid := tid
  logTimeBuf := List.replicate timeBufSize 0
  logLastSecond := 0
  logOutputBuf := List.replicate outputBufSize 0

/-- One use of `log_debug` and its siblings: with what `fmt` and its arguments make, and the
level of the logger and the time that it meets. -/
structure Call where
  level : Level
  file : Bytes
  line : Int
  text : Bytes
  logLevel : Level
  ms : Nat

section Code

variable (localtime : Nat → Tm)

def Thread.formatTime (ms : Nat) (t : Thread) : Option Thread := do
  let seconds := ms / 1000
  if seconds ≠ t.logLastSecond then
    let buf ← snprintf 0 timeBufSize ((localtime seconds).date ++ millis ms) t.logTimeBuf
    some { t with logTimeBuf := buf, logLastSecond := seconds }
  else
    -- only the milliseconds
    let buf ← snprintf 20 (timeBufSize - 20) (millis ms) t.logTimeBuf
    some { t with logTimeBuf := buf }

/-- The record comes with the thread, for `write`. -/
def Thread.format (call : Call) (t : Thread) : Option (Thread × Bytes) := do
  let cur ← (Cursor.mk 0 t.logOutputBuf).put (getLevelStr call.level)
  let t ← t.formatTime localtime call.ms
  let cur ← cur.put (t.logTimeBuf.take 23)
  let cur ← cur.put (ascii " ")
  let cur ← print (outputBufSize - 256 - cur.ptr) call.text cur
  let cur ← cur.put (ascii " - ")
  let cur ← cur.put (cStr call.file)
  let cur ← cur.put (ascii ":")
  let cur ← print (outputBufSize - cur.ptr) (signed call.line) cur
  let cur ← cur.put (ascii " - ")
  let cur ← cur.put (cStr t.logCurTid)
  let cur ← cur.put [LF]
  let cells ← store cur.ptr 0 cur.cells
  some ({ t with logOutputBuf := cells }, cells.take cur.ptr)

/-- The time of a record, all of it written anew. -/
def timeText (ms : Nat) : Bytes := (localtime (ms / 1000)).date ++ millis ms

/-- What is meant to come out of `format`: the text is cut where there is no more room for it
than the last 256 bytes, and C's strings end at a null character. -/
def record (tid : Bytes) (call : Call) : Bytes :=
  getLevelStr call.level ++ timeText localtime call.ms ++ ascii " " ++
    cStr (call.text.take (outputBufSize - 256 - 31 - 1)) ++ ascii " - " ++ cStr call.file ++
    ascii ":" ++ signed call.line ++ ascii " - " ++ cStr tid ++ [LF]

end Code

@[simp] theorem getLevelStr_length (level : Level) : (getLevelStr level).length = 7 := by
  cases level <;> decide

private theorem decimal_length_le {n k : Nat} (hk : 0 < k) (hn : n < 10 ^ k) :
    (decimal n).length ≤ k := by
  rw [decimal, List.length_map]
  exact (Nat.length_toDigits_le_iff (by decide) hk).mpr hn

theorem padded_length {fill : UInt8} {width n : Nat} (hwidth : 0 < width) (hn : n < 10 ^ width) :
    (padded fill width n).length = width := by
  have hle := decimal_length_le hwidth hn
  simp only [padded, List.length_append, List.length_replicate]
  omega

theorem millis_length (ms : Nat) : (millis ms).length = 3 :=
  padded_length (by decide) (by omega)

theorem date_length {tm : Tm} (hyear : tm.tmYear + 1900 < 10000) : tm.date.length = 20 := by
  have hpair : ∀ n, n < 100 → (padded 48 2 n).length = 2 := fun n hn =>
    padded_length (by decide) hn
  have hfour : (padded 32 4 (tm.tmYear + 1900)).length = 4 := padded_length (by decide) hyear
  have hmon := hpair (tm.tmMon + 1) (by omega)
  have hmday := hpair tm.tmMday (by omega)
  have hhour := hpair tm.tmHour (by omega)
  have hmin := hpair tm.tmMin (by omega)
  have hsec := hpair tm.tmSec (by omega)
  simp [Tm.date, ascii, hfour, hmon, hmday, hhour, hmin, hsec]

theorem timeText_length {localtime : Nat → Tm} {ms : Nat}
    (hyear : (localtime (ms / 1000)).tmYear + 1900 < 10000) :
    (timeText localtime ms).length = 23 := by
  rw [timeText, List.length_append, date_length hyear, millis_length]

theorem notMem_signed (n : Int) : 0 ∉ signed n := by
  have hdigits := notMem_decimal (c := 0) (by decide) n.natAbs
  unfold signed
  split
  · simp [hdigits]
  · exact hdigits

private theorem findIdx?_zero (s rest : Bytes) :
    (s ++ 0 :: rest).findIdx? (· = 0) = some (cStr s).length := by
  induction s with
  | nil => simp [cStr, List.findIdx?_cons]
  | cons c s ih =>
      rw [List.cons_append, List.findIdx?_cons, cStr_cons]
      split
      · next hc => simp_all
      · next hc => simp_all

theorem strlen_behind {front s cells : Bytes} (h : front ++ (s ++ [0]) <+: cells) :
    strlen front.length cells = some (cStr s).length := by
  obtain ⟨rest, rfl⟩ := h
  rw [strlen, List.append_assoc, List.drop_left, List.append_assoc]
  exact findIdx?_zero s rest

theorem cStr_free {s : Bytes} (h : 0 ∉ s) : cStr s = s := by
  have hend := cStr_append_free h []
  rw [List.append_nil] at hend
  rw [hend]
  exact List.append_nil s

theorem cStr_front (s : Bytes) : cStr s <+: s := List.takeWhile_prefix _

/-- The rule for printing in a chain of writes: the text is cut to what `size` leaves it. -/
theorem print_bind {β : Type*} {cur : Cursor UInt8} {front : Bytes} {bufSize : Nat}
    (h : cur.Behind front bufSize) {size : Nat} (hsize : 0 < size)
    (hroom : front.length + size ≤ bufSize) {text : Bytes} {k : Cursor UInt8 → Option β}
    {P : Option β → Prop}
    (hk : ∀ cur', cur'.Behind (front ++ cStr (text.take (size - 1))) bufSize → P (k cur')) :
    P ((print size text cur).bind k) := by
  have hcut : (text.take (size - 1)).length ≤ size - 1 := List.length_take_le _ _
  have hfits : (front ++ (text.take (size - 1) ++ [0])).length ≤ cur.cells.length := by
    simp only [List.length_append, List.length_singleton, h.length_eq]
    omega
  obtain ⟨cells, hstore, hwritten, hlen⟩ := storeAll_behind h.written hfits
  have hprint : print size text cur =
      some ⟨cur.ptr + (cStr (text.take (size - 1))).length, cells⟩ := by
    have hne : size ≠ 0 := Nat.ne_of_gt hsize
    rw [print, snprintf, if_neg hne, h.ptr_eq, hstore]
    simp only [Option.bind_eq_bind, Option.bind_some, strlen_behind hwritten]
  rw [hprint]
  refine hk _ ⟨?_, ?_, hlen.trans h.length_eq⟩
  · rw [h.ptr_eq, List.length_append]
  · refine List.IsPrefix.trans ?_ hwritten
    rw [List.prefix_append_right_inj]
    exact (cStr_front _).trans (List.prefix_append _ _)

theorem print_full {cur : Cursor UInt8} {front text : Bytes}
    (h : cur.Behind front front.length) : print 0 text cur = none := by
  have hend : cur.cells.drop cur.ptr = [] := by
    rw [List.drop_eq_nil_iff, h.length_eq, h.ptr_eq]
  simp [print, snprintf, strlen, hend]

section Time

variable {localtime : Nat → Tm} {tid : Bytes}

/-- The buffer of the time begins with the date of the last second. -/
structure Thread.Sound (localtime : Nat → Tm) (tid : Bytes) (t : Thread) : Prop where
  tid : t.logCurTid = tid
  timeBuf : t.logTimeBuf.length = timeBufSize
  date : t.logLastSecond ≠ 0 → (localtime t.logLastSecond).date <+: t.logTimeBuf
  outputBuf : t.logOutputBuf.length = outputBufSize

theorem sound_init : (Thread.init tid).Sound localtime tid where
  tid := rfl
  timeBuf := List.length_replicate
  date := fun h => absurd rfl h
  outputBuf := List.length_replicate

private theorem snprintf_time {front cells : Bytes} (hfront : front <+: cells)
    (hcells : cells.length = timeBufSize) (text : Bytes) (htext : front.length + text.length = 23) :
    ∃ cells', snprintf front.length (timeBufSize - front.length) text cells = some cells' ∧
      front ++ text <+: cells' ∧ cells'.length = timeBufSize := by
  have hsize : timeBufSize = 32 := rfl
  have htake : text.take (timeBufSize - front.length - 1) = text :=
    List.take_of_length_le (by omega)
  have hfits : (front ++ (text ++ [0])).length ≤ cells.length := by
    simp only [List.length_append, List.length_singleton]
    omega
  obtain ⟨cells', hstore, hwritten, hlen⟩ := storeAll_behind hfront hfits
  refine ⟨cells', ?_, ?_, hlen.trans hcells⟩
  · have hne : timeBufSize - front.length ≠ 0 := by omega
    rw [snprintf, if_neg hne, htake, hstore]
  · rw [← List.append_assoc] at hwritten
    exact (List.prefix_append _ _).trans hwritten

/-- What `format_time` renews and what it leaves make the time that it would write anew. -/
theorem formatTime_spec {t : Thread} (h : t.Sound localtime tid) {ms : Nat} (hms : 1000 ≤ ms)
    (hyear : (localtime (ms / 1000)).tmYear + 1900 < 10000) :
    ∃ t', t.formatTime localtime ms = some t' ∧ t'.Sound localtime tid ∧
      t'.logTimeBuf.take 23 = timeText localtime ms ∧ t'.logOutputBuf = t.logOutputBuf := by
  have hdate : (localtime (ms / 1000)).date.length = 20 := date_length hyear
  have htime : (timeText localtime ms).length = 23 := timeText_length hyear
  have hend : ∀ cells : Bytes, timeText localtime ms <+: cells →
      (localtime (ms / 1000)).date <+: cells ∧ cells.take 23 = timeText localtime ms := by
    intro cells hwritten
    refine ⟨(List.prefix_append _ _).trans hwritten, ?_⟩
    rw [← htime]
    exact (List.prefix_iff_eq_take.mp hwritten).symm
  obtain hsame | hnew := eq_or_ne (ms / 1000) t.logLastSecond
  · have hcached : (localtime (ms / 1000)).date <+: t.logTimeBuf := by
      rw [hsame]
      apply h.date
      rw [← hsame]
      omega
    obtain ⟨cells, hprint, hwritten, hlen⟩ := snprintf_time hcached h.timeBuf
      (millis ms) (by rw [hdate, millis_length])
    rw [hdate] at hprint
    refine ⟨{ t with logTimeBuf := cells }, ?_, ⟨h.tid, hlen, ?_, h.outputBuf⟩,
      (hend cells hwritten).2, rfl⟩
    · simp [Thread.formatTime, hsame, hprint]
    · intro _
      exact hsame ▸ (hend cells hwritten).1
  · obtain ⟨cells, hprint, hwritten, hlen⟩ := snprintf_time (List.nil_prefix (l := t.logTimeBuf))
      h.timeBuf (timeText localtime ms) (by rw [htime, List.length_nil])
    rw [List.nil_append] at hwritten
    refine ⟨{ t with logTimeBuf := cells, logLastSecond := ms / 1000 }, ?_,
      ⟨h.tid, hlen, ?_, h.outputBuf⟩, (hend cells hwritten).2, rfl⟩
    · have hbuf : snprintf 0 timeBufSize ((localtime (ms / 1000)).date ++ millis ms) t.logTimeBuf =
          some cells := hprint
      simp [Thread.formatTime, hnew, hbuf]
    · intro _
      exact (hend cells hwritten).1

/-- The result is the record, if it fits with its null character, and else none. -/
def Outcome (localtime : Nat → Tm) (tid : Bytes) (call : Call) (r : Option (Thread × Bytes)) : Prop :=
  ((record localtime tid call).length < outputBufSize →
    ∃ t, r = some (t, record localtime tid call) ∧ t.Sound localtime tid) ∧
  (outputBufSize ≤ (record localtime tid call).length → r = none)

theorem outcome_none {call : Call} (h : outputBufSize ≤ (record localtime tid call).length) :
    Outcome localtime tid call none :=
  ⟨fun hlt => absurd h (Nat.not_le.mpr hlt), fun _ => rfl⟩

/-- The rule for a piece of the record: the rest of the chain has to make the record. -/
theorem put_piece {call : Call} {cur : Cursor UInt8} {front : Bytes}
    (h : cur.Behind front outputBufSize) {data : Bytes}
    (hpiece : front ++ data <+: record localtime tid call)
    {k : Cursor UInt8 → Option (Thread × Bytes)}
    (hk : (front ++ data).length ≤ outputBufSize → ∀ cur', cur'.Behind (front ++ data) outputBufSize →
      Outcome localtime tid call (k cur')) :
    Outcome localtime tid call ((cur.put data).bind k) := by
  refine h.put_bind (fun hfull => ?_) hk
  exact outcome_none (hfull.le.trans hpiece.length_le)

private theorem store_null {cur : Cursor UInt8} {front : Bytes} {size : Nat}
    (h : cur.Behind front size)
    (hle : front.length ≤ size) :
    (front.length < size ∧ ∃ cells, store cur.ptr 0 cur.cells = some cells ∧
      cells.take cur.ptr = front ∧ cells.length = size) ∨
    front.length = size ∧ store cur.ptr 0 cur.cells = none := by
  have hin : cur.ptr < cur.cells.length ↔ front.length < size := by rw [h.ptr_eq, h.length_eq]
  obtain hfull | hfits := hle.eq_or_lt
  · have hout : ¬ cur.ptr < cur.cells.length := fun hlt => Nat.ne_of_lt (hin.mp hlt) hfull
    exact .inr ⟨hfull, by rw [store, if_neg hout]⟩
  · refine .inl ⟨hfits, cur.cells.set cur.ptr 0, by rw [store, if_pos (hin.mpr hfits)], ?_, ?_⟩
    · rw [List.take_set_of_le (Nat.le_refl _)]
      exact h.take_ptr
    · rw [List.length_set, h.length_eq]

/-- However the pieces of a record are, `format` makes all of it or leaves its buffer. -/
theorem format_spec {t : Thread} (h : t.Sound localtime tid) {call : Call} (hms : 1000 ≤ call.ms)
    (hyear : (localtime (call.ms / 1000)).tmYear + 1900 < 10000) :
    Outcome localtime tid call (t.format localtime call) := by
  obtain ⟨t', htime, ht', htext, hbuf⟩ := formatTime_spec h hms hyear
  have hsize : outputBufSize = 65536 := rfl
  have hblank : (ascii " ").length = 1 := rfl
  have hdash : (ascii " - ").length = 3 := rfl
  have hstart := behind_start t.logOutputBuf
  rw [h.outputBuf] at hstart
  unfold Thread.format
  simp only [Option.bind_eq_bind]
  refine put_piece hstart (by simp [record]) ?_
  intro _ cur₁ h₁
  rw [htime, Option.bind_some, htext]
  refine put_piece h₁ (by simp [record]) ?_
  intro _ cur₂ h₂
  refine put_piece h₂ (by simp [record]) ?_
  intro _ cur₃ h₃
  have hptr : cur₃.ptr = 31 := by
    rw [h₃.ptr_eq]
    simp only [List.nil_append, List.length_append, getLevelStr_length, timeText_length hyear, hblank]
  rw [hptr]
  refine print_bind h₃ (by omega) ?_ ?_
  · rw [← h₃.ptr_eq, hptr]
    omega
  intro cur₄ h₄
  refine put_piece h₄ (by simp [record]) ?_
  intro _ cur₅ h₅
  refine put_piece h₅ (by simp [record]) ?_
  intro _ cur₆ h₆
  refine put_piece h₆ (by simp [record]) ?_
  intro hroom cur₇ h₇
  rw [h₇.ptr_eq]
  set front := [] ++ getLevelStr call.level ++ timeText localtime call.ms ++ ascii " " ++
    cStr (call.text.take (outputBufSize - 256 - 31 - 1)) ++ ascii " - " ++ cStr call.file ++
    ascii ":" with hfront
  have hrecord : record localtime tid call =
      front ++ signed call.line ++ ascii " - " ++ cStr tid ++ [LF] := by
    rw [hfront, List.nil_append, record]
  obtain hend | hsome := hroom.eq_or_lt
  · -- the array ends behind the colon
    rw [← hend, Nat.sub_self, print_full (hend ▸ h₇)]
    apply outcome_none
    simp only [hrecord, List.length_append] at hend ⊢
    omega
  refine print_bind h₇ (Nat.sub_pos_of_lt hsome) (by omega) ?_
  intro cur₈ h₈
  have hfree : 0 ∉ (signed call.line).take (outputBufSize - front.length - 1) := fun hmem =>
    notMem_signed _ (List.mem_of_mem_take hmem)
  rw [cStr_free hfree] at h₈
  obtain hshort | hcut := Nat.lt_or_ge (signed call.line).length (outputBufSize - front.length)
  · rw [List.take_of_length_le (by omega)] at h₈
    refine put_piece h₈ (by simp [hrecord]) ?_
    intro _ cur₉ h₉
    refine put_piece h₉ (by simp [hrecord, ht'.tid]) ?_
    intro _ cur₁₀ h₁₀
    refine put_piece h₁₀ (by simp [hrecord, ht'.tid]) ?_
    intro hle cur₁₁ h₁₁
    rw [ht'.tid, ← hrecord] at h₁₁ hle
    obtain ⟨hfits, cells, hstore, htake, hlen⟩ | ⟨hfull, hstore⟩ := store_null h₁₁ hle
    · rw [hstore, Option.bind_some, htake]
      refine ⟨fun _ => ⟨_, rfl, ?_⟩, fun hge => absurd hge (Nat.not_le.mpr hfits)⟩
      exact ⟨ht'.tid, ht'.timeBuf, ht'.date, hlen⟩
    · rw [hstore]
      exact outcome_none hfull.ge
  · -- the number was cut, and nothing fits behind its null character
    refine h₈.put_bind (fun _ => outcome_none ?_) ?_
    · simp only [hrecord, List.length_append]
      omega
    · intro hle
      simp only [List.length_append, List.length_take] at hle
      omega

end Time

end Angel.Log
