import Angel.Websocket.Handshake
import Angel.Buffer.Lines

/-!
The ranges that the handshake searches and copies. The end of the search for the
URI is a constant away from the end of the line, so it is in front of its start
on a line that is too short.
-/

namespace Angel.Websocket

open Angel.Lib Util Buffer

/-- Where `std::find` ends: at the blank behind the URI or at the end of its
range. -/
def uriEnd (buf : Bytes) (crlf : Nat) : Nat :=
  let range := (buf.drop 4).take (crlf - 8)
  4 + (find (ascii " ") range).getD range.length

/-- The ranges, as the offsets of their first byte and of their end, that
`handshake(buf, crlf)` searches or copies: on the request line the search for the
blank, the URI and the version; on a header line the value. -/
def handshakeRanges (ctx : Context) (buf : Bytes) (crlf : Nat) : List (Int × Int) :=
  if ctx.readRequestLine then
    if !startsWith buf (ascii "GET ") then []
    else
      [(4, (crlf : Int) - 4), (4, (uriEnd buf crlf : Int)),
        ((uriEnd buf crlf : Int) + 1, (crlf : Int))]
  else if startsWith buf CRLF then []
  else
    match Required.all.find? fun r => startsWithCase buf r.field with
    | none => []
    | some r => [((r.field.length : Int), (crlf : Int))]

/-- A range of the line that ends at `crlf`. -/
def InLine (crlf : Nat) (range : Int × Int) : Prop :=
  0 ≤ range.1 ∧ range.1 ≤ range.2 ∧ range.2 ≤ crlf

structure StaysInLine (hton64 : Nat → Nat) (ctx : Context) (buf : Bytes) (crlf : Nat) : Prop where
  ranges : ∀ range ∈ handshakeRanges ctx buf crlf, InLine crlf range
  request : ctx.readRequestLine = true → ∀ ctx' buf',
    handshakeLine hton64 ctx buf crlf = .ok (.handshake, ctx', buf') →
      ∃ uri, buf.take crlf = ascii "GET " ++ uri ++ ascii " HTTP/1.1" ∧ 32 ∉ uri

theorem find_blank {range : Bytes} {i : Nat} (h : find (ascii " ") range = some i) :
    ∃ uri rest, range = uri ++ 32 :: rest ∧ uri.length = i ∧ 32 ∉ uri := by
  have hblank : ascii " " = [32] := by decide
  rw [hblank, find_byte] at h
  split at h
  · next hmem =>
      obtain ⟨uri, rest, rfl, hfree⟩ := List.eq_append_cons_of_mem hmem
      refine ⟨uri, rest, rfl, ?_, hfree⟩
      rw [idxOf_separator hfree] at h
      exact Option.some.inj h
  · cases h

/-- A line is its four first bytes, the range that is searched and its four
last bytes. -/
theorem line_parts {line rest : Bytes} (hget : startsWith (line ++ CRLF ++ rest) (ascii "GET ") = true)
    (hlen : 8 ≤ line.length) :
    ∃ range tail, line = ascii "GET " ++ range ++ tail ∧ tail.length = 4 ∧
      ((line ++ CRLF ++ rest).drop 4).take (line.length - 8) = range := by
  rw [startsWith_line (by decide)] at hget
  obtain ⟨text, rfl⟩ := List.isPrefixOf_iff_prefix.mp hget
  have hget : (ascii "GET ").length = 4 := by decide
  rw [List.length_append, hget] at hlen
  refine ⟨text.take (text.length - 4), text.drop (text.length - 4), ?_, ?_, ?_⟩
  · rw [List.append_assoc, List.take_append_drop]
  · rw [List.length_drop]
    omega
  · rw [List.length_append, hget, List.append_assoc, List.append_assoc, List.drop_left' hget,
      List.take_append_of_le_length (by omega)]
    congr 1
    omega

theorem uriEnd_le {line rest : Bytes}
    (hget : startsWith (line ++ CRLF ++ rest) (ascii "GET ") = true) (hlen : 8 ≤ line.length) :
    4 ≤ uriEnd (line ++ CRLF ++ rest) line.length ∧
      uriEnd (line ++ CRLF ++ rest) line.length ≤ line.length - 4 := by
  obtain ⟨range, tail, hline, htail, hrange⟩ := line_parts hget hlen
  have hsize : line.length = 4 + range.length + 4 := by
    rw [hline, List.length_append, List.length_append, htail]
    rfl
  rw [uriEnd, hrange]
  cases hfind : find (ascii " ") range with
  | none =>
      dsimp only [Option.getD_none]
      omega
  | some i =>
      obtain ⟨uri, behind, hcut, rfl, _⟩ := find_blank hfind
      have hle : uri.length ≤ range.length := by
        rw [hcut, List.length_append]
        omega
      dsimp only [Option.getD_some]
      omega

/-- The version is compared with what is behind the first blank, and without a
blank in the range there are three bytes left of the line. -/
theorem requestLine_handshake {ctx ctx' : Context} {line rest buf' : Bytes}
    (h : requestLine ctx (line ++ CRLF ++ rest) line.length = .ok (.handshake, ctx', buf')) :
    ∃ uri, line = ascii "GET " ++ uri ++ ascii " HTTP/1.1" ∧ 32 ∉ uri := by
  rw [requestLine] at h
  simp only [take_line] at h
  split at h
  · cases h
  next hget =>
  rw [Bool.not_eq_true', Bool.not_eq_false] at hget
  split at h
  · cases h
  next hlen =>
  obtain ⟨range, tail, hline, htail, hrange⟩ := line_parts hget (Nat.le_of_not_lt hlen)
  rw [hrange] at h
  split at h
  · cases h
  next hversion =>
  rw [not_not] at hversion
  have hfour : (ascii "GET ").length = 4 := by decide
  cases hfind : find (ascii " ") range with
  | none =>
      exfalso
      have hsize := congrArg List.length hversion
      rw [hfind, Option.getD_none, List.length_drop, hline, List.length_append,
        List.length_append, hfour, htail] at hsize
      have height : (ascii "HTTP/1.1").length = 8 := by decide
      omega
  | some i =>
      obtain ⟨uri, behind, rfl, rfl, hfree⟩ := find_blank hfind
      refine ⟨uri, ?_, hfree⟩
      have hshape : line = (ascii "GET " ++ uri ++ [32]) ++ (behind ++ tail) := by
        rw [hline]
        simp only [List.append_assoc, List.cons_append, List.nil_append]
      have hdrop : line.drop (4 + uri.length + 1) = behind ++ tail := by
        rw [hshape]
        apply List.drop_left'
        rw [List.length_append, List.length_append, hfour]
        rfl
      rw [hfind, Option.getD_some, hdrop] at hversion
      rw [hshape, hversion]
      have hblank : ascii " HTTP/1.1" = [32] ++ ascii "HTTP/1.1" := by decide
      rw [hblank, List.append_assoc, List.append_assoc]

private theorem header_ranges {ctx : Context} {line rest : Bytes}
    (hfirst : ctx.readRequestLine = false) :
    ∀ range ∈ handshakeRanges ctx (line ++ CRLF ++ rest) line.length, InLine line.length range := by
  intro range hrange
  rw [handshakeRanges, hfirst, if_neg (by decide)] at hrange
  simp only [names_buffer] at hrange
  split at hrange
  · exact absurd hrange List.not_mem_nil
  · split at hrange
    · exact absurd hrange List.not_mem_nil
    · next r hfind =>
        have hnames : startsWithCase line r.field = true :=
          List.find?_some (p := fun r : Required => startsWithCase line r.field) hfind
        rw [startsWithCase, Bool.and_eq_true, decide_eq_true_eq] at hnames
        rw [List.mem_singleton.mp hrange]
        exact ⟨Int.natCast_nonneg _, Int.ofNat_le.mpr hnames.1, Int.le_refl _⟩

/-- The handshake stays in its line, and takes only well-formed request lines,
exactly when the line is no request line of less than eight bytes. -/
theorem staysInLine_iff (hton64 : Nat → Nat) (ctx : Context) (buf : Bytes) (crlf : Nat)
    (hcrlf : findCrlf buf = some crlf) :
    StaysInLine hton64 ctx buf crlf ↔
      ¬ (ctx.readRequestLine = true ∧ startsWith buf (ascii "GET ") = true ∧ crlf < 8) := by
  obtain ⟨line, rest, rfl, rfl, _⟩ := findCrlf_some hcrlf
  constructor
  · rintro h ⟨hfirst, hget, hshort⟩
    have hmem : ((4 : Int), (line.length : Int) - 4) ∈
        handshakeRanges ctx (line ++ CRLF ++ rest) line.length := by
      rw [handshakeRanges, hfirst, if_pos rfl, hget]
      exact List.mem_cons_self
    have hrange := (h.ranges _ hmem).2.1
    dsimp only at hrange
    omega
  · intro hshort
    have hrequest : ctx.readRequestLine = true → ∀ ctx' buf',
        handshakeLine hton64 ctx (line ++ CRLF ++ rest) line.length = .ok (.handshake, ctx', buf') →
          ∃ uri, (line ++ CRLF ++ rest).take line.length =
            ascii "GET " ++ uri ++ ascii " HTTP/1.1" ∧ 32 ∉ uri := by
      intro hfirst ctx' buf' hrun
      rw [handshakeLine, if_pos hfirst] at hrun
      rw [take_line]
      exact requestLine_handshake hrun
    refine ⟨?_, hrequest⟩
    cases hfirst : ctx.readRequestLine with
    | false => exact header_ranges hfirst
    | true =>
        intro range hrange
        rw [handshakeRanges, hfirst, if_pos rfl] at hrange
        split at hrange
        · exact absurd hrange List.not_mem_nil
        next hget =>
        rw [Bool.not_eq_true', Bool.not_eq_false] at hget
        have hlen : 8 ≤ line.length := by
          apply Nat.le_of_not_lt
          intro hlt
          exact hshort ⟨hfirst, hget, hlt⟩
        obtain ⟨hlow, hhigh⟩ := uriEnd_le hget hlen
        simp only [List.mem_cons, List.not_mem_nil, or_false] at hrange
        rcases hrange with rfl | rfl | rfl
        · exact ⟨by dsimp only; omega, by dsimp only; omega, by dsimp only; omega⟩
        · exact ⟨by dsimp only; omega, by dsimp only; omega, by dsimp only; omega⟩
        · exact ⟨by dsimp only; omega, by dsimp only; omega, by dsimp only; omega⟩

theorem staysInLine_request :
    StaysInLine id (.create false) (ascii "GET /chat HTTP/1.1\r\n") 18 :=
  (staysInLine_iff id (.create false) (ascii "GET /chat HTTP/1.1\r\n") 18 (by decide)).mpr
    fun h => absurd h.2.2 (by decide)

/-- The search on the line `GET ` ends four bytes in front of its start. -/
theorem staysInLine_fails : ¬ ∀ (hton64 : Nat → Nat) (ctx : Context) (buf : Bytes) (crlf : Nat),
    findCrlf buf = some crlf → StaysInLine hton64 ctx buf crlf := by
  intro h
  have hrange := (h id (.create false) (ascii "GET \r\n") 4 (by decide)).ranges (4, 0) (by decide)
  exact absurd hrange.2.1 (by decide)

end Angel.Websocket
