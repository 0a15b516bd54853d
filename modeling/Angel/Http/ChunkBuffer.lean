import Angel.Http.ChunkedSend

/-!
What `send_chunk` and `send_done` hand to the connection in whatever pieces: the
header block and the chunks of the coding, once there is a first chunk.
-/

namespace Angel.Http

open Util

/-- A chunk of the coding: the size in hexadecimal, the data, two line ends. -/
def plainChunk (chunk : Bytes) : Bytes := hexSize chunk.length ++ CRLF ++ chunk ++ CRLF

section

variable (order : Headers → Headers) (now : Tm) (res : Response) (chunks : List Bytes)

/-- The stream is the header block, the chunks and the last chunk, and the
object is ready for another response. -/
structure SendsChunks : Prop where
  stream : sentBytes (res.execAll order now (chunkedCalls chunks)).2 =
    res.chunkedBlock order now ++ chunks.flatMap plainChunk ++ lastChunk
  emptied : (res.execAll order now (chunkedCalls chunks)).1.chunkedBuf = []
  closed : (res.execAll order now (chunkedCalls chunks)).1.chunked = false

theorem chunkedCalls_closed :
    (res.execAll order now (chunkedCalls chunks)).1.chunkedBuf = [] ∧
      (res.execAll order now (chunkedCalls chunks)).1.chunked = false := by
  induction chunks generalizing res with
  | nil => exact ⟨rfl, rfl⟩
  | cons chunk chunks ih => exact ih (res.sendChunk order now chunk).1

private theorem chunkText_eq_plainChunk {chunk : Bytes} (h : chunk.length < 2 ^ 48) :
    chunkText chunk = plainChunk chunk := by
  rw [chunkText, chunkSizeLine_eq (by omega), plainChunk]

theorem flatMap_plainChunk (hsize : ∀ chunk ∈ chunks, chunk.length < 2 ^ 48) :
    chunks.flatMap chunkText = chunks.flatMap plainChunk := by
  induction chunks with
  | nil => rfl
  | cons chunk chunks ih =>
      obtain ⟨hfirst, hrest⟩ := List.forall_mem_cons.mp hsize
      rw [List.flatMap_cons, List.flatMap_cons, chunkText_eq_plainChunk hfirst, ih hrest]

private theorem chunkedBlock_ne_nil : res.chunkedBlock order now ≠ [] := by
  simp [Response.chunkedBlock, Response.block, Response.statusLine, ascii]

theorem not_sendsChunks_nil (hbuf : res.chunkedBuf = []) : ¬ SendsChunks order now res [] := by
  intro h
  have hstream := h.stream
  rw [sentBytes_done, hbuf, List.nil_append, List.flatMap_nil, List.append_nil] at hstream
  have hlen := congrArg List.length hstream
  have hpos := List.length_pos_of_ne_nil (chunkedBlock_ne_nil order now res)
  rw [List.length_append] at hlen
  omega

/-- However the chunks are split between direct sends and the buffer, the stream
is that of the coding if and only if there is a chunk. -/
theorem chunks_sent_iff (hchunked : res.chunked = false) (hbuf : res.chunkedBuf = [])
    (hsize : ∀ chunk ∈ chunks, chunk.length < 2 ^ 48) :
    SendsChunks order now res chunks ↔ chunks ≠ [] := by
  constructor
  · rintro h rfl
    exact not_sendsChunks_nil order now res hbuf h
  · intro hne
    obtain ⟨hempty, hclosed⟩ := chunkedCalls_closed order now res chunks
    refine ⟨?_, hempty, hclosed⟩
    rw [sentBytes_chunked order now hchunked hbuf hne, flatMap_plainChunk chunks hsize]

end

/-- A response object before its first chunk. -/
def freshResponse : Response := ⟨.ok, [], false, []⟩

/-- Noon of the last Saturday of a year. -/
def someTime : Tm := ⟨Fin.last 6, 30, Fin.last 11, 2023, 12, 0, 0⟩

theorem chunks_sent_mixed :
    SendsChunks id someTime freshResponse
      [ascii "ab", List.replicate 5000 0, [], List.replicate 4096 1] := by
  apply (chunks_sent_iff id someTime freshResponse _ rfl rfl ?_).mpr (List.cons_ne_nil _ _)
  intro chunk hchunk
  simp only [List.mem_cons, List.not_mem_nil, or_false] at hchunk
  rcases hchunk with rfl | rfl | rfl | rfl
  · decide
  · rw [List.length_replicate]
    decide
  · decide
  · rw [List.length_replicate]
    decide

/-- `send_done` alone. -/
theorem no_chunk_no_header :
    sentBytes (freshResponse.execAll id someTime (chunkedCalls [])).2 = ascii "0\r\n\r\n" ∧
      ¬ SendsChunks id someTime freshResponse [] :=
  ⟨rfl, not_sendsChunks_nil id someTime freshResponse rfl⟩

end Angel.Http
