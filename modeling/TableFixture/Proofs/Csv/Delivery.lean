import Mathlib.Data.List.Basic
import TableFixture.Csv.Sink

/-!
# Delivering tables to sinks

A table reaches a sink in chunks: the buffers that are emptied while its records are
written, and what the last buffer holds when it is flushed.  The chunks do not depend on the
sink, and they are the bytes of the table in order.  So a sink with room for some number of
bytes receives that many first bytes of the table, whatever is offered to it again, and the
chunk in which its room ends decides what kind of error there is.  A sink without a bound
receives all of them.

Main results:

- Theorem `isPiece_of_mem_tablePieces`: pieces are one or two bytes.
- Theorem `flatten_chunks`: the chunks are the bytes of the table.
- Theorem `length_of_mem_chunks`: emptied buffers are full up to one byte.
- Theorem `feed_of_le`, `exists_feed_of_lt`: what a bounded sink receives before the flush.
- Theorem `writeCsv_of_unbounded`: what a sink without a bound receives.
- Theorem `delivery`: what a bounded sink receives, and what is reported.
-/

namespace TableFixture

open Text.Utf8 (encode)

namespace Csv

/-! ## Pieces -/

/-- A piece is one byte, or two that stay together. -/
def IsPiece (piece : List UInt8) : Prop := 0 < piece.length ∧ piece.length ≤ 2

theorem isPiece_of_mem_charPieces {c : Char} {piece : List UInt8} (h : piece ∈ charPieces c) :
    IsPiece piece := by
  rcases List.mem_map.1 h with ⟨b, -, rfl⟩
  exact ⟨by simp, by simp⟩

theorem isPiece_of_mem_fieldPieces {cs : List Char} {piece : List UInt8}
    (h : piece ∈ fieldPieces cs) : IsPiece piece := by
  have hquote : IsPiece [quote] := ⟨by simp, by simp⟩
  have hpair : IsPiece [quote, quote] := ⟨by simp, by simp⟩
  unfold fieldPieces at h
  split at h
  · rcases List.mem_cons.1 h with rfl | h
    · exact hquote
    · rcases List.mem_append.1 h with h | h
      · rcases List.mem_flatMap.1 h with ⟨c, -, hc⟩
        split at hc
        · rw [List.mem_singleton.1 hc]
          exact hpair
        · exact isPiece_of_mem_charPieces hc
      · rw [List.mem_singleton.1 h]
        exact hquote
  · rcases List.mem_flatMap.1 h with ⟨c, -, hc⟩
    exact isPiece_of_mem_charPieces hc

theorem isPiece_of_mem_intercalate {fields : List (List Char)} {piece : List UInt8}
    (h : piece ∈ [[comma]].intercalate (fields.map fieldPieces)) : IsPiece piece := by
  induction fields with
  | nil => simp at h
  | cons field fields ih =>
      cases fields with
      | nil =>
          rw [List.map_singleton, List.intercalate_singleton] at h
          exact isPiece_of_mem_fieldPieces h
      | cons field' fields =>
          rw [List.map_cons, List.map_cons, List.intercalate_cons_cons] at h
          rcases List.mem_append.1 h with h | h
          · rcases List.mem_append.1 h with h | h
            · exact isPiece_of_mem_fieldPieces h
            · rw [List.mem_singleton.1 h]
              exact ⟨by simp, by simp⟩
          · exact ih h

theorem isPiece_of_mem_recordPieces {fields : List (List Char)} {piece : List UInt8}
    (h : piece ∈ recordPieces fields) : IsPiece piece := by
  rcases List.mem_append.1 h with h | h
  · split at h
    · rw [List.mem_singleton.1 h]
      exact ⟨by simp, by simp⟩
    · exact isPiece_of_mem_intercalate h
  · rw [List.mem_singleton.1 h]
    exact ⟨by simp, by simp⟩

/-- The pieces of a table are one or two bytes each. -/
theorem isPiece_of_mem_tablePieces {names : List String} {rows : List (List String)}
    {piece : List UInt8} (h : piece ∈ tablePieces names rows) : IsPiece piece := by
  rcases List.mem_flatMap.1 h with ⟨fields, -, hfields⟩
  exact isPiece_of_mem_recordPieces hfields

/-- Something is written for every table, its header at least. -/
theorem tablePieces_ne_nil (names : List String) (rows : List (List String)) :
    tablePieces names rows ≠ [] := by
  simp [tablePieces, recordPieces]

/-! ## Chunks -/

/-- A buffer counts the bytes that it holds. -/
def Buffer.Exact (b : Buffer) : Prop := b.size = b.bytes.length

theorem Buffer.exact_ofBytes (bytes : List UInt8) : (Buffer.ofBytes bytes).Exact := by
  rw [Buffer.Exact, Buffer.bytes_ofBytes]
  rfl

theorem Buffer.Exact.append {b : Buffer} (h : b.Exact) (bytes : List UInt8) :
    (b.append bytes).Exact := by
  rw [Buffer.Exact, Buffer.bytes_append, List.length_append, ← h]
  rfl

/-- The contents of the buffers that are emptied while pieces are written, and the buffer that
is left at the end. -/
def chunks (buffer : Buffer) : List (List UInt8) → List (List UInt8) × Buffer
  | [] => ([], buffer)
  | piece :: pieces =>
    if buffer.size + piece.length ≤ bufferSize then chunks (buffer.append piece) pieces
    else
      (buffer.bytes :: (chunks (.ofBytes piece) pieces).1, (chunks (.ofBytes piece) pieces).2)

section

variable {buffer : Buffer} {piece : List UInt8} {pieces : List (List UInt8)}

/-- A piece that fits goes into the buffer. -/
theorem chunks_of_fits (h : buffer.size + piece.length ≤ bufferSize) :
    chunks buffer (piece :: pieces) = chunks (buffer.append piece) pieces := by
  rw [chunks, if_pos h]

/-- A piece that does not fit finds the buffer emptied. -/
theorem chunks_of_exceeds (h : ¬ buffer.size + piece.length ≤ bufferSize) :
    chunks buffer (piece :: pieces)
      = (buffer.bytes :: (chunks (.ofBytes piece) pieces).1,
        (chunks (.ofBytes piece) pieces).2) := by
  rw [chunks, if_neg h]

end

/-- The chunks are the bytes of the pieces in order. -/
theorem flatten_chunks (buffer : Buffer) (pieces : List (List UInt8)) :
    (chunks buffer pieces).1.flatten ++ (chunks buffer pieces).2.bytes
      = buffer.bytes ++ pieces.flatten := by
  induction pieces generalizing buffer with
  | nil => simp [chunks]
  | cons piece pieces ih =>
      by_cases hfits : buffer.size + piece.length ≤ bufferSize
      · rw [chunks_of_fits hfits, ih, Buffer.bytes_append, List.append_assoc, List.flatten_cons]
      · rw [chunks_of_exceeds hfits, List.flatten_cons, List.append_assoc, ih,
          Buffer.bytes_ofBytes, List.flatten_cons]

/-- Buffers are emptied when they are full up to one byte, and at the end no buffer is over
full, nor empty if anything was written. -/
theorem length_of_mem_chunks {buffer : Buffer} (hexact : buffer.Exact)
    (hsize : buffer.size ≤ bufferSize) {pieces : List (List UInt8)}
    (hpieces : ∀ piece ∈ pieces, IsPiece piece) :
    (∀ chunk ∈ (chunks buffer pieces).1,
      bufferSize - 1 ≤ chunk.length ∧ chunk.length ≤ bufferSize) ∧
    (chunks buffer pieces).2.bytes.length ≤ bufferSize ∧
    (0 < buffer.size ∨ pieces ≠ [] → 0 < (chunks buffer pieces).2.bytes.length) := by
  induction pieces generalizing buffer with
  | nil =>
      have hlength : buffer.size = buffer.bytes.length := hexact
      refine ⟨by simp [chunks], hlength ▸ hsize, fun h => ?_⟩
      exact hlength ▸ h.resolve_right (by simp)
  | cons piece pieces ih =>
      have hpiece := hpieces piece List.mem_cons_self
      have hrest := fun p hp => hpieces p (List.mem_cons_of_mem piece hp)
      by_cases hfits : buffer.size + piece.length ≤ bufferSize
      · have happend := ih (hexact.append piece) hfits hrest
        rw [chunks_of_fits hfits]
        refine ⟨happend.1, happend.2.1, fun _ => happend.2.2 (.inl ?_)⟩
        exact Nat.lt_of_lt_of_le hpiece.1 (Nat.le_add_left piece.length buffer.size)
      · have hbuffer : buffer.size = buffer.bytes.length := hexact
        have hsmall : (Buffer.ofBytes piece).size ≤ bufferSize := by
          have hsize : (Buffer.ofBytes piece).size = piece.length := rfl
          have := hpiece.2
          rw [hsize, bufferSize]
          omega
        have hnext := ih (Buffer.exact_ofBytes piece) hsmall hrest
        rw [chunks_of_exceeds hfits]
        refine ⟨?_, hnext.2.1, fun _ => hnext.2.2 (.inl hpiece.1)⟩
        intro chunk hchunk
        rcases List.mem_cons.1 hchunk with rfl | hchunk
        · have := hpiece.2
          omega
        · exact hnext.1 chunk hchunk

/-- What fits into one buffer leaves none to be emptied. -/
theorem chunks_of_small {buffer : Buffer} {pieces : List (List UInt8)}
    (h : buffer.size + pieces.flatten.length ≤ bufferSize) : (chunks buffer pieces).1 = [] := by
  induction pieces generalizing buffer with
  | nil => rfl
  | cons piece pieces ih =>
      rw [List.flatten_cons, List.length_append] at h
      have hsize : (buffer.append piece).size = buffer.size + piece.length := rfl
      rw [chunks_of_fits (by omega)]
      exact ih (by omega)

/-! ## Sinks with bounded room -/

/-- A sink without room takes nothing, however often it is offered something. -/
theorem sink_take_of_full {s : Sink} (hroom : s.room = some 0) (chunk : List UInt8) :
    (s.take chunk).2 = s := by
  obtain ⟨room, received, refusal, flushRefusal⟩ := s
  cases hroom
  simp [Sink.take, Sink.admitted]

section

variable {s : Sink} {n : Nat} (hroom : s.room = some n)
include hroom

/-- A chunk for which there is room is taken whole. -/
theorem take_of_le {chunk : List UInt8} (h : chunk.length ≤ n) :
    s.take chunk
      = (.ok (), { s with room := some (n - chunk.length), received := s.received ++ chunk }) := by
  have hfits : s.admitted chunk.length = chunk.length := by
    simp only [Sink.admitted, hroom]
    exact Nat.min_eq_right h
  rw [Sink.take_of_fits hfits, hroom, Option.map_some]

/-- Pieces are fed while there is room for the buffers that are emptied. -/
theorem feed_of_le {buffer : Buffer} {pieces : List (List UInt8)}
    (h : (chunks buffer pieces).1.flatten.length ≤ n) :
    feed Sink.take buffer pieces s
      = (.ok (chunks buffer pieces).2,
        { s with
          room := some (n - (chunks buffer pieces).1.flatten.length)
          received := s.received ++ (chunks buffer pieces).1.flatten }) := by
  induction pieces generalizing buffer s n with
  | nil => simp [feed, chunks, ← hroom]
  | cons piece pieces ih =>
      by_cases hfits : buffer.size + piece.length ≤ bufferSize
      · rw [chunks_of_fits hfits] at h ⊢
        rw [feed, if_pos hfits]
        exact ih hroom h
      · rw [chunks_of_exceeds hfits, List.flatten_cons, List.length_append] at h
        rw [chunks_of_exceeds hfits, feed, if_neg hfits, take_of_le hroom (by omega)]
        dsimp only
        rw [ih rfl (by omega), List.flatten_cons, List.length_append, List.append_assoc,
          Nat.sub_add_eq]

/-- Pieces are refused where the room ends in a buffer that is emptied. -/
theorem exists_feed_of_lt {buffer : Buffer} {pieces : List (List UInt8)}
    (h : n < (chunks buffer pieces).1.flatten.length) :
    ∃ refused, feed Sink.take buffer pieces s
      = (.error (s.refusal, refused),
        { s with
          room := some 0
          received := s.received ++ (chunks buffer pieces).1.flatten.take n }) := by
  induction pieces generalizing buffer s n with
  | nil => simp [chunks] at h
  | cons piece pieces ih =>
      by_cases hfits : buffer.size + piece.length ≤ bufferSize
      · rw [chunks_of_fits hfits] at h ⊢
        rw [feed, if_pos hfits]
        exact ih hroom h
      · rw [chunks_of_exceeds hfits, List.flatten_cons, List.length_append] at h
        rw [chunks_of_exceeds hfits, feed, if_neg hfits, List.flatten_cons]
        by_cases hchunk : n < buffer.bytes.length
        · refine ⟨buffer, ?_⟩
          rw [Sink.take_of_exceeds hroom hchunk,
            List.take_append_of_le_length (Nat.le_of_lt hchunk)]
        · have hle := Nat.le_of_not_lt hchunk
          let s' : Sink := { s with
            room := some (n - buffer.bytes.length), received := s.received ++ buffer.bytes }
          have hroom' : s'.room = some (n - buffer.bytes.length) := rfl
          have hrest :
              n - buffer.bytes.length < (chunks (.ofBytes piece) pieces).1.flatten.length :=
            by omega
          rcases ih hroom' hrest with ⟨refused, hfeed⟩
          refine ⟨refused, ?_⟩
          rw [take_of_le hroom hle]
          dsimp only
          rw [hfeed, List.take_append, List.take_of_length_le hle, List.append_assoc]

/-- The last buffer is taken if there is room for it, and the sink is flushed. -/
theorem finish_of_le {buffer : Buffer} (h : buffer.bytes.length ≤ n) :
    finish Sink.take buffer s
      = (s.flush, { s with
          room := some (n - buffer.bytes.length)
          received := s.received ++ buffer.bytes }) := by
  rw [finish, take_of_le hroom h]
  rfl

/-- Where the room ends in the last buffer it is refused, and no more of it is taken when it is
offered again. -/
theorem finish_of_lt {buffer : Buffer} (h : n < buffer.bytes.length) :
    finish Sink.take buffer s
      = (.error s.refusal, { s with
          room := some 0
          received := s.received ++ buffer.bytes.take n }) := by
  rw [finish, Sink.take_of_exceeds hroom h]
  dsimp only
  rw [sink_take_of_full rfl]

end

/-! ## Sinks without a bound -/

section

variable {s : Sink} (hroom : s.room = none)
include hroom

/-- A sink without a bound takes every chunk whole. -/
theorem take_of_unbounded (chunk : List UInt8) :
    s.take chunk = (.ok (), { s with received := s.received ++ chunk }) := by
  have hfits : s.admitted chunk.length = chunk.length := by rw [Sink.admitted, hroom]
  rw [Sink.take_of_fits hfits, hroom, Option.map_none]

/-- A sink without a bound is fed until all chunks are there. -/
theorem feed_of_unbounded (buffer : Buffer) (pieces : List (List UInt8)) :
    feed Sink.take buffer pieces s
      = (.ok (chunks buffer pieces).2,
        { s with received := s.received ++ (chunks buffer pieces).1.flatten }) := by
  induction pieces generalizing buffer s with
  | nil => simp [feed, chunks]
  | cons piece pieces ih =>
      by_cases hfits : buffer.size + piece.length ≤ bufferSize
      · rw [feed, if_pos hfits, chunks_of_fits hfits]
        exact ih hroom (buffer.append piece)
      · let s' : Sink := { s with received := s.received ++ buffer.bytes }
        have hroom' : s'.room = none := hroom
        rw [feed, if_neg hfits, chunks_of_exceeds hfits, take_of_unbounded hroom]
        dsimp only
        rw [ih hroom', List.flatten_cons, List.append_assoc]

end

end Csv

/-! ## Frames -/

namespace Frame

open Csv (chunks tablePieces isPiece_of_mem_tablePieces tablePieces_ne_nil)

/-- The contents of the buffers that are emptied while the records of a frame are written. -/
def emptied (f : Frame) : List (List UInt8) :=
  (chunks (.ofBytes []) (tablePieces f.names f.texts)).1

/-- The buffer that is left for the final flush. -/
def leftover (f : Frame) : Csv.Buffer := (chunks (.ofBytes []) (tablePieces f.names f.texts)).2

/-- The chunks of a frame are the bytes of its text. -/
theorem flatten_emptied_append (f : Frame) :
    f.emptied.flatten ++ f.leftover.bytes = encode f.toCsv.toList := by
  rw [emptied, leftover, Csv.flatten_chunks, Csv.Buffer.bytes_ofBytes, List.nil_append,
    Csv.flatten_tablePieces, toList_toCsv]

/-- Emptied buffers are full up to one byte, and the last one holds something. -/
theorem length_of_mem_emptied (f : Frame) :
    (∀ chunk ∈ f.emptied, 8191 ≤ chunk.length ∧ chunk.length ≤ 8192) ∧
      0 < f.leftover.bytes.length ∧ f.leftover.bytes.length ≤ 8192 := by
  have hpieces : ∀ piece ∈ tablePieces f.names f.texts, Csv.IsPiece piece :=
    fun _ => isPiece_of_mem_tablePieces
  have hlength := Csv.length_of_mem_chunks (Csv.Buffer.exact_ofBytes []) (Nat.zero_le _) hpieces
  exact ⟨hlength.1, hlength.2.2 (.inr (tablePieces_ne_nil f.names f.texts)), hlength.2.1⟩

/-- Buffers are emptied exactly for tables longer than one buffer. -/
theorem emptied_eq_nil_iff (f : Frame) :
    f.emptied = [] ↔ (encode f.toCsv.toList).length ≤ 8192 := by
  constructor
  · intro hnil
    have hbytes := f.flatten_emptied_append
    rw [hnil, List.flatten_nil, List.nil_append] at hbytes
    rw [← hbytes]
    exact f.length_of_mem_emptied.2.2
  · intro hle
    apply Csv.chunks_of_small
    rw [Csv.flatten_tablePieces, ← toList_toCsv]
    exact Nat.le_trans (Nat.le_of_eq (Nat.zero_add _)) hle

/-- What is reported of a sink with room for some number of bytes, and what it receives. -/
theorem writeCsv_bounded (f : Frame) (n : Nat) (refusal : SystemError)
    (flushRefusal : Option SystemError) :
    f.writeCsv ⟨some n, [], refusal, flushRefusal⟩
      = (if n < f.emptied.flatten.length then .error (.csv (.system refusal))
          else if n < (encode f.toCsv.toList).length then .error (.system refusal)
          else match flushRefusal with
            | none => .ok ()
            | some e => .error (.system e),
        ⟨some (n - (encode f.toCsv.toList).length), (encode f.toCsv.toList).take n, refusal,
          flushRefusal⟩) := by
  let sink : Sink := ⟨some n, [], refusal, flushRefusal⟩
  have hroom : sink.room = some n := rfl
  rw [← flatten_emptied_append, List.length_append, writeCsv, writeCsvBy]
  by_cases hemptied : n < f.emptied.flatten.length
  · rcases Csv.exists_feed_of_lt hroom hemptied with ⟨refused, hfeed⟩
    have hleft : n - (f.emptied.flatten.length + f.leftover.bytes.length) = 0 := by omega
    rw [if_pos hemptied, hfeed, hleft, List.take_append_of_le_length (Nat.le_of_lt hemptied)]
    dsimp only
    rw [Csv.sink_take_of_full rfl, List.nil_append]
    rfl
  · have hle := Nat.le_of_not_lt hemptied
    let sink' : Sink := { sink with
      room := some (n - f.emptied.flatten.length), received := [] ++ f.emptied.flatten }
    have hroom' : sink'.room = some (n - f.emptied.flatten.length) := rfl
    have hfeed : Csv.feed Sink.take (.ofBytes []) (tablePieces f.names f.texts) sink
        = (.ok f.leftover, sink') := Csv.feed_of_le hroom hle
    rw [if_neg hemptied, hfeed, Nat.sub_add_eq, List.take_append, List.take_of_length_le hle]
    dsimp only
    by_cases hlast : f.leftover.bytes.length ≤ n - f.emptied.flatten.length
    · rw [if_neg (by omega), Csv.finish_of_le hroom' hlast, List.take_of_length_le hlast]
      cases flushRefusal <;> rfl
    · have hlt := Nat.lt_of_not_le hlast
      have hleft : n - f.emptied.flatten.length - f.leftover.bytes.length = 0 := by omega
      rw [if_pos (by omega), Csv.finish_of_lt hroom' hlt, hleft]
      rfl

/-- A sink without a bound receives the bytes of the table after those it had before. -/
theorem writeCsv_of_unbounded (f : Frame) {s : Sink} (hroom : s.room = none)
    (hflush : s.flushRefusal = none) :
    f.writeCsv s = (.ok (), { s with received := s.received ++ encode f.toCsv.toList }) := by
  let s' : Sink := { s with received := s.received ++ f.emptied.flatten }
  have hroom' : s'.room = none := hroom
  have hfeed : Csv.feed Sink.take (.ofBytes []) (tablePieces f.names f.texts) s
      = (.ok f.leftover, s') := Csv.feed_of_unbounded hroom _ _
  have hflushed : s'.flush = .ok () := by rw [Sink.flush, hflush]
  have hfinish : Csv.finish Sink.take f.leftover s'
      = (.ok (), { s' with received := s'.received ++ f.leftover.bytes }) := by
    rw [Csv.finish, Csv.take_of_unbounded hroom']
    exact Prod.ext hflushed rfl
  rw [writeCsv, writeCsvBy, hfeed]
  dsimp only
  rw [hfinish, ← flatten_emptied_append, ← List.append_assoc]

/-- What a sink with bounded room receives, and what is reported of it, in whatever portions it
takes what it is offered.  It receives the first bytes of the table up to its room.  Nothing is
reported exactly if there is room for all of them and the flush succeeds; a refused flush is
reported as such; otherwise the error is one of the table where the room ends in a buffer that
is emptied among the records, and one of the system where it ends in the last buffer. -/
theorem delivery (f : Frame) (portion : List UInt8 → Nat) (n : Nat) (refusal : SystemError)
    (flushRefusal : Option SystemError) :
    let bytes := encode f.toCsv.toList
    let run := f.writeCsvBy (Sink.takePortions portion) ⟨some n, [], refusal, flushRefusal⟩
    run.2.received = bytes.take (min n bytes.length) ∧
    (run.1 = .ok () ↔ bytes.length ≤ n ∧ flushRefusal = none) ∧
    (∀ e, bytes.length ≤ n → flushRefusal = some e → run.1 = .error (.system e)) ∧
    (n < bytes.length → n < f.emptied.flatten.length → run.1 = .error (.csv (.system refusal))) ∧
    (n < bytes.length → f.emptied.flatten.length ≤ n → run.1 = .error (.system refusal)) ∧
    (n < bytes.length → bytes.length ≤ 8192 → run.1 = .error (.system refusal)) ∧
    (8192 < bytes.length → n < 8191 → run.1 = .error (.csv (.system refusal))) ∧
    bytes = f.emptied.flatten ++ f.leftover.bytes ∧
    (∀ chunk ∈ f.emptied, 8191 ≤ chunk.length ∧ chunk.length ≤ 8192) ∧
    0 < f.leftover.bytes.length ∧ f.leftover.bytes.length ≤ 8192 := by
  intro bytes run
  have hrun : run = _ := (f.writeCsvBy_takePortions portion _).trans
    (writeCsv_bounded f n refusal flushRefusal)
  have hbytes : bytes = f.emptied.flatten ++ f.leftover.bytes := f.flatten_emptied_append.symm
  have hlength : bytes.length = f.emptied.flatten.length + f.leftover.bytes.length := by
    rw [hbytes, List.length_append]
  have hlengths := f.length_of_mem_emptied
  rw [hrun]
  refine ⟨?_, ?_, ?_, ?_, ?_, ?_, ?_, hbytes, hlengths⟩
  · change bytes.take n = bytes.take (min n bytes.length)
    exact List.take_eq_take_iff.2 (by omega)
  · by_cases hroom : bytes.length ≤ n
    · rw [if_neg (by omega), if_neg (Nat.not_lt.2 hroom)]
      cases flushRefusal <;> simp [hroom]
    · have hlt : n < bytes.length := Nat.lt_of_not_le hroom
      by_cases hemptied : n < f.emptied.flatten.length
      · rw [if_pos hemptied]
        simp [hroom]
      · rw [if_neg hemptied, if_pos hlt]
        simp [hroom]
  · intro e hroom hflush
    rw [if_neg (by omega), if_neg (Nat.not_lt.2 hroom), hflush]
  · intro _ hemptied
    rw [if_pos hemptied]
  · intro hroom hemptied
    rw [if_neg (Nat.not_lt.2 hemptied), if_pos hroom]
  · intro hroom hsmall
    rw [f.emptied_eq_nil_iff.2 hsmall, if_neg (by simp), if_pos hroom]
  · intro hlarge hroom
    have hne : f.emptied ≠ [] := fun hnil => Nat.not_le.2 hlarge (f.emptied_eq_nil_iff.1 hnil)
    rcases List.exists_mem_of_ne_nil _ hne with ⟨chunk, hchunk⟩
    have hfull := (hlengths.1 chunk hchunk).1
    have hsum : chunk.length ≤ f.emptied.flatten.length :=
      (List.sublist_flatten_of_mem hchunk).length_le
    rw [if_pos (by omega)]

end Frame

end TableFixture
