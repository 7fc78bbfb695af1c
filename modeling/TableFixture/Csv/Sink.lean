import TableFixture.Csv.Written

/-!
# Writing tables into sinks

A sink takes bytes until its room is used up and refuses what is left of a chunk, of
which it may have taken a part.  A table is written through a buffer: when the next
piece does not fit, the buffer is offered to the sink as one chunk, and what the buffer
holds at the end is offered last.  A refused chunk is offered once more when the writer
is given up; a sink without room takes nothing of it.

The two refusals differ.  A refusal in the middle of a record is an error of the table,
a refusal at the end, or of the final flush, is one of the system.

A sink need not take a chunk at once.  It may take it in portions, each at least one byte
as long as there is room; what it has taken in the end is the same.

Main results:

- Theorem `take_of_fits`, `take_of_exceeds`: a sink takes a beginning of every chunk.
- Theorem `received_take_take`: a refused chunk that is offered again adds nothing.
- Theorem `takePortions_eq_take`, `writeCsvBy_takePortions`: it does not matter in which
  portions chunks are taken.
-/

namespace TableFixture

/-! ## Sinks -/

/-- Something that takes bytes. -/
structure Sink where
  /-- How many bytes it still takes; there is no bound if there is no number. -/
  room : Option Nat
  /-- What it has taken. -/
  received : List UInt8
  /-- How it refuses bytes beyond its room. -/
  refusal : SystemError
  /-- How it refuses to be flushed, if it does. -/
  flushRefusal : Option SystemError
deriving DecidableEq, Repr

namespace Sink

/-- The sink without a bound. -/
def unbounded : Sink := ⟨none, [], .ofKind .storageFull, none⟩

/-- How many bytes of a chunk of the given length the sink takes. -/
def admitted (s : Sink) (length : Nat) : Nat :=
  match s.room with
  | none => length
  | some room => min room length

/-- Offers a chunk: the sink takes as much of it as it has room for. -/
def take (s : Sink) (chunk : List UInt8) : Except SystemError Unit × Sink :=
  let n := s.admitted chunk.length
  (if n < chunk.length then .error s.refusal else .ok (),
    { s with room := s.room.map (· - n), received := s.received ++ chunk.take n })

/-- Asks the sink to pass on what it has taken. -/
def flush (s : Sink) : Except SystemError Unit :=
  match s.flushRefusal with
  | none => .ok ()
  | some e => .error e

/-- A chunk that fits is taken whole. -/
theorem take_of_fits {s : Sink} {chunk : List UInt8} (h : s.admitted chunk.length = chunk.length) :
    s.take chunk = (.ok (), { s with
      room := s.room.map (· - chunk.length), received := s.received ++ chunk }) := by
  simp [take, h]

/-- A chunk that does not fit is taken up to the room there is, and none is left. -/
theorem take_of_exceeds {s : Sink} {chunk : List UInt8} {room : Nat}
    (hroom : s.room = some room) (h : room < chunk.length) :
    s.take chunk = (.error s.refusal, { s with
      room := some 0, received := s.received ++ chunk.take room }) := by
  simp [take, admitted, hroom, Nat.min_eq_left (Nat.le_of_lt h), h]

/-- A refused chunk that is offered again adds nothing. -/
theorem received_take_take {s : Sink} {chunk : List UInt8} {e : SystemError}
    (h : (s.take chunk).1 = .error e) :
    (((s.take chunk).2.take chunk).2).received = (s.take chunk).2.received := by
  cases hroom : s.room with
  | none => simp [take, admitted, hroom] at h
  | some room =>
    by_cases hlt : room < chunk.length
    · rw [take_of_exceeds hroom hlt]
      simp [take, admitted]
    · have : s.admitted chunk.length = chunk.length := by
        simp only [admitted, hroom]
        omega
      rw [take_of_fits this] at h
      simp at h

/-- A chunk whose beginning fits is taken like that beginning and then the rest. -/
theorem take_append {s : Sink} {first : List UInt8} (h : s.admitted first.length = first.length)
    (second : List UInt8) : s.take (first ++ second) = (s.take first).2.take second := by
  rw [take_of_fits h]
  cases hroom : s.room with
  | none => simp [take, admitted, hroom, List.take_of_length_le]
  | some room =>
    have hfirst : first.length ≤ room := by
      simp only [admitted, hroom] at h
      omega
    have hmin : min room (first.length + second.length)
        = first.length + min (room - first.length) second.length := by omega
    simp only [take, admitted, hroom, Option.map_some, List.length_append, hmin,
      List.take_length_add_append, List.append_assoc, Nat.sub_add_eq, Nat.add_lt_add_iff_left]
    congr

/-- Offers what is left of a chunk again and again, until all of it is taken or none of it is.
How much the sink takes at once may depend on what it has received. -/
def takePortions (portion : List UInt8 → Nat) (s : Sink) (chunk : List UInt8) :
    Except SystemError Unit × Sink :=
  if chunk = [] then (.ok (), s)
  else
    let n := s.admitted (min (portion s.received + 1) chunk.length)
    if n = 0 then (.error s.refusal, s)
    else takePortions portion (s.take (chunk.take n)).2 (chunk.drop n)
termination_by chunk.length
decreasing_by
  have hpos : 0 < chunk.length := List.length_pos_iff.2 ‹_›
  rw [List.length_drop]
  omega

/-- It does not matter in which portions a chunk is taken. -/
theorem takePortions_eq_take (portion : List UInt8 → Nat) (s : Sink) (chunk : List UInt8) :
    s.takePortions portion chunk = s.take chunk := by
  fun_induction takePortions portion s chunk with
  | case1 s =>
    obtain ⟨room, received, refusal, flushRefusal⟩ := s
    cases room <;> simp [take, admitted]
  | case2 s chunk hne n hn =>
    have hpos : 0 < chunk.length := List.length_pos_iff.2 hne
    obtain ⟨room, received, refusal, flushRefusal⟩ := s
    cases room with
    | none =>
      simp only [n, admitted] at hn
      omega
    | some room =>
      have hzero : room = 0 := by
        simp only [n, admitted] at hn
        omega
      subst hzero
      rw [take_of_exceeds rfl hpos, List.take_zero, List.append_nil]
  | case3 s chunk hne n hn ih =>
    -- The portion is a chunk of its own, and it fits.
    have hfits : s.admitted (chunk.take n).length = (chunk.take n).length := by
      rw [List.length_take]
      cases hroom : s.room with
      | none => simp [admitted, hroom]
      | some room =>
        simp only [n, admitted, hroom]
        omega
    rw [ih, ← take_append hfits, List.take_append_drop]

end Sink

namespace Csv

/-! ## The buffer -/

/-- The number of bytes that the buffer of a writer holds. -/
def bufferSize : Nat := 8192

/-- The bytes in a buffer, in reverse, and their number. -/
structure Buffer where
  reversed : List UInt8
  size : Nat
deriving DecidableEq, Repr

/-- The buffer that holds the given bytes. -/
def Buffer.ofBytes (bytes : List UInt8) : Buffer := ⟨bytes.reverse, bytes.length⟩

/-- The bytes in the buffer. -/
def Buffer.bytes (b : Buffer) : List UInt8 := b.reversed.reverse

/-- The buffer with more bytes at its end. -/
def Buffer.append (b : Buffer) (bytes : List UInt8) : Buffer :=
  ⟨bytes.reverseAux b.reversed, b.size + bytes.length⟩

@[simp] theorem Buffer.bytes_ofBytes (bytes : List UInt8) :
    (Buffer.ofBytes bytes).bytes = bytes := by
  simp [Buffer.ofBytes, Buffer.bytes]

@[simp] theorem Buffer.bytes_append (b : Buffer) (bytes : List UInt8) :
    (b.append bytes).bytes = b.bytes ++ bytes := by
  simp [Buffer.append, Buffer.bytes, List.reverseAux_eq]

/-- Writes pieces into the buffer, offering it to the sink whenever the next piece does
not fit.  The outcome holds what the buffer contains at the end, or at the refusal. -/
def feed (offer : Sink → List UInt8 → Except SystemError Unit × Sink) (buffer : Buffer) :
    List (List UInt8) → Sink → Except (SystemError × Buffer) Buffer × Sink
  | [], sink => (.ok buffer, sink)
  | piece :: pieces, sink =>
    if buffer.size + piece.length ≤ bufferSize then feed offer (buffer.append piece) pieces sink
    else
      match offer sink buffer.bytes with
      | (.ok (), sink') => feed offer (.ofBytes piece) pieces sink'
      | (.error e, sink') => (.error (e, buffer), sink')

/-- Offers what the buffer holds and flushes the sink; a refused buffer is offered once
more. -/
def finish (offer : Sink → List UInt8 → Except SystemError Unit × Sink) (buffer : Buffer)
    (sink : Sink) : Except SystemError Unit × Sink :=
  match offer sink buffer.bytes with
  | (.ok (), sink') => (sink'.flush, sink')
  | (.error e, sink') => (.error e, (offer sink' buffer.bytes).2)

end Csv

/-- Writes the table of a frame into a sink to which chunks are offered in the given way. -/
def Frame.writeCsvBy (offer : Sink → List UInt8 → Except SystemError Unit × Sink) (f : Frame)
    (sink : Sink) : Except Error Unit × Sink :=
  match Csv.feed offer (.ofBytes []) (Csv.tablePieces f.names f.texts) sink with
  | (.error (e, buffer), sink') => (.error (.csv (.system e)), (offer sink' buffer.bytes).2)
  | (.ok buffer, sink') =>
    match Csv.finish offer buffer sink' with
    | (.ok (), sink'') => (.ok (), sink'')
    | (.error e, sink'') => (.error (.system e), sink'')

/-- Writes the table of a frame into a sink that takes chunks at once. -/
def Frame.writeCsv (f : Frame) (sink : Sink) : Except Error Unit × Sink :=
  f.writeCsvBy Sink.take sink

/-- A sink that takes chunks in portions is written to like one that takes them at once. -/
theorem Frame.writeCsvBy_takePortions (f : Frame) (portion : List UInt8 → Nat) (sink : Sink) :
    f.writeCsvBy (Sink.takePortions portion) sink = f.writeCsv sink := by
  have hoffer : Sink.takePortions portion = Sink.take := by
    funext s chunk
    exact s.takePortions_eq_take portion chunk
  rw [hoffer, writeCsv]

end TableFixture
