import TableFixture.Csv.Sink

/-!
# Writing records one at a time

A writer is given records, each a list of fields of bytes.  It looks at bytes alone: a byte that
a reader would not take for one of the field makes quotes necessary, and a quote among the bytes
is written twice.  The quote that closes a field is written with what follows the field.  Before
a record is ended its fields are counted, and a record with another number of them than the first
one is an error.

Main definitions:

- `openRecord`, `closeRecord`: the pieces of a record, before and after its fields are counted.
- `writeFields`: writes one record.
- `writeInto`: writes records into a sink.
-/

namespace TableFixture.Csv

/-! ## The pieces of a record -/

/-- Whether a byte makes quotes necessary. -/
def isSpecialByte (b : UInt8) : Bool :=
  b == comma || b == quote || b == carriageReturn || b == lineFeed

/-- The pieces of a field without the quote that closes it. -/
def openField (bytes : List UInt8) : List (List UInt8) :=
  if bytes.any isSpecialByte then
    [quote] :: bytes.flatMap fun b => if b = quote then [[quote, quote]] else [[b]]
  else bytes.map fun b => [b]

/-- The quote that closes a field, if one has opened it. -/
def closeField (bytes : List UInt8) : List (List UInt8) :=
  if bytes.any isSpecialByte then [[quote]] else []

/-- The pieces of fields with commas between them, the last field not closed. -/
def openRecord : List (List UInt8) → List (List UInt8)
  | [] => []
  | [field] => openField field
  | field :: next :: fields =>
    openField field ++ (closeField field ++ [comma] :: openRecord (next :: fields))

/-- The pieces that end a record: a pair of quotes if nothing was written for it, or the quote
that closes its last field, and a line feed. -/
def closeRecord (fields : List (List UInt8)) : List (List UInt8) :=
  (if (openRecord fields).isEmpty then [[quote, quote]]
    else (fields.getLast?.map closeField).getD []) ++ [[lineFeed]]

/-! ## The writer -/

/-- What a writer holds: the bytes that are not yet offered, the number of fields of the first
record, if there was one, and the sink. -/
structure Writer where
  buffer : Buffer
  width : Option Nat
  sink : Sink

/-- What a writer does, one thing after the other; after an error nothing more is done. -/
abbrev Writing := ExceptT Error (StateM Writer)

section

variable (offer : Sink → List UInt8 → Except SystemError Unit × Sink)

/-- Writes pieces. -/
def push (pieces : List (List UInt8)) : Writing Unit := do
  let w ← get
  match feed offer w.buffer pieces w.sink with
  | (.ok buffer, sink) => set { w with buffer, sink }
  | (.error (e, buffer), sink) =>
    set { w with buffer, sink }
    throw (.csv (.system e))

/-- Counts the fields of a record; those of the first are counted on. -/
def count (found : Nat) : Writing Unit := do
  let w ← get
  match w.width with
  | none => set { w with width := some found }
  | some expected =>
    if expected ≠ found then
      throw (.csv (.unequalRecord expected found))

/-- Writes one record. -/
def writeFields (fields : List (List UInt8)) : Writing Unit := do
  push offer (openRecord fields)
  count fields.length
  push offer (closeRecord fields)

/-- Writes records, one after the other. -/
def writeAll : List (List (List UInt8)) → Writing Unit
  | [] => pure ()
  | fields :: records => do
    writeFields offer fields
    writeAll records

/-- Writes records into a sink and flushes it.  What a writer still holds when it is given up is
offered once more. -/
def writeInto (records : List (List (List UInt8))) (sink : Sink) : Except Error Unit × Sink :=
  match (writeAll offer records).run.run ⟨.ofBytes [], none, sink⟩ with
  | (.error e, w) => (.error e, (offer w.sink w.buffer.bytes).2)
  | (.ok (), w) =>
    match finish offer w.buffer w.sink with
    | (.ok (), sink') => (.ok (), sink')
    | (.error e, sink') => (.error (.system e), sink')

end

end TableFixture.Csv
