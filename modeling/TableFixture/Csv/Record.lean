/-!
# Splitting bytes into records

A table is a sequence of records, a record a sequence of fields separated by commas.
A record ends at a carriage return or a line feed; empty lines are no records.  A
quote that is the first byte of a field opens a quoted part, in which commas and line
ends are ordinary and a doubled quote stands for one quote.  What follows the closing
quote belongs to the field as it stands.  A field that is still open at the end of the
bytes ends there.

The splitting is a machine of five phases.  A line feed after a carriage return needs
no phase of its own: it is an empty line.

Main results:

- Theorem `fields_splitFrom`: the fields do not depend on where counting began.
- Theorem `ne_nil_of_mem_splitFrom`: every record has at least one field.
-/

namespace TableFixture.Csv

/-! ## Bytes with a meaning -/

/-- The comma, which separates fields. -/
def comma : UInt8 := 44

/-- The quote, which opens and closes the quoted part of a field. -/
def quote : UInt8 := 34

/-- The line feed, which ends a record and is counted as a line. -/
def lineFeed : UInt8 := 10

/-- The carriage return, which ends a record. -/
def carriageReturn : UInt8 := 13

/-- Whether a byte ends a record. -/
def isLineEnd (b : UInt8) : Bool := b == lineFeed || b == carriageReturn

/-! ## The machine -/

/-- Where the machine stands between two bytes. -/
inductive Phase where
  /-- At the start of a record, of which nothing has been read. -/
  | recordStart
  /-- At the start of a field that is not the first of its record. -/
  | fieldStart
  /-- In a field, outside its quoted part. -/
  | bare
  /-- In the quoted part of a field. -/
  | quoted
  /-- After a quote in the quoted part: it closes the part unless another follows. -/
  | closing
deriving DecidableEq, Repr

/-- What a byte does. -/
inductive Mark where
  /-- It belongs to no field. -/
  | skip
  /-- It is the next byte of the field. -/
  | keep
  /-- It ends the field. -/
  | endField
  /-- It ends the field and the record. -/
  | endRecord
deriving DecidableEq, Repr

/-- What a byte does outside quotes, when it is not the quote that opens them. -/
def markBare (b : UInt8) : Phase × Mark :=
  if b == comma then (.fieldStart, .endField)
  else if isLineEnd b then (.recordStart, .endRecord)
  else (.bare, .keep)

/-- What a byte does in a phase, and the phase after it. -/
def mark : Phase → UInt8 → Phase × Mark
  | .recordStart, b =>
    if isLineEnd b then (.recordStart, .skip)
    else if b == quote then (.quoted, .skip)
    else markBare b
  | .fieldStart, b => if b == quote then (.quoted, .skip) else markBare b
  | .bare, b => markBare b
  | .quoted, b => if b == quote then (.closing, .skip) else (.quoted, .keep)
  | .closing, b => if b == quote then (.quoted, .keep) else markBare b

/-! ## Records -/

/-- How many bytes, and how many line feeds among them, have been consumed. -/
structure Consumed where
  bytes : Nat
  lineFeeds : Nat
deriving DecidableEq, Repr

/-- One more byte has been consumed. -/
def Consumed.push (n : Consumed) (b : UInt8) : Consumed :=
  ⟨n.bytes + 1, if b == lineFeed then n.lineFeeds + 1 else n.lineFeeds⟩

/-- The fields of a record, and what had been consumed when the record before it ended. -/
structure RawRecord where
  fields : List (List UInt8)
  start : Consumed
deriving DecidableEq, Repr

/-- The records in the bytes, from the middle of a record: its phase, the field so far
and the fields before it (both in reverse), where the record started, and what has
been consumed. -/
def splitFrom (phase : Phase) (field : List UInt8) (fields : List (List UInt8))
    (start consumed : Consumed) : List UInt8 → List RawRecord
  | [] =>
    if phase = .recordStart then [] else [⟨(field.reverse :: fields).reverse, start⟩]
  | b :: bytes =>
    match mark phase b with
    | (next, .skip) => splitFrom next field fields start (consumed.push b) bytes
    | (next, .keep) => splitFrom next (b :: field) fields start (consumed.push b) bytes
    | (next, .endField) =>
      splitFrom next [] (field.reverse :: fields) start (consumed.push b) bytes
    | (next, .endRecord) =>
      ⟨(field.reverse :: fields).reverse, start⟩
        :: splitFrom next [] [] (consumed.push b) (consumed.push b) bytes

/-- The UTF-8 byte order mark. -/
def byteOrderMark : List UInt8 := [0xEF, 0xBB, 0xBF]

/-- The records of a table, its byte order mark dropped but counted as consumed. -/
def records (bytes : List UInt8) : List RawRecord :=
  if byteOrderMark.isPrefixOf bytes then
    splitFrom .recordStart [] [] ⟨0, 0⟩ ⟨3, 0⟩ (bytes.drop 3)
  else splitFrom .recordStart [] [] ⟨0, 0⟩ ⟨0, 0⟩ bytes

/-- The fields of the records of a table, by the rules of splitting alone. -/
def split (bytes : List UInt8) : List (List (List UInt8)) :=
  (splitFrom .recordStart [] [] ⟨0, 0⟩ ⟨0, 0⟩ bytes).map (·.fields)

/-! ## Laws -/

/-- The fields do not depend on where counting began. -/
theorem fields_splitFrom (phase : Phase) (field : List UInt8) (fields : List (List UInt8))
    (start consumed start' consumed' : Consumed) (bytes : List UInt8) :
    (splitFrom phase field fields start consumed bytes).map (·.fields)
      = (splitFrom phase field fields start' consumed' bytes).map (·.fields) := by
  induction bytes generalizing phase field fields start consumed start' consumed' with
  | nil => unfold splitFrom; split <;> rfl
  | cons b bytes ih =>
    unfold splitFrom
    split
    · exact ih ..
    · exact ih ..
    · exact ih ..
    · simp only [List.map_cons]
      exact congrArg (_ :: ·) (ih ..)

/-- Every record has at least one field. -/
theorem ne_nil_of_mem_splitFrom {phase : Phase} {field : List UInt8}
    {fields : List (List UInt8)} {start consumed : Consumed} {bytes : List UInt8}
    {r : RawRecord} (h : r ∈ splitFrom phase field fields start consumed bytes) :
    r.fields ≠ [] := by
  induction bytes generalizing phase field fields start consumed with
  | nil =>
    unfold splitFrom at h
    split at h
    · simp at h
    · obtain rfl := List.mem_singleton.1 h
      simp
  | cons b bytes ih =>
    unfold splitFrom at h
    split at h
    · exact ih h
    · exact ih h
    · exact ih h
    · rcases List.mem_cons.1 h with rfl | h
      · simp
      · exact ih h

end TableFixture.Csv
