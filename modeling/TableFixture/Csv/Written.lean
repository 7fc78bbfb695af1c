import TableFixture.Csv.Record
import TableFixture.Frame
import TableFixture.Text.Utf8

/-!
# The written form of tables

A field is written as it stands unless it holds a comma, a quote or a line end; then
it is quoted, its quotes doubled.  A record is its fields with commas between them and
a line feed after them.  A record of which nothing would be written is a pair of
quotes, lest it be taken for an empty line.

The written form is also a sequence of *pieces*: single bytes, except that the two
quotes of a doubled quote, and the pair that stands for an empty record, stay
together.  A writer with a bounded buffer never splits a piece.

Main results:

- Theorem `flatten_tablePieces`: the pieces, put together, are the bytes of the text.
- Theorem `writeField_of_plain`: a field without special characters is written as it stands.
-/

namespace TableFixture

namespace Csv

/-! ## The text -/

/-- Whether a character makes quotes necessary. -/
def isSpecial (c : Char) : Bool := c == ',' || c == '"' || c == '\r' || c == '\n'

/-- The characters of a field inside quotes: a quote is written twice, all else once. -/
def doubleQuotes (cs : List Char) : List Char :=
  cs.flatMap fun c => if c = '"' then ['"', '"'] else [c]

/-- The written form of a field. -/
def writeField (cs : List Char) : List Char :=
  if cs.any isSpecial then '"' :: (doubleQuotes cs ++ ['"']) else cs

/-- The written form of a record. -/
def writeRecord (fields : List (List Char)) : List Char :=
  let line := [','].intercalate (fields.map writeField)
  (if line.isEmpty then ['"', '"'] else line) ++ ['\n']

/-- The written form of a table: a header and its rows. -/
def writeTable (names : List String) (rows : List (List String)) : List Char :=
  (names :: rows).flatMap fun fields => writeRecord (fields.map String.toList)

/-- A field without special characters is written as it stands. -/
theorem writeField_of_plain {cs : List Char} (h : cs.any isSpecial = false) :
    writeField cs = cs := by
  simp [writeField, h]

/-- A field with a special character is written between quotes. -/
theorem writeField_of_special {cs : List Char} (h : cs.any isSpecial = true) :
    writeField cs = '"' :: (doubleQuotes cs ++ ['"']) := by
  simp [writeField, h]

/-! ## The pieces -/

/-- The bytes of a character, each a piece. -/
def charPieces (c : Char) : List (List UInt8) := (String.utf8EncodeChar c).map fun b => [b]

/-- The pieces of a field. -/
def fieldPieces (cs : List Char) : List (List UInt8) :=
  if cs.any isSpecial then
    [quote] :: (cs.flatMap (fun c => if c = '"' then [[quote, quote]] else charPieces c)
      ++ [[quote]])
  else cs.flatMap charPieces

/-- The pieces of a record. -/
def recordPieces (fields : List (List Char)) : List (List UInt8) :=
  let line := [[comma]].intercalate (fields.map fieldPieces)
  (if line.isEmpty then [[quote, quote]] else line) ++ [[lineFeed]]

/-- The pieces of a table. -/
def tablePieces (names : List String) (rows : List (List String)) : List (List UInt8) :=
  (names :: rows).flatMap fun fields => recordPieces (fields.map String.toList)

@[simp] theorem flatten_charPieces (c : Char) :
    (charPieces c).flatten = String.utf8EncodeChar c := by
  rw [charPieces]
  induction String.utf8EncodeChar c with
  | nil => rfl
  | cons b bs ih => simpa using ih

theorem flatten_flatMap_charPieces (cs : List Char) :
    (cs.flatMap charPieces).flatten = Text.Utf8.encode cs := by
  induction cs with
  | nil => rfl
  | cons c cs ih => simp [ih]

theorem flatten_quotedPieces (cs : List Char) :
    (cs.flatMap fun c => if c = '"' then [[quote, quote]] else charPieces c).flatten
      = Text.Utf8.encode (doubleQuotes cs) := by
  induction cs with
  | nil => rfl
  | cons c cs ih =>
    simp only [List.flatMap_cons, List.flatten_append, ih, doubleQuotes, Text.Utf8.encode_append]
    congr 1
    by_cases h : c = '"'
    · subst h; rfl
    · simp [h]

/-- The pieces of a field, put together, are its bytes. -/
@[simp] theorem flatten_fieldPieces (cs : List Char) :
    (fieldPieces cs).flatten = Text.Utf8.encode (writeField cs) := by
  unfold fieldPieces writeField
  split
  · simp only [List.flatten_cons, List.flatten_append, flatten_quotedPieces,
      Text.Utf8.encode_cons, Text.Utf8.encode_append]
    rfl
  · exact flatten_flatMap_charPieces cs

/-- A field has pieces exactly if something is written for it. -/
theorem fieldPieces_eq_nil_iff (cs : List Char) : fieldPieces cs = [] ↔ writeField cs = [] := by
  unfold fieldPieces writeField
  split
  · simp
  · cases cs with
    | nil => simp
    | cons c cs =>
      have h : charPieces c ≠ [] := by
        have := Text.Utf8.length_utf8EncodeChar_pos c
        rw [charPieces, ne_eq, List.map_eq_nil_iff, ← List.length_eq_zero_iff]
        omega
      simp [h]

theorem flatten_intercalate_fieldPieces (fields : List (List Char)) :
    ([[comma]].intercalate (fields.map fieldPieces)).flatten
        = Text.Utf8.encode ([','].intercalate (fields.map writeField))
      ∧ ([[comma]].intercalate (fields.map fieldPieces) = []
          ↔ [','].intercalate (fields.map writeField) = []) := by
  induction fields with
  | nil => simp
  | cons field fields ih =>
    cases fields with
    | nil => simp [fieldPieces_eq_nil_iff]
    | cons field' fields =>
      simp only [List.map_cons, List.intercalate_cons_cons, List.flatten_append] at ih ⊢
      rw [ih.1]
      constructor
      · rw [Text.Utf8.encode_append, Text.Utf8.encode_append, flatten_fieldPieces]
        rfl
      · simp

/-- The pieces of a record, put together, are its bytes. -/
@[simp] theorem flatten_recordPieces (fields : List (List Char)) :
    (recordPieces fields).flatten = Text.Utf8.encode (writeRecord fields) := by
  obtain ⟨hbytes, hnil⟩ := flatten_intercalate_fieldPieces fields
  unfold recordPieces writeRecord
  simp only [List.flatten_append, Text.Utf8.encode_append]
  congr 1
  by_cases h : [','].intercalate (fields.map writeField) = []
  · rw [hnil.2 h, h]
    rfl
  · have h' : [[comma]].intercalate (fields.map fieldPieces) ≠ [] := fun h' => h (hnil.1 h')
    rw [if_neg (by simpa using h'), if_neg (by simpa using h), hbytes]

/-- The pieces of a table, put together, are the bytes of its text. -/
theorem flatten_tablePieces (names : List String) (rows : List (List String)) :
    (tablePieces names rows).flatten = Text.Utf8.encode (writeTable names rows) := by
  unfold tablePieces writeTable
  induction names :: rows with
  | nil => rfl
  | cons fields rest ih =>
    rw [List.flatMap_cons, List.flatMap_cons, List.flatten_append, Text.Utf8.encode_append, ih,
      flatten_recordPieces]

end Csv

/-! ## Frames -/

/-- The table of a frame as text: its names, then its rows. -/
def Frame.toCsv (f : Frame) : String := String.ofList (Csv.writeTable f.names f.texts)

@[simp] theorem Frame.toList_toCsv (f : Frame) : f.toCsv.toList = Csv.writeTable f.names f.texts :=
  String.toList_ofList

end TableFixture
