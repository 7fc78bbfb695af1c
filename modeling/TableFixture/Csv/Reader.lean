import TableFixture.Csv.Inference
import TableFixture.Csv.Record
import TableFixture.Frame
import TableFixture.Text.Blank
import TableFixture.Text.Utf8

/-!
# Reading tables

The first record of a table names the columns, every other is a row.  A row must have
as many fields as the header, and every field must be text.  Names and fields are
trimmed, and each column gets the narrowest type that all its fields have.

Main results:

- Theorem `length_of_readTable`: every row that is read has a text for each name.
- Theorem `length_columns`: reading yields a column for each name.
-/

namespace TableFixture

namespace Csv

/-! ## Records as texts -/

/-- Where a record stands in its table. -/
def RawRecord.position (r : RawRecord) (number : Nat) : Position :=
  ⟨number, r.start.lineFeeds + 1, r.start.bytes⟩

/-- The texts of fields, the first of them having the given number in its record. -/
def decodeFields (position : Position) : Nat → List (List UInt8) → Except CsvError (List (List Char))
  | _, [] => .ok []
  | number, field :: fields =>
    match Text.Utf8.decode field with
    | .error validBytes => .error (.invalidUtf8 position number validBytes)
    | .ok cs =>
      match decodeFields position (number + 1) fields with
      | .error e => .error e
      | .ok rest => .ok (cs :: rest)

/-- A text without the blanks at its ends. -/
def trimmed (cs : List Char) : String := String.ofList (Text.trimBoth Text.isBlank cs)

/-- The names in the header; bytes are counted in its fields as they stand. -/
def readHeader (r : RawRecord) : Except CsvError (List String) :=
  match decodeFields (r.position 0) 0 r.fields with
  | .error e => .error e
  | .ok texts => .ok (texts.map trimmed)

/-- The texts of a row of the given width; bytes are counted in its fields after the
ASCII blanks at their ends. -/
def readRow (width number : Nat) (r : RawRecord) : Except CsvError (List String) :=
  if r.fields.length ≠ width then
    .error (.unequalLengths (r.position number) width r.fields.length)
  else
    match decodeFields (r.position number) 0
        (r.fields.map (Text.trimBoth Text.isBlankByte)) with
    | .error e => .error e
    | .ok texts => .ok (texts.map trimmed)

/-- The texts of rows of the given width, the first of them having the given number. -/
def readRows (width : Nat) : Nat → List RawRecord → Except CsvError (List (List String))
  | _, [] => .ok []
  | number, r :: rs =>
    match readRow width number r with
    | .error e => .error e
    | .ok row =>
      match readRows width (number + 1) rs with
      | .error e => .error e
      | .ok rows => .ok (row :: rows)

/-- The names and the rows of a table. -/
def readTable (bytes : List UInt8) : Except CsvError (List String × List (List String)) :=
  match records bytes with
  | [] => .ok ([], [])
  | header :: data =>
    match readHeader header with
    | .error e => .error e
    | .ok names =>
      match readRows names.length 1 data with
      | .error e => .error e
      | .ok rows => .ok (names, rows)

/-! ## Columns -/

/-- The texts of the column of the given number, row by row. -/
def columnTexts (rows : List (List String)) (number : Nat) : List String :=
  rows.map fun row => row.getD number ""

/-- The columns of a table, each with the narrowest type that all its texts have. -/
def columns (names : List String) (rows : List (List String)) : List Column :=
  names.zipIdx.map fun (name, number) => .named name (inferCells (columnTexts rows number))

@[simp] theorem length_columns (names : List String) (rows : List (List String)) :
    (columns names rows).length = names.length := by
  simp [columns]

end Csv

/-- The frame of the table in the bytes. -/
def Frame.ofCsvBytes (bytes : List UInt8) : Except Error Frame :=
  match Csv.readTable bytes with
  | .error e => .error (.csv e)
  | .ok (names, rows) => Frame.ofColumns (Csv.columns names rows)

/-- The frame of the table in a text. -/
def Frame.ofCsv (text : String) : Except Error Frame :=
  Frame.ofCsvBytes (Text.Utf8.encode text.toList)

namespace Csv

/-! ## Laws -/

/-- Decoding keeps the number of fields. -/
theorem length_of_decodeFields {position : Position} {number : Nat} {fields : List (List UInt8)}
    {texts : List (List Char)} (h : decodeFields position number fields = .ok texts) :
    texts.length = fields.length := by
  induction fields generalizing number texts with
  | nil =>
    obtain rfl := Except.ok.inj h
    rfl
  | cons field fields ih =>
    unfold decodeFields at h
    split at h
    · exact absurd h (by simp)
    · split at h
      · exact absurd h (by simp)
      next hrest =>
        obtain rfl := Except.ok.inj h
        simp [ih hrest]

/-- A row that is read has the width asked for. -/
theorem length_of_readRow {width number : Nat} {r : RawRecord} {row : List String}
    (h : readRow width number r = .ok row) : row.length = width := by
  unfold readRow at h
  split at h
  · exact absurd h (by simp)
  next hwidth =>
    split at h
    · exact absurd h (by simp)
    next htexts =>
      obtain rfl := Except.ok.inj h
      simpa [length_of_decodeFields htexts] using hwidth

/-- Every row that is read has the width asked for. -/
theorem length_of_readRows {width number : Nat} {rs : List RawRecord} {rows : List (List String)}
    (h : readRows width number rs = .ok rows) : ∀ row ∈ rows, row.length = width := by
  induction rs generalizing number rows with
  | nil =>
    obtain rfl := Except.ok.inj h
    simp
  | cons r rs ih =>
    unfold readRows at h
    split at h
    · exact absurd h (by simp)
    next hrow =>
      split at h
      · exact absurd h (by simp)
      next hrows =>
        obtain rfl := Except.ok.inj h
        intro row hmem
        rcases List.mem_cons.1 hmem with rfl | hmem
        · exact length_of_readRow hrow
        · exact ih hrows row hmem

/-- Every row of a table that is read has a text for each name. -/
theorem length_of_readTable {bytes : List UInt8} {names : List String}
    {rows : List (List String)} (h : readTable bytes = .ok (names, rows)) :
    ∀ row ∈ rows, row.length = names.length := by
  unfold readTable at h
  split at h
  · obtain ⟨rfl, rfl⟩ := Prod.mk.inj (Except.ok.inj h)
    simp
  · split at h
    · exact absurd h (by simp)
    · split at h
      · exact absurd h (by simp)
      next hrows =>
        obtain ⟨rfl, rfl⟩ := Prod.mk.inj (Except.ok.inj h)
        exact length_of_readRows hrows

end Csv

end TableFixture
