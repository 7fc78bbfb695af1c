import TableFixture.Csv.Writer
import TableFixture.Json.Rows
import TableFixture.Test.FixtureFile
import TableFixture.Text.Lossy

/-!
# Rendering lists of columns

A table and a JSON text can be made of any list of columns, whether or not it is one of a frame.
Columns without names are left out of headers and objects.  A cell that is asked for in a row
that its column does not have is an empty field, or `null`.  The rows are those of the first
column.  The bytes of a table are read as text whatever they are.

Main definitions:

- `Rendering.header`, `Rendering.record`, `Rendering.members`: what is rendered of a list of
  columns.
- `Rendering.writeTable`: writes the table into a sink.
- `Rendering.csvText`, `Rendering.jsonText`: the two texts.
-/

namespace TableFixture

namespace Column

/-- The text of the cell in the given row, if there is one. -/
def text? (c : Column) (row : Nat) : Option String := (c.cells.cell? row).map Cell.text

/-- The value of the cell in the given row, if there is one. -/
def scalar? (c : Column) (row : Nat) : Option Json.Scalar :=
  (c.get row).toOption.map Json.Scalar.ofCell

end Column

namespace Rendering

open Text.Utf8 (encode decodeLossy)

variable (columns : List Column)

/-- The names of the columns that have one. -/
def header : List String := columns.filterMap (·.name)

/-- The number of rows of the first column. -/
def rowCount : Nat := (columns.head?.map (·.length)).getD 0

/-! ## As a table -/

/-- The fields of a row. -/
def record (row : Nat) : List String := columns.map fun c => (c.text? row).getD ""

/-- The header and the rows, as fields of bytes. -/
def records : List (List (List UInt8)) :=
  (header columns :: (List.range (rowCount columns)).map (record columns)).map
    (·.map fun field => encode field.toList)

/-- Writes the table into a sink to which chunks are offered in the given way. -/
def writeTable (offer : Sink → List UInt8 → Except SystemError Unit × Sink) (sink : Sink) :
    Except Error Unit × Sink :=
  Csv.writeInto offer (records columns) sink

/-- The table as text. -/
def csvText : Except Error String :=
  match writeTable columns Sink.take .unbounded with
  | (.ok (), sink) => .ok (String.ofList (decodeLossy sink.received))
  | (.error e, _) => .error e

/-! ## As JSON -/

/-- The object of a row, set column by column. -/
def members (row : Nat) : Json.Members :=
  Json.objectOf (columns.filterMap fun c => c.name.map fun name =>
    (name, (c.scalar? row).getD .null))

/-- One object for each row. -/
def objects : List Json.Members := (List.range (rowCount columns)).map (members columns)

/-- The objects as JSON text, for which a sink must have room. -/
def jsonText : Except Error String :=
  let text := Json.writeArray (objects columns)
  match Sink.unbounded.take (encode text) with
  | (.ok (), _) => .ok (String.ofList text)
  | (.error e, _) => .error (.json e.text)

end Rendering

namespace TestContext

variable {κ : Type}

/-- Renders columns and creates a fixture file with their table; the test is stopped if either
fails. -/
def createRenderedCsv (ctx : TestContext κ) (columns : List Column) (site : String)
    (s : Scene κ) : Except String String × Scene κ :=
  match Rendering.csvText columns with
  | .ok text => ctx.createCsv (Text.Utf8.encode text.toList) site s
  | .error e =>
    let failure : Failure := ⟨"failed to render fixture frame: " ++ e.message, site⟩
    (.error (ctx.abort failure s).1, (ctx.abort failure s).2)

end TestContext

end TableFixture
