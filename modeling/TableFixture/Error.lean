/-!
# Errors

An error is its cause: what the operating system answered, where a table stopped
being readable, or which rule of frames a column broke.  The wording of each cause
stands in one function.

Main definitions:

- `SystemError`: an answer of the operating system, or of a sink that takes bytes.
- `CsvError`: why a table could not be read or written.
- `Error`, `Error.message`: every error of the library and its text.
-/

namespace TableFixture

/-! ## Column types -/

/-- The types of columns. -/
inductive ColumnType where
  | int64
  | float64
  | string
deriving DecidableEq, Repr

/-- The name of a column type in messages. -/
def ColumnType.name : ColumnType → String
  | .int64 => "Int64"
  | .float64 => "Float64"
  | .string => "String"

/-! ## Answers of the system -/

/-- The kinds of refusals of the operating system. -/
inductive SystemError.Kind where
  | notFound
  | notADirectory
  | isADirectory
  | alreadyExists
  | invalidInput
  | invalidFilename
  | storageFull
  | brokenPipe
deriving DecidableEq, Repr

/-- A refusal of the operating system or of a sink: its kind and its own text. -/
structure SystemError where
  kind : SystemError.Kind
  text : String
deriving DecidableEq, Repr

/-- The text that the operating system has for a kind of refusal. -/
def SystemError.Kind.text : SystemError.Kind → String
  | .notFound => "No such file or directory (os error 2)"
  | .notADirectory => "Not a directory (os error 20)"
  | .isADirectory => "Is a directory (os error 21)"
  | .alreadyExists => "File exists (os error 17)"
  | .invalidInput => "file name contained an unexpected NUL byte"
  | .invalidFilename => "File name too long (os error 36)"
  | .storageFull => "No space left on device (os error 28)"
  | .brokenPipe => "Broken pipe (os error 32)"

/-- The refusal of the operating system of the given kind. -/
def SystemError.ofKind (kind : SystemError.Kind) : SystemError := ⟨kind, kind.text⟩

@[simp] theorem SystemError.kind_ofKind (k : SystemError.Kind) : (SystemError.ofKind k).kind = k :=
  rfl

/-! ## Tables that cannot be read or written -/

/-- Where a record begins: its number, counted from zero, and the number of lines and
bytes consumed when the record before it ended. -/
structure Position where
  record : Nat
  line : Nat
  byte : Nat
deriving DecidableEq, Repr

/-- Why a table could not be read or written. -/
inductive CsvError where
  /-- A record with another number of fields than the header. -/
  | unequalLengths (position : Position) (expected found : Nat)
  /-- A record to be written with another number of fields than the first one. -/
  | unequalRecord (expected found : Nat)
  /-- A field that is not text from the given byte of it on. -/
  | invalidUtf8 (position : Position) (field validBytes : Nat)
  /-- A refusal while bytes were read or written. -/
  | system (cause : SystemError)
deriving DecidableEq, Repr

/-- The text of a cause that a table could not be read or written. -/
def CsvError.message : CsvError → String
  | .unequalLengths p expected found =>
    "CSV error: record " ++ toString p.record ++ " (line: " ++ toString p.line ++ ", byte: "
      ++ toString p.byte ++ "): found record with " ++ toString found
      ++ " fields, but the previous record has " ++ toString expected ++ " fields"
  | .unequalRecord expected found =>
    "CSV error: found record with " ++ toString found
      ++ " fields, but the previous record has " ++ toString expected ++ " fields"
  | .invalidUtf8 p field validBytes =>
    "CSV parse error: record " ++ toString p.record ++ " (line " ++ toString p.line ++ ", field: "
      ++ toString field ++ ", byte: " ++ toString p.byte ++ "): invalid utf-8: invalid UTF-8 in field "
      ++ toString field ++ " near byte index " ++ toString validBytes
  | .system cause => cause.text

/-! ## Every error -/

/-- The errors of building, reading and writing fixtures. -/
inductive Error where
  /-- The operating system or a sink refused. -/
  | system (cause : SystemError)
  /-- A table could not be read or written. -/
  | csv (cause : CsvError)
  /-- A JSON text could not be read or written. -/
  | json (text : String)
  /-- No column has the name. -/
  | columnNotFound (name : String)
  /-- The name belongs to another column already. -/
  | duplicateColumnName (name : String)
  /-- A column without a name was added to a frame. -/
  | unnamedColumn
  /-- A column has another number of rows than the frame. -/
  | inconsistentRowCount (expected found : Nat)
  /-- A column has another type than the one asked for. -/
  | columnTypeMismatch (name : String) (expected found : ColumnType)
  /-- A row outside a column was asked for. -/
  | indexOutOfBounds (index size : Nat)
deriving DecidableEq, Repr

/-- The text of an error; the causes of system, table and JSON errors have texts of
their own. -/
def Error.message : Error → String
  | .system _ => "I/O error"
  | .csv _ => "CSV error"
  | .json _ => "JSON error"
  | .columnNotFound name => "column not found: " ++ name
  | .duplicateColumnName name => "duplicate column name: " ++ name
  | .unnamedColumn => "column must be named before it is added to a frame"
  | .inconsistentRowCount expected found =>
    "inconsistent row count: expected " ++ toString expected ++ ", found " ++ toString found
  | .columnTypeMismatch name expected found =>
    "column type mismatch: column " ++ name ++ ", expected " ++ expected.name ++ ", found "
      ++ found.name
  | .indexOutOfBounds index size =>
    "index out of bounds: index " ++ toString index ++ ", size " ++ toString size

end TableFixture
