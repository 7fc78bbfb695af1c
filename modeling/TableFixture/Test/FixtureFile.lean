import TableFixture.Csv.Written
import TableFixture.Test.Context

/-!
# Fixture files

A fixture file is written into a fresh directory of the context, where it is the only
entry, and is readable by everyone and writable by its owner whatever the mask of the
store.  If it cannot be created, or not be completed, the test is stopped.

Main results:

- Theorem `createFile_of_writeFixture_error`: the test is stopped if the file cannot be
  written, after what came before the refusal.
-/

namespace TableFixture.TestContext

variable {κ : Type}

/-- The permission bits of fixture files. -/
def fixtureMode : Nat := 0o644

/-- The name of a fixture file with the given extension. -/
def fixtureName (extension : String) : String := "test" ++ extension

/-- The names of fixture files start with a letter. -/
theorem toList_fixtureName (extension : String) :
    (fixtureName extension).toList = 't' :: (['e', 's', 't'] ++ extension.toList) := by
  simp [fixtureName]

/-- Writes a file of the given name into a fresh directory. -/
def writeFixture (ctx : TestContext κ) (name : String) (content : List UInt8) (s : Scene κ) :
    Except Error String × Scene κ :=
  match ctx.tempDir s with
  | (.error e, s') => (.error e, s')
  | (.ok directory, s') =>
    let path := Path.join directory name
    match s'.world.writeNew path fixtureMode content with
    | (.error e, w) => (.error (.system e), { s' with world := w })
    | (.ok (), w) => (.ok path, { s' with world := w.note (.wrote content.length path) })

/-- The failure of a fixture file that could not be created. -/
def creationFailure (name : String) (e : Error) (site : String) : Failure :=
  ⟨"failed to create fixture file " ++ name ++ ": " ++ e.message, site⟩

/-- Creates a fixture file with the given content and extension, or stops the test. -/
def createFile (ctx : TestContext κ) (content : List UInt8) (extension site : String)
    (s : Scene κ) : Except String String × Scene κ :=
  match ctx.writeFixture (fixtureName extension) content s with
  | (.ok path, s') => (.ok path, s')
  | (.error e, s') =>
    let failure := creationFailure (fixtureName extension) e site
    (.error (ctx.abort failure s').1, (ctx.abort failure s').2)

/-- Creates a fixture file for a table. -/
def createCsv (ctx : TestContext κ) (content : List UInt8) (site : String) (s : Scene κ) :
    Except String String × Scene κ :=
  ctx.createFile content ".csv" site s

/-- Creates a fixture file with the table of a frame. -/
def createFrameCsv (ctx : TestContext κ) (f : Frame) (site : String) (s : Scene κ) :
    Except String String × Scene κ :=
  ctx.createCsv (Text.Utf8.encode f.toCsv.toList) site s

/-- A header and rows, each a line of fields with commas between them; nothing is quoted. -/
def plainTable (headers : List String) (rows : List (List String)) : List Char :=
  (headers :: rows).flatMap fun fields =>
    [','].intercalate (fields.map String.toList) ++ ['\n']

/-- Creates a fixture file with a header and rows as they stand. -/
def createRowsCsv (ctx : TestContext κ) (headers : List String) (rows : List (List String))
    (site : String) (s : Scene κ) : Except String String × Scene κ :=
  ctx.createCsv (Text.Utf8.encode (plainTable headers rows)) site s

/-- If the file cannot be written the test is stopped, and nothing else happens. -/
theorem createFile_of_writeFixture_error {ctx : TestContext κ} {s s' : Scene κ} {e : Error}
    {content : List UInt8} {extension : String}
    (h : ctx.writeFixture (fixtureName extension) content s = (.error e, s')) (site : String) :
    ctx.createFile content extension site s
      = (.error (ctx.abort (creationFailure (fixtureName extension) e site) s').1,
        (ctx.abort (creationFailure (fixtureName extension) e site) s').2) := by
  rw [createFile, h]

end TableFixture.TestContext
