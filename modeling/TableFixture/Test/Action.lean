import TableFixture.Test.Assertion
import TableFixture.Test.FixtureFile

/-!
# What tests do

The actions of a test that need nothing but a context, and what each answers.

Main definitions:

- `Action.perform`: performs an action in a context; the outcome is its answer, or the
  text with which the test stops.
-/

namespace TableFixture

/-- The actions of a test that need nothing but a context. -/
inductive Action where
  | tempDir
  | createFile (content : List UInt8) (extension site : String)
  | createCsv (content : List UInt8) (site : String)
  | createRowsCsv (headers : List String) (rows : List (List String)) (site : String)
  | createFrameCsv (frame : Frame) (site : String)
  | floatNear (expected actual tolerance : Binary64) (site : String)
  | intEqual (expected actual : Int64) (site : String)
  | record (failure : Failure)
  | fail (outcome : Outcome) (failure : Failure)
  | abort (failure : Failure)

/-- What a step of a test answers. -/
inductive Answer where
  /-- Nothing. -/
  | done
  /-- A directory, or why there is none. -/
  | directory (result : Except Error String)
  /-- The path of a fixture file. -/
  | file (path : String)
  /-- Failures. -/
  | failures (failures : List Failure)
  /-- Yes or no. -/
  | flag (value : Bool)

/-- Performs an action in a context. -/
def Action.perform {κ : Type} (ctx : TestContext κ) :
    Action → Scene κ → Except String Answer × Scene κ
  | .tempDir, s => let (r, s') := ctx.tempDir s; (.ok (.directory r), s')
  | .createFile content extension site, s =>
    let (r, s') := ctx.createFile content extension site s; (r.map .file, s')
  | .createCsv content site, s => let (r, s') := ctx.createCsv content site s; (r.map .file, s')
  | .createRowsCsv headers rows site, s =>
    let (r, s') := ctx.createRowsCsv headers rows site s; (r.map .file, s')
  | .createFrameCsv f site, s => let (r, s') := ctx.createFrameCsv f site s; (r.map .file, s')
  | .floatNear expected actual tolerance site, s =>
    let (r, s') := ctx.assertFloatNear expected actual tolerance site s
    (r.map fun _ => .done, s')
  | .intEqual expected actual site, s =>
    let (r, s') := ctx.assertIntEqual expected actual site s; (r.map fun _ => .done, s')
  | .record failure, s => (.ok .done, ctx.record failure s)
  | .fail outcome failure, s =>
    let (r, s') := ctx.fail outcome failure s; (r.map fun _ => .done, s')
  | .abort failure, s => let (panic, s') := ctx.abort failure s; (.error panic, s')

end TableFixture
