import TableFixture.Csv.Reader
import TableFixture.Csv.Sink
import TableFixture.Fixture
import TableFixture.Json.Rows
import TableFixture.Binary64.Arithmetic
import TableFixture.Csv.File
import TableFixture.Rendering
import TableFixture.Test.Action
import TableFixture.Test.Case
import TableFixture.Test.Run
import TableFixture.Proofs.Decimal.ReadBack
import TableFixture.Proofs.Text.Encoding
import TableFixture.Proofs.Decimal.Numeral
import TableFixture.Proofs.Csv.Splitting
import TableFixture.Proofs.Csv.Reading
import TableFixture.Proofs.Csv.Inference
import TableFixture.Proofs.Csv.Spelling
import TableFixture.Proofs.Csv.WrittenTable
import TableFixture.Proofs.Csv.RoundTrip
import TableFixture.Proofs.Csv.NormalForm
import TableFixture.Proofs.Csv.Acceptance
import TableFixture.Proofs.Json.Decoding
import TableFixture.Proofs.Json.Records
import TableFixture.Proofs.Files.Target
import TableFixture.Proofs.Files.Tree
import TableFixture.Proofs.Test.History
import TableFixture.Proofs.Test.Verdict
import TableFixture.Proofs.Files.Confined
import TableFixture.Proofs.Test.Directories
import TableFixture.Proofs.Frame.Growth
import TableFixture.Proofs.Csv.Unambiguous
import TableFixture.Proofs.Csv.Delivery
import TableFixture.Proofs.Files.EmptyDirectory
import TableFixture.Proofs.Files.NewFile
import TableFixture.Proofs.Test.Creation
import TableFixture.Proofs.Csv.PlainTable
import TableFixture.Proofs.Test.FixtureTables
import TableFixture.Proofs.Csv.Widening
import TableFixture.Proofs.Json.ReadBack
import TableFixture.Proofs.Frame.Renderings
import TableFixture.Proofs.Binary64.Order
import TableFixture.Proofs.Test.FloatNear
import TableFixture.Proofs.Frame.FirstMisfit
import TableFixture.Proofs.Csv.Writer
import TableFixture.Proofs.Frame.Rendered
import TableFixture.Proofs.Frame.Shapes
import TableFixture.Proofs.Files.Hosting
import TableFixture.Proofs.Files.Subtree
import TableFixture.Proofs.Test.Steps
import TableFixture.Proofs.Test.Hosting
import TableFixture.Proofs.Test.Undisturbed
import TableFixture.Proofs.Test.Transcript
import TableFixture.Proofs.Test.Placement
import TableFixture.Proofs.Csv.FloatTexts
