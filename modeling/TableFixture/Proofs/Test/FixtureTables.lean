import TableFixture.Csv.File
import TableFixture.Proofs.Csv.PlainTable
import TableFixture.Proofs.Test.Creation

/-!
# Tables in fixture files

A fixture file that was created holds the content it was created with.  So a file that was
created for a header and rows is read as the rows that are not empty lines, and it holds the
same bytes as one that was created for a frame of the same names and texts exactly if the
frame needs no quotes.

Main results:

- Theorem `open?_of_createCsv`: what a fixture file holds.
- Theorem `readsRows_of_createRowsCsv`: what is read from a file of rows.
- Theorem `bytes_of_createRowsCsv_eq_iff`: which frames have one file with and without quotes.
-/

namespace TableFixture

namespace TestContext

open Csv (NeedsNoQuotes ReadsRows Unquoted plainLine)
open Text.Utf8 (encode)

variable {κ : Type} {ctx : TestContext κ} {site path : String} {s s' : Scene κ}

/-- A fixture file that was created holds its content. -/
theorem open?_of_createCsv {content : List UInt8}
    (h : ctx.createCsv content site s = (.ok path, s')) :
    s'.world.files.open? path = .ok (.file content 0o644) := by
  have hcreates := creates_createFile ctx content ".csv" site s
  have herased := hcreates.erased
  rw [← createCsv, h] at herased
  obtain ⟨hpath, hscene⟩ := Prod.mk.inj herased
  rcases hdir : ctx.tempDir s with ⟨e | directory, s₁⟩
  · rw [hcreates.refused e s₁ hdir] at hpath
    exact absurd hpath.symm (stopped_ne_ok _ _ _ _ path)
  · rcases hcreates.otherwise directory s₁ hdir with
      ⟨-, files, hadded, htraced⟩ | ⟨-, cause, bytes, mode, files, -, -, htraced⟩ | ⟨-, htraced⟩
    · rw [htraced] at hpath hscene
      obtain rfl := Except.ok.inj hpath
      rw [hscene]
      exact hadded.opened
    · rw [htraced] at hpath
      exact absurd hpath.symm (stopped_ne_ok _ _ _ _ path)
    · rw [htraced] at hpath
      exact absurd hpath.symm (stopped_ne_ok _ _ _ _ path)

/-- A file that was created for a header and rows without special characters, the header not
being an empty line, is read as the rows that are not empty lines. -/
theorem readsRows_of_createRowsCsv {headers : List String} {rows : List (List String)}
    (hplain : ∀ fields ∈ headers :: rows, ∀ field ∈ fields, ∀ c ∈ field.toList,
      c ∉ [',', '"', '\r', '\n'])
    (hline : [','].intercalate (headers.map String.toList) ≠ [])
    (hmark : ([','].intercalate (headers.map String.toList)).head? ≠ some '\uFEFF')
    (hcreate : ctx.createRowsCsv headers rows site s = (.ok path, s')) :
    ReadsRows headers rows (Frame.ofCsvFile s'.world.files path) := by
  rw [Frame.ofCsvFile_of_open (open?_of_createCsv hcreate)]
  exact Csv.readsRows_ofCsvBytes hplain hline hmark

/-- For the names and the texts of a frame the same bytes are written as for the frame exactly
if the frame needs no quotes; so files that were created for them hold the same bytes exactly
then. -/
theorem bytes_of_createRowsCsv_eq_iff (f : Frame) :
    (encode (plainTable f.names f.texts) = encode f.toCsv.toList ↔ NeedsNoQuotes f) ∧
    ∀ (ctx : TestContext κ) (site site' path path' : String) (s s₁ s' s₁' : Scene κ),
      ctx.createRowsCsv f.names f.texts site s = (.ok path, s₁) →
      ctx.createFrameCsv f site' s' = (.ok path', s₁') →
      ∃ bytes bytes', s₁.world.files.open? path = .ok (.file bytes 0o644) ∧
        s₁'.world.files.open? path' = .ok (.file bytes' 0o644) ∧
        (bytes = bytes' ↔ NeedsNoQuotes f) := by
  have hiff : encode (plainTable f.names f.texts) = encode f.toCsv.toList ↔ NeedsNoQuotes f := by
    rw [← Csv.plainTable_eq_toCsv_iff]
    exact ⟨fun h => Text.Utf8.encode_injective h, fun h => by rw [h]⟩
  refine ⟨hiff, ?_⟩
  intro ctx site site' path path' s s₁ s' s₁' hrows hframe
  exact ⟨_, _, open?_of_createCsv hrows, open?_of_createCsv hframe, hiff⟩

end TestContext

namespace TestCase

/-- A test in a small world creates its first fixture file. -/
theorem exists_createCsv_smallWorld (content : List UInt8) (site : String) :
    ∃ path s', context.createCsv content site ⟨smallWorld, new "t"⟩ = (.ok path, s') := by
  have hempty := emptyDirectory_of_allocate closed_smallWorld allocate_smallWorld
  have hcreates := TestContext.creates_createFile context content ".csv" site ⟨smallWorld, new "t"⟩
  rcases hcreates.created _ _ allocate_smallWorld hempty (fits_csv _ _) (allows_smallWorld _) with
    ⟨files, -, -, htraced⟩
  have herased := hcreates.erased
  rw [htraced] at herased
  exact ⟨_, _, herased⟩

/-- A row without fields and one of an empty field are lost in a table of two columns. -/
theorem readsRows_emptyLines :
    ∃ path s' f, context.createRowsCsv ["a", "b"] [["1", "x"], [], [""], ["2", " "]] "f:1"
        ⟨smallWorld, new "t"⟩ = (.ok path, s') ∧
      Frame.ofCsvFile s'.world.files path = .ok f ∧ f.columnCount = 2 ∧ f.rowCount = 2 := by
  rcases exists_createCsv_smallWorld (Text.Utf8.encode
    (TestContext.plainTable ["a", "b"] [["1", "x"], [], [""], ["2", " "]])) "f:1" with
    ⟨path, s', hcreate⟩
  have hreads := @TestContext.readsRows_of_createRowsCsv _ context "f:1" path _ s' ["a", "b"]
    [["1", "x"], [], [""], ["2", " "]] (by simp) (by decide) (by decide) hcreate
  rcases hreads.frame (by decide) (by decide) with ⟨f, hf, hcolumns, hrows, -⟩
  exact ⟨path, s', f, hcreate, hf, hcolumns, hrows⟩

/-- A comma in a cell makes the files differ. -/
theorem bytes_of_comma :
    ∃ path s₁ path' s₁' bytes bytes',
      context.createRowsCsv ["a"] [["1,2"]] "f:1" ⟨smallWorld, new "t"⟩ = (.ok path, s₁) ∧
      context.createFrameCsv ⟨[⟨"a", .string ["1,2"]⟩], by decide, by decide⟩ "f:2"
        ⟨smallWorld, new "t"⟩ = (.ok path', s₁') ∧
      s₁.world.files.open? path = .ok (.file bytes 0o644) ∧
      s₁'.world.files.open? path' = .ok (.file bytes' 0o644) ∧ bytes ≠ bytes' := by
  let f : Frame := ⟨[⟨"a", .string ["1,2"]⟩], by decide, by decide⟩
  rcases exists_createCsv_smallWorld (Text.Utf8.encode
    (TestContext.plainTable f.names f.texts)) "f:1" with ⟨path, s₁, hrows⟩
  rcases exists_createCsv_smallWorld (Text.Utf8.encode f.toCsv.toList) "f:2" with
    ⟨path', s₁', hframe⟩
  rcases (TestContext.bytes_of_createRowsCsv_eq_iff f).2 context "f:1" "f:2" path path' _ s₁ _ s₁'
    hrows hframe with ⟨bytes, bytes', hbytes, hbytes', hiff⟩
  refine ⟨path, s₁, path', s₁', bytes, bytes', hrows, hframe, hbytes, hbytes', ?_⟩
  rw [ne_eq, hiff]
  intro hquotes
  exact absurd (hquotes.texts ["1,2"] (by decide) "1,2" (by decide) ',' (by decide)) (by decide)

end TestCase

end TableFixture
