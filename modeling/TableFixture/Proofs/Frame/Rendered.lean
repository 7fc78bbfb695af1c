import TableFixture.Rendering
import TableFixture.Proofs.Csv.Delivery
import TableFixture.Proofs.Csv.Writer
import TableFixture.Proofs.Frame.Growth

/-!
# Frames are rendered whole

Lists of columns are rendered whatever they hold: columns without a name are left out, a cell
that is missing has a default, bytes that are no text are replaced, and what cannot be written
stops the test.  The columns of a frame meet none of this.  They all have names and are equally
long, so there is a cell for every field and every value, every record is as wide as the header,
and a sink that takes everything receives the bytes of the table.

Main results:

- Theorem `exists_hasCells`: in every row each column of a frame has a cell.
- Theorem `writeTable_toColumns`, `csvText_toColumns`, `jsonText_toColumns`: the columns of a
  frame are rendered as the frame is.
- Theorem `exists_toColumns_eq_of_reachable`: however columns are put together, they are the
  columns of a frame.
- Theorem `rendered_of_reachable`: columns that were put together are rendered whole.
-/

namespace TableFixture

/-! ## Cells that are there -/

namespace Column

/-- Asking a column for a cell finds the one that is there. -/
theorem toOption_get (c : Column) (row : Nat) : (c.get row).toOption = c.cells.cell? row := by
  unfold get
  cases c.cells.cell? row <;> rfl

section

variable {c : Column} {cell : Cell} {row : Nat}

/-- The text of a cell that is there. -/
theorem text?_of_get (h : c.get row = .ok cell) : c.text? row = some cell.text := by
  rw [text?, ← toOption_get, h]
  rfl

/-- The value of a cell that is there. -/
theorem scalar?_of_get (h : c.get row = .ok cell) : c.scalar? row = some (.ofCell cell) := by
  rw [scalar?, h]
  rfl

end

end Column

namespace Rendering

/-- Each column has the given cell in a row. -/
def HasCells (columns : List Column) (row : Nat) (cells : List Cell) : Prop :=
  List.Forall₂ (fun c cell => c.get row = .ok cell) columns cells

section

variable {columns : List Column} {cells : List Cell} {row : Nat}

/-- The fields of a row are the texts of its cells. -/
theorem record_of_hasCells (h : HasCells columns row cells) :
    record columns row = cells.map Cell.text := by
  induction h with
  | nil => rfl
  | cons hcell _ ih =>
      rw [record, List.map_cons, Column.text?_of_get hcell, List.map_cons, ← ih]
      rfl

/-- The members of a row are its cells under the names of the columns. -/
theorem members_of_hasCells (hnamed : ∀ c ∈ columns, c.name.isSome = true)
    (h : HasCells columns row cells) :
    members columns row
      = Json.objectOf ((header columns).zip (cells.map Json.Scalar.ofCell)) := by
  rw [members]
  congr 1
  induction h with
  | nil => rfl
  | @cons c cell columns cells hcell _ ih =>
      rcases Option.isSome_iff_exists.1 (hnamed c List.mem_cons_self) with ⟨name, hname⟩
      have hheader : header (c :: columns) = name :: header columns :=
        List.filterMap_cons_some hname
      rw [hheader, List.filterMap_cons_some (by rw [hname]; rfl), Column.scalar?_of_get hcell,
        ih fun d hd => hnamed d (List.mem_cons_of_mem c hd), List.map_cons, List.zip_cons_cons]
      rfl

end

end Rendering

namespace Frame

open Text.Utf8 (encode decode decodeLossy decode_encode decodeLossy_of_decode)
open Rendering (HasCells)

/-! ## The columns of a frame -/

section

variable (f : Frame)

theorem header_toColumns : Rendering.header f.toColumns = f.names := (find?_toColumns f).1

/-- No column of a frame is left out of its header. -/
theorem map_name_toColumns :
    f.toColumns.map (·.name) = (Rendering.header f.toColumns).map some := by
  rw [header_toColumns, toColumns, names, List.map_map, List.map_map]
  rfl

theorem rowCount_toColumns : Rendering.rowCount f.toColumns = f.rowCount := by
  rw [Rendering.rowCount, toColumns, List.head?_map, Option.map_map]
  rfl

/-- A row of a frame is inside every column. -/
theorem length_of_mem_toColumns {c : Column} (h : c ∈ f.toColumns) :
    c.length = Rendering.rowCount f.toColumns := by
  rcases List.mem_map.1 h with ⟨named, hnamed, rfl⟩
  rw [rowCount_toColumns]
  exact f.length_of_mem_columns hnamed

/-- In every row of a frame each column has a cell. -/
theorem exists_hasCells {row : Nat} (h : row < Rendering.rowCount f.toColumns) :
    ∃ cells, HasCells f.toColumns row cells := by
  have hcell : ∀ c ∈ f.toColumns, ∃ cell, c.get row = .ok cell := by
    intro c hc
    cases hget : c.get row with
    | ok cell => exact ⟨cell, rfl⟩
    | error e =>
        have hout := ((c.get_eq_error_iff row e).1 hget).1
        rw [f.length_of_mem_toColumns hc] at hout
        exact absurd h (Nat.not_lt.2 hout)
  generalize f.toColumns = columns at hcell
  induction columns with
  | nil => exact ⟨[], .nil⟩
  | cons c columns ih =>
      rcases hcell c List.mem_cons_self with ⟨cell, hget⟩
      rcases ih fun d hd => hcell d (List.mem_cons_of_mem c hd) with ⟨cells, hcells⟩
      exact ⟨cell :: cells, .cons hget hcells⟩

/-- The fields of a row are the texts of its cells in the frame. -/
theorem record_toColumns (row : Nat) : Rendering.record f.toColumns row = f.rowTexts row := by
  rw [Rendering.record, toColumns, List.map_map]
  rfl

/-- The members of a row are those of the row of the frame. -/
theorem members_toColumns (row : Nat) : Rendering.members f.toColumns row = f.rowMembers row := by
  have hmember : ∀ c : NamedColumn,
      (c.toColumn.name.map fun name => (name, (c.toColumn.scalar? row).getD .null))
        = some (c.name, scalarAt c row) := by
    intro c
    rw [Column.scalar?, Column.toOption_get]
    rfl
  rw [Rendering.members, rowMembers, toColumns, List.filterMap_map, ← List.filterMap_eq_map]
  congr 1
  exact List.filterMap_congr fun c _ => hmember c

/-- The records of a frame are its header and its rows, all as wide as the header. -/
theorem length_of_mem_records {fields : List (List UInt8)}
    (h : fields ∈ Rendering.records f.toColumns) :
    fields.length = (Rendering.header f.toColumns).length := by
  rcases List.mem_map.1 h with ⟨texts, htexts, rfl⟩
  rw [List.length_map]
  rcases List.mem_cons.1 htexts with rfl | hrow
  · rfl
  · rcases List.mem_map.1 hrow with ⟨row, -, rfl⟩
    rw [record_toColumns, header_toColumns, rowTexts, List.length_map, names, List.length_map]

/-! ## Tables -/

/-- The pieces of the records of a frame are those of its table. -/
theorem flatMap_records :
    ((Rendering.records f.toColumns).flatMap fun fields =>
      Csv.openRecord fields ++ Csv.closeRecord fields) = Csv.tablePieces f.names f.texts := by
  have hrows : (List.range f.rowCount).map (Rendering.record f.toColumns) = f.texts :=
    List.map_congr_left fun row _ => f.record_toColumns row
  rw [Rendering.records, header_toColumns, rowCount_toColumns, hrows, List.flatMap_map,
    Csv.tablePieces]
  refine List.flatMap_congr fun fields _ => ?_
  rw [← Csv.openRecord_append_closeRecord, List.map_map]
  rfl

/-- The columns of a frame are written as its table, into whatever sink. -/
theorem writeTable_toColumns (offer : Sink → List UInt8 → Except SystemError Unit × Sink)
    (sink : Sink) : Rendering.writeTable f.toColumns offer sink = f.writeCsvBy offer sink := by
  have hwidth : ∀ fields ∈ Rendering.records f.toColumns,
      fields.length = (Rendering.header f.toColumns).length := fun _ => f.length_of_mem_records
  have hwrite : Csv.writeInto offer _ sink = _ := Csv.writeInto_eq hwidth sink
  rw [flatMap_records] at hwrite
  exact hwrite

/-- The bytes of the table are read as its text. -/
theorem csvText_toColumns : Rendering.csvText f.toColumns = .ok f.toCsv := by
  have hwrite : Rendering.writeTable f.toColumns Sink.take .unbounded
      = (.ok (), { Sink.unbounded with received := [] ++ encode f.toCsv.toList }) :=
    (f.writeTable_toColumns Sink.take .unbounded).trans (f.writeCsv_of_unbounded rfl rfl)
  rw [Rendering.csvText, hwrite]
  dsimp only
  rw [List.nil_append, decodeLossy_of_decode (decode_encode _), String.ofList_toList]

/-- The objects of the rows are those of the frame. -/
theorem jsonText_toColumns : Rendering.jsonText f.toColumns = .ok f.toJson := by
  have hobjects : Rendering.objects f.toColumns = f.toRecords := by
    rw [Rendering.objects, rowCount_toColumns, toRecords]
    exact List.map_congr_left fun row _ => f.members_toColumns row
  have htaken : Sink.unbounded.take (encode (Json.writeArray f.toRecords)) = _ :=
    Csv.take_of_unbounded rfl _
  rw [Rendering.jsonText, hobjects, htaken, toJson]

/-- Rendering the columns of a frame does not stop a test. -/
theorem createRenderedCsv_toColumns {κ : Type} (ctx : TestContext κ) (site : String)
    (s : Scene κ) :
    ctx.createRenderedCsv f.toColumns site s = ctx.createFrameCsv f site s := by
  rw [TestContext.createRenderedCsv, csvText_toColumns]
  rfl

end

/-! ## Columns that were put together -/

/-- Columns that were put together, call by call, at once, or by the builder of frames. -/
inductive Reachable : List Column → Prop where
  /-- At first there are none. -/
  | new : Reachable []
  /-- One more was added in place, or refused. -/
  | added {columns : List Column} (c : Column) : Reachable columns →
      Reachable (callInPlace c columns).2
  /-- They were assembled. -/
  | assembled {cs : List Column} {f : Frame} : ofColumns cs = .ok f → Reachable f.toColumns
  /-- They were given to the builder of frames, which may have refused others. -/
  | built {columns : List NamedColumn} {f g : Frame} :
      frameBuilder.finish (runCalls frameBuilder.column columns empty).2 = (.ok f, g) →
      Reachable f.toColumns

/-- However columns were put together, they are the columns of a frame. -/
theorem exists_toColumns_eq_of_reachable {columns : List Column} (h : Reachable columns) :
    ∃ f : Frame, f.toColumns = columns := by
  induction h with
  | new => exact ⟨empty, rfl⟩
  | added c _ ih =>
      rcases ih with ⟨f, rfl⟩
      exact ⟨(f.offer c).2, (congrArg Prod.snd (run_addInPlace_eq_offer c f)).symm⟩
  | assembled => exact ⟨_, rfl⟩
  | built => exact ⟨_, rfl⟩

/-! ## Rendering -/

/-- Columns are rendered whole: nothing is left out, no default is taken and nothing fails. -/
structure Rendered (columns : List Column) (bytes : List UInt8) (csv json : String) : Prop where
  /-- Every column has its name in the header. -/
  names : columns.map (·.name) = (Rendering.header columns).map some
  /-- Cells are asked for in rows that the columns have. -/
  inside : ∀ row < Rendering.rowCount columns, ∀ c ∈ columns, row < c.length
  /-- Fields and values are those of cells that are there. -/
  rows : ∀ row < Rendering.rowCount columns, ∃ cells, HasCells columns row cells ∧
    Rendering.record columns row = cells.map Cell.text ∧
    Rendering.members columns row
      = Json.objectOf ((Rendering.header columns).zip (cells.map Json.Scalar.ofCell))
  /-- Every record is as wide as the header. -/
  width : ∀ fields ∈ Rendering.records columns,
    fields.length = (Rendering.header columns).length
  /-- No record has another width, into whatever sink they are written. -/
  equalWidth : ∀ offer sink expected found,
    (Rendering.writeTable columns offer sink).1 ≠ .error (.csv (.unequalRecord expected found))
  /-- A sink that takes everything, in whatever portions, receives the bytes. -/
  written : ∀ portion received refusal,
    Rendering.writeTable columns (Sink.takePortions portion) ⟨none, received, refusal, none⟩
      = (.ok (), ⟨none, received ++ bytes, refusal, none⟩)
  /-- The bytes are the encoding of a text, and nothing of it is replaced. -/
  valid : decode bytes = .ok csv.toList ∧ decodeLossy bytes = csv.toList
  csvText : Rendering.csvText columns = .ok csv ∧ encode csv.toList = bytes
  jsonText : Rendering.jsonText columns = .ok json
  /-- A fixture file is created of the bytes, and no test is stopped before. -/
  created : ∀ {κ : Type} (ctx : TestContext κ) site s,
    ctx.createRenderedCsv columns site s = ctx.createCsv bytes site s

/-- Writing the table of a frame fails, if it does, as the sink does. -/
theorem writeCsvBy_ne_unequalRecord (f : Frame)
    (offer : Sink → List UInt8 → Except SystemError Unit × Sink) (sink : Sink)
    (expected found : Nat) :
    (f.writeCsvBy offer sink).1 ≠ .error (.csv (.unequalRecord expected found)) := by
  unfold writeCsvBy
  rcases Csv.feed offer (.ofBytes []) (Csv.tablePieces f.names f.texts) sink
    with ⟨⟨e, buffer⟩ | buffer, sink'⟩
  · simp
  · dsimp only
    rcases Csv.finish offer buffer sink' with ⟨_ | _, sink''⟩ <;> simp

/-- The columns of a frame are rendered whole. -/
theorem rendered_toColumns (f : Frame) :
    Rendered f.toColumns (encode f.toCsv.toList) f.toCsv f.toJson where
  names := f.map_name_toColumns
  inside row hrow c hc := by rwa [f.length_of_mem_toColumns hc]
  rows row hrow := by
    rcases f.exists_hasCells hrow with ⟨cells, hcells⟩
    exact ⟨cells, hcells, Rendering.record_of_hasCells hcells,
      Rendering.members_of_hasCells (sound_toColumns f).named hcells⟩
  width _ := f.length_of_mem_records
  equalWidth offer sink expected found := by
    rw [writeTable_toColumns]
    exact f.writeCsvBy_ne_unequalRecord offer sink expected found
  written portion received refusal := by
    rw [writeTable_toColumns, writeCsvBy_takePortions, writeCsv_of_unbounded f rfl rfl]
  valid := ⟨decode_encode _, decodeLossy_of_decode (decode_encode _)⟩
  csvText := ⟨f.csvText_toColumns, rfl⟩
  jsonText := f.jsonText_toColumns
  created ctx site s := f.createRenderedCsv_toColumns ctx site s

/-- Columns that were put together, in whatever way, are rendered whole, as the table and the
JSON text of the frame that they are. -/
theorem rendered_of_reachable {columns : List Column} (h : Reachable columns) :
    ∃ f : Frame, f.toColumns = columns ∧
      Rendered columns (encode f.toCsv.toList) f.toCsv f.toJson := by
  rcases exists_toColumns_eq_of_reachable h with ⟨f, rfl⟩
  exact ⟨f, rfl, f.rendered_toColumns⟩

/-- A column whose name and cells need quotes, and more than one byte for a character. -/
def quotedColumn : Column := .named "né\"e" (.string ["a,b", "", "\u20AC\n"])

/-- A column that was added is rendered whole. -/
theorem rendered_quotedColumn :
    Reachable [quotedColumn] ∧
      ∃ f : Frame, f.toColumns = [quotedColumn] ∧
        Rendered [quotedColumn] (encode f.toCsv.toList) f.toCsv f.toJson := by
  have hreachable : Reachable [quotedColumn] := .added quotedColumn .new
  exact ⟨hreachable, rendered_of_reachable hreachable⟩

/-- Columns that were not put together may not be rendered at all. -/
example : Rendering.csvText [.named "a" (.string ["x"]), .unnamed (.string ["y"])]
    = .error (.csv (.unequalRecord 1 2)) := by rfl

end Frame

end TableFixture
