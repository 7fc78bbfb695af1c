import TableFixture.Proofs.Csv.Unambiguous
import TableFixture.Proofs.Json.ReadBack
import TableFixture.Proofs.Json.Records

/-!
# The two texts of a frame

A frame is written as a table and as JSON text, by walks of their own: the table keeps the
order of the columns, an object the order of the names, and floats have another layout in
each.  Whoever splits the table and reads the JSON text finds the same cells in both.

Main results:

- Theorem `tail_split_toCsv`: the records of the table after its header are the rows.
- Theorem `readArray_toJson`: the objects of the JSON text are the rows.
- Theorem `denotesSame_of_cell`: the two texts of a cell denote it.
- Theorem `exists_toCsv_agrees_toJson`: field by field, the two texts agree.
-/

namespace TableFixture

namespace Frame

open Text.Utf8 (encode)
open Decimal (readInt64 readBinary64)

/-! ## Records -/

/-- The records of the table of a frame after its header are the texts of its rows; a frame
without columns has none. -/
theorem tail_split_toCsv (f : Frame) :
    (Csv.split (encode f.toCsv.toList)).tail
      = f.texts.map (·.map fun text => encode text.toList) := by
  rw [toList_toCsv]
  by_cases hcolumns : f.columns = []
  · have hnames : f.names = [] := by rw [names, hcolumns, List.map_nil]
    have htexts : f.texts = [] := by
      rw [texts, rowCount, hcolumns]
      rfl
    rw [hnames, htexts]
    decide
  · rw [Csv.split_writeTable (Csv.names_ne_nil hcolumns) (Csv.width_texts f), List.map_cons,
      List.tail_cons]

/-- The objects of the JSON text of a frame are its rows. -/
theorem readArray_toJson (f : Frame) :
    Json.readArray f.toJson.toList = some (f.toRecords.map Json.valuesOf) := by
  rw [toJson, String.toList_ofList]
  exact Json.readArray_writeArray isWritten_of_mem_toRecords

/-! ## Cells -/

/-- The field of a table and the value of a JSON text denote the same cell: the same integer,
the same string, the same float bit for bit, or a float that is not finite. -/
inductive DenotesSame (field : List Char) : Cell → Json.Value → Prop where
  | int64 {n : Int64} {decimal : List Char} : readInt64 field = some n →
      readInt64 decimal = some n → DenotesSame field (.int64 n) (.number decimal)
  | string {s : String} : field = s.toList → DenotesSame field (.string s) (.string s)
  | float64 {x : Binary64} {decimal : List Char} : readBinary64 field = some x →
      readBinary64 decimal = some x → DenotesSame field (.float64 x) (.number decimal)
  | notFinite {x : Binary64} : x.isFinite = false →
      String.ofList field ∈ ["NaN", "inf", "-inf"] → DenotesSame field (.float64 x) .null

/-- A float that is not finite is written by name. -/
theorem ofList_write_of_not_isFinite (layout : Decimal.Layout) {x : Binary64}
    (h : x.isFinite = false) : String.ofList (layout.write x) ∈ ["NaN", "inf", "-inf"] := by
  rcases Decimal.isNaN_or_isInfinite_or_lt x with hnan | hinf | hlt
  · rw [Decimal.write_of_isNaN layout hnan]
    decide
  · rw [Decimal.write_of_isInfinite layout hinf]
    cases x.negative <;> decide
  · exact absurd hlt (of_decide_eq_false h)

/-- The text of a cell in a table and its value in a JSON text denote it. -/
theorem denotesSame_of_cell (cell : Cell) :
    DenotesSame cell.text.toList cell (Json.Scalar.ofCell cell).value := by
  cases cell with
  | int64 n =>
      apply DenotesSame.int64
      · rw [Cell.text, String.toList_ofList, Decimal.readInt64_writeInteger]
      · exact Decimal.readInt64_writeInteger n
  | string s => exact .string rfl
  | float64 x =>
      rw [Cell.text, String.toList_ofList]
      cases hfinite : x.isFinite with
      | true =>
          rw [Json.Scalar.ofCell, if_pos hfinite]
          exact .float64 (Decimal.readBinary64_write_of_isFinite _ hfinite)
            (Decimal.readBinary64_write_of_isFinite _ hfinite)
      | false =>
          rw [Json.ofCell_float64_of_not_isFinite hfinite]
          exact .notFinite hfinite (ofList_write_of_not_isFinite _ hfinite)

/-! ## Frames -/

/-- The records of a table and the objects of a JSON text that both are those of a frame. -/
structure Agree (f : Frame) (records : List (List (List UInt8)))
    (objects : List (List (String × Json.Value))) : Prop where
  /-- There are as many objects as records, one of each for every row. -/
  rows : records.length = f.rowCount ∧ objects.length = f.rowCount
  /-- No object has two members of one name. -/
  distinct : ∀ object ∈ objects, (object.map (·.1)).Nodup
  /-- In every row, the field in the place of a column and the member under its name denote
  the cell of the column. -/
  cells : ∀ r < f.rowCount, ∀ (c : Nat) (column : NamedColumn), f.columns[c]? = some column →
    ∃ record field object value cell, records[r]? = some record ∧
      record[c]? = some (encode field) ∧ objects[r]? = some object ∧
      (column.name, value) ∈ object ∧ column.cells.cell? r = some cell ∧
      DenotesSame field cell value

/-- Field by field, the table and the JSON text of a frame agree. -/
theorem exists_toCsv_agrees_toJson (f : Frame) :
    ∃ objects, Json.readArray f.toJson.toList = some objects ∧
      Agree f (Csv.split (encode f.toCsv.toList)).tail objects := by
  refine ⟨_, readArray_toJson f, ?_⟩
  rw [tail_split_toCsv]
  refine ⟨⟨by simp, by simp⟩, ?_, ?_⟩
  · intro object hobject
    rcases List.mem_map.1 hobject with ⟨members, hmembers, rfl⟩
    rcases List.mem_map.1 hmembers with ⟨row, -, rfl⟩
    rw [Json.valuesOf, List.map_map]
    exact (f.perm_names_rowMembers row).nodup_iff.2 f.distinct
  · intro r hr c column hcolumn
    have hmem := List.mem_of_getElem? hcolumn
    rcases exists_cell_of_mem_columns hmem hr with ⟨cell, hcell, hscalar⟩
    have htext : (f.rowTexts r)[c]? = some cell.text := by
      rw [Csv.getElem?_rowTexts hr, text?, hcolumn, Option.bind_some, hcell, Option.map_some]
    have hmember := (f.mem_rowMembers_iff r _).2 ⟨column, hmem, rfl⟩
    have hrecord : (f.texts.map (·.map fun text => encode text.toList))[r]?
        = some ((f.rowTexts r).map fun text => encode text.toList) := by
      simp [texts, hr]
    have hobject : (f.toRecords.map Json.valuesOf)[r]?
        = some (Json.valuesOf (f.rowMembers r)) := by
      simp [toRecords, hr]
    refine ⟨_, cell.text.toList, _, _, cell, hrecord, ?_, hobject,
      List.mem_map.2 ⟨_, hmember, rfl⟩, hcell, ?_⟩
    · rw [List.getElem?_map, htext, Option.map_some]
    · rw [hscalar]
      exact denotesSame_of_cell cell

end Frame

end TableFixture
