import TableFixture.Proofs.Csv.Spelling

/-!
# Reading written tables

A written table keeps its shape whatever its names and cells hold: each of its records is
one line, no line is empty, and each field is written so that it is read whole.  So the
frame of a table that begins with no byte order mark is read column by column, unless two
of its names have the same trim.

Main results:

- Theorem `exists_lines_of_writeRecord`: written records are lines of fields.
- Theorem `columnTexts_texts`: the texts of a frame hold those of each column.
- Theorem `ofCsv_toCsv_of_nodup`: what is read from the table of a frame.
- Theorem `ofCsv_toCsv_shape`: no cell breaks the shape of the table.
-/

namespace TableFixture

namespace Csv

open Text.Utf8 (encode)

/-! ## Written records -/

/-- A written field is read whole. -/
theorem fieldForm_writeField (cs : List Char) : FieldForm cs (writeField cs) := by
  by_cases hspecial : cs.any isSpecial = true
  · have hform := @FieldForm.quoted cs [] (by simp)
    rwa [List.append_nil, ← writeField_of_special hspecial] at hform
  · have hplain : cs.any isSpecial = false := Bool.eq_false_iff.2 hspecial
    rw [writeField_of_plain hplain]
    apply FieldForm.bare
    simpa using hplain

theorem forall₂_fieldForm_writeField (fields : List (List Char)) :
    List.Forall₂ FieldForm fields (fields.map writeField) := by
  induction fields with
  | nil => exact .nil
  | cons field fields ih => exact .cons (fieldForm_writeField field) ih

/-- Items with commas between them are nothing only if there are none or one that is nothing. -/
theorem intercalate_eq_nil_iff (items : List (List Char)) :
    [','].intercalate items = [] ↔ items = [] ∨ items = [[]] := by
  cases items with
  | nil => simp
  | cons item items =>
      cases items with
      | nil => simp
      | cons item' items => simp [List.intercalate_cons_cons]

/-- Only one empty field alone would be written as an empty line. -/
theorem intercalate_writeField_eq_nil {fields : List (List Char)} (hne : fields ≠ [])
    (h : [','].intercalate (fields.map writeField) = []) : fields = [[]] := by
  rw [intercalate_eq_nil_iff, List.map_eq_nil_iff, List.map_eq_singleton_iff] at h
  rcases h.resolve_left hne with ⟨field, rfl, hfield⟩
  by_cases hspecial : field.any isSpecial = true
  · rw [writeField_of_special hspecial] at hfield
    exact absurd hfield (by simp)
  · rw [writeField_of_plain (Bool.eq_false_iff.2 hspecial)] at hfield
    rw [hfield]

/-- A written record is a line of its fields, and not an empty one. -/
theorem exists_recordForm_of_writeRecord {fields : List (List Char)} (hne : fields ≠ []) :
    ∃ line, RecordForm fields line ∧ writeRecord fields = line ++ ['\n'] := by
  by_cases hline : [','].intercalate (fields.map writeField) = []
  · refine ⟨['"', '"'], ⟨by simp, [['"', '"']], ?_, rfl⟩, ?_⟩
    · rw [intercalate_writeField_eq_nil hne hline]
      exact .cons (@FieldForm.quoted [] [] (by simp)) .nil
    · rw [writeRecord, hline]
      rfl
  · refine ⟨_, ⟨hline, _, forall₂_fieldForm_writeField fields, rfl⟩, ?_⟩
    rw [writeRecord, if_neg (by simpa using hline)]

/-- Written records are lines of fields. -/
theorem exists_lines_of_writeRecord {records : List (List (List Char))}
    (h : ∀ fields ∈ records, fields ≠ []) :
    ∃ lines, List.Forall₂ RecordForm records lines ∧
      Lines lines (records.flatMap writeRecord) := by
  induction records with
  | nil => exact ⟨[], .nil, .nil⟩
  | cons fields records ih =>
      rcases exists_recordForm_of_writeRecord (h fields List.mem_cons_self) with
        ⟨line, hform, hwritten⟩
      rcases ih fun fields' hmem => h fields' (List.mem_cons_of_mem fields hmem) with
        ⟨lines, hforms, hlines⟩
      refine ⟨line :: lines, .cons hform hforms, ?_⟩
      rw [List.flatMap_cons, hwritten]
      exact .line .lineFeed hlines

/-- Rows of at least one field are written as lines of fields. -/
theorem exists_lines_of_rows {rows : List (List String)} {width : Nat} (hpos : 0 < width)
    (hwidth : ∀ row ∈ rows, row.length = width) :
    ∃ lines, List.Forall₂ RecordForm (rows.map (·.map String.toList)) lines ∧
      Lines lines ((rows.map (·.map String.toList)).flatMap writeRecord) := by
  apply exists_lines_of_writeRecord
  intro fields hmem
  rcases List.mem_map.1 hmem with ⟨row, hrow, rfl⟩
  apply List.ne_nil_of_length_pos
  rwa [List.length_map, hwidth row hrow]

theorem writeTable_eq (names : List String) (rows : List (List String)) :
    writeTable names rows
      = writeRecord (names.map String.toList)
        ++ (rows.map (·.map String.toList)).flatMap writeRecord := by
  rw [writeTable, List.flatMap_cons, List.flatMap_map]

theorem map_trimmed_toList (texts : List String) :
    (texts.map String.toList).map trimmed = texts.map Text.trim := by
  rw [List.map_map]
  apply List.map_congr_left
  intro text _
  rw [Function.comp_apply, trimmed_eq, String.ofList_toList]

theorem map_map_trimmed_toList (rows : List (List String)) :
    (rows.map (·.map String.toList)).map (·.map trimmed) = rows.map (·.map Text.trim) := by
  rw [List.map_map]
  exact List.map_congr_left fun row _ => map_trimmed_toList row

/-- A written table that begins with no byte order mark is read as the trims of its fields. -/
theorem readTable_writeTable {names : List String} {rows : List (List String)}
    (hnames : names ≠ []) (hwidth : ∀ row ∈ rows, row.length = names.length)
    (hmark : (writeTable names rows).head? ≠ some markChar) :
    readTable (encode (writeTable names rows))
      = .ok (names.map Text.trim, rows.map (·.map Text.trim)) := by
  have hall : ∀ row ∈ names :: rows, row.length = names.length := by simpa using hwidth
  rcases exists_lines_of_rows (List.length_pos_of_ne_nil hnames) hall with
    ⟨lines, hforms, hlines⟩
  rw [List.flatMap_map] at hlines
  have hread := readTable_of_forms (.inr ⟨rfl, hmark⟩) hlines hforms
    (by simpa using hwidth)
  rw [hread, map_trimmed_toList, map_map_trimmed_toList]

/-! ## Columns of frames -/

/-- The texts of a frame hold those of each column. -/
theorem columnTexts_texts {f : Frame} {i : Nat} {c : NamedColumn}
    (h : f.columns[i]? = some c) : columnTexts f.texts i = c.cells.toList.map Cell.text := by
  have hlength : c.cells.length = f.rowCount := f.length_of_mem_columns (List.mem_of_getElem? h)
  apply List.ext_getElem?
  intro row
  rw [columnTexts, Frame.texts, List.getElem?_map, List.getElem?_map, List.getElem?_map,
    ← Cells.cell?_eq_getElem?]
  by_cases hrow : row < f.rowCount
  · have hcell := (c.cells.cell?_isSome_iff row).2 (hlength ▸ hrow)
    rcases Option.isSome_iff_exists.1 hcell with ⟨cell, hcell⟩
    rw [List.getElem?_range hrow, hcell]
    simp [Frame.rowTexts, h, hcell]
  · have hcell : c.cells.cell? row = none := by
      rw [← Option.not_isSome_iff_eq_none, Cells.cell?_isSome_iff, hlength]
      exact hrow
    rw [hcell, List.getElem?_eq_none (by simpa using hrow)]
    rfl

/-- The column that is read for a column. -/
def rereadColumn (c : NamedColumn) : NamedColumn := ⟨Text.trim c.name, reread c.cells⟩

theorem tableColumns_texts (f : Frame) :
    tableColumns (f.names.map Text.trim) (f.texts.map (·.map Text.trim))
      = f.columns.map rereadColumn := by
  apply List.ext_getElem?
  intro i
  rw [List.getElem?_map]
  cases h : f.columns[i]? with
  | none =>
      rw [List.getElem?_eq_none_iff] at h
      exact List.getElem?_eq_none (by simpa [Frame.names] using h)
  | some c =>
      have hname : (f.names.map Text.trim)[i]? = some (Text.trim c.name) := by
        simp [Frame.names, h]
      rw [getElem?_tableColumns _ hname, columnTexts_map_trim]
      have htexts : (f.texts.map fun row => Text.trim (row.getD i ""))
          = (columnTexts f.texts i).map Text.trim := by
        rw [columnTexts, List.map_map]
        rfl
      rw [htexts, columnTexts_texts h, List.map_map]
      rfl

@[simp]
theorem length_rereadColumn (c : NamedColumn) : (rereadColumn c).length = c.length := by
  simp [rereadColumn, reread, NamedColumn.length]

/-! ## Frames -/

variable {f : Frame}

theorem names_ne_nil (hcolumns : f.columns ≠ []) : f.names ≠ [] := by
  simpa [Frame.names] using hcolumns

/-- The rows of a frame are as wide as its header. -/
theorem width_texts (f : Frame) : ∀ row ∈ f.texts, row.length = f.names.length := by
  intro row hrow
  rw [f.length_of_mem_texts hrow, Frame.names, List.length_map, Frame.columnCount]

theorem readTable_toCsv (hcolumns : f.columns ≠ [])
    (hmark : f.toCsv.toList.head? ≠ some markChar) :
    readTable (encode f.toCsv.toList)
      = .ok (f.names.map Text.trim, f.texts.map (·.map Text.trim)) := by
  rw [Frame.toList_toCsv] at hmark ⊢
  exact readTable_writeTable (names_ne_nil hcolumns) (width_texts f) hmark

/-- A frame whose names are distinct after trimming is read column by column. -/
theorem ofCsv_toCsv_of_nodup (hcolumns : f.columns ≠ [])
    (hmark : f.toCsv.toList.head? ≠ some markChar) (hnames : (f.names.map Text.trim).Nodup) :
    ∃ g, Frame.ofCsv f.toCsv = .ok g ∧ g.columns = f.columns.map rereadColumn := by
  rw [← tableColumns_texts]
  exact exists_ofCsvBytes_eq_ok (readTable_toCsv hcolumns hmark) hnames

/-- A frame whose names are not distinct after trimming is refused for the first that repeats
an earlier one. -/
theorem ofCsv_toCsv_of_firstRepeat (hcolumns : f.columns ≠ [])
    (hmark : f.toCsv.toList.head? ≠ some markChar) {name : String}
    (hname : FirstRepeat (f.names.map Text.trim) name) :
    Frame.ofCsv f.toCsv = .error (.duplicateColumnName name) :=
  ofCsvBytes_eq_duplicate (readTable_toCsv hcolumns hmark) hname

/-- Frames with columns of equal numbers of rows have equal numbers of rows. -/
theorem rowCount_of_rereadColumn {g : Frame} (h : g.columns = f.columns.map rereadColumn) :
    g.rowCount = f.rowCount := by
  rw [Frame.rowCount, Frame.rowCount, h, List.head?_map, Option.map_map]
  congr 2
  funext c
  exact length_rereadColumn c

/-- No cell breaks the shape of the table: it is never refused as a table, it is refused for
the first name that repeats an earlier one after trimming, and otherwise it has the columns
and rows of the frame. -/
theorem ofCsv_toCsv_shape (f : Frame) (hcolumns : f.columns ≠ [])
    (hmark : f.toCsv.toList.head? ≠ some markChar) :
    (∀ e, Frame.ofCsv f.toCsv ≠ .error (.csv e)) ∧
    (∀ name, Frame.ofCsv f.toCsv = .error (.duplicateColumnName name) ↔
      FirstRepeat (f.names.map Text.trim) name) ∧
    ((∃ name, Frame.ofCsv f.toCsv = .error (.duplicateColumnName name)) ↔
      ¬ (f.names.map Text.trim).Nodup) ∧
    ((f.names.map Text.trim).Nodup → ∃ g, Frame.ofCsv f.toCsv = .ok g ∧
      g.columnCount = f.columnCount ∧ g.rowCount = f.rowCount ∧
      ∀ (i : Nat) (c : NamedColumn), f.columns[i]? = some c →
        ∃ cells, Narrowest (c.cells.toList.map fun cell => Text.trim cell.text) cells ∧
          g.columns[i]? = some ⟨Text.trim c.name, cells⟩ ∧
          (c.cells.type ≠ .string → 0 < f.rowCount → cells.type = c.cells.type)) := by
  by_cases hnames : (f.names.map Text.trim).Nodup
  · rcases ofCsv_toCsv_of_nodup hcolumns hmark hnames with ⟨g, hg, hgcolumns⟩
    have hno_repeat (name : String) : ¬ FirstRepeat (f.names.map Text.trim) name :=
      fun hname => not_nodup_of_firstRepeat hname hnames
    refine ⟨by simp [hg], by simp [hg, hno_repeat], by simp [hg, hnames], fun _ => ?_⟩
    refine ⟨g, hg, ?_, rowCount_of_rereadColumn hgcolumns, ?_⟩
    · rw [Frame.columnCount, hgcolumns, List.length_map, Frame.columnCount]
    · intro i c hc
      refine ⟨reread c.cells, narrowest_inferCells _, ?_, ?_⟩
      · rw [hgcolumns, List.getElem?_map, hc]
        rfl
      · intro htype hrows
        apply type_reread htype
        rw [← f.length_of_mem_columns (List.mem_of_getElem? hc)] at hrows
        exact hrows
  · rcases exists_firstRepeat hnames with ⟨first, hfirst⟩
    have herror := ofCsv_toCsv_of_firstRepeat hcolumns hmark hfirst
    refine ⟨by simp [herror], ?_, ?_, fun h => absurd h hnames⟩
    · intro name
      constructor
      · intro h
        rw [herror] at h
        injection h with h
        injection h with h
        exact h ▸ hfirst
      · exact ofCsv_toCsv_of_firstRepeat hcolumns hmark
    · exact ⟨fun _ => hnames, fun _ => ⟨first, herror⟩⟩

/-- A row whose one cell is empty is still a row when it is read. -/
theorem ofCsv_toCsv_emptyCell :
    ∃ g : Frame, Frame.ofCsv "\"\"\n\"\"\n" = .ok g ∧ g.columnCount = 1 ∧ g.rowCount = 1 := by
  have hshape := ofCsv_toCsv_shape ⟨[⟨"", .string [""]⟩], by decide, by decide⟩ (by decide)
    (by decide)
  rcases hshape.2.2.2 (by decide) with ⟨g, hg, hcolumns, hrows, -⟩
  exact ⟨g, hg, hcolumns, hrows⟩

end Csv

end TableFixture
