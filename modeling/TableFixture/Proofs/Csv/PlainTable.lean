import TableFixture.Proofs.Csv.Acceptance
import TableFixture.Proofs.Csv.RoundTrip
import TableFixture.Test.FixtureFile

/-!
# Tables that are written without quotes

A plain table is its lines: fields as they stand, with commas between them.  If no field
needs quotes, it is read as its rows, except those that are empty lines: the row without
fields and the row of one empty field.  A row of another width than the header is a fault,
and a repeated name is one if there is no such row.

The quoted form of a table is never shorter than the plain form, and as long only if nothing
is quoted and no line is empty.  So the two forms agree exactly then.

Main results:

- Theorem `fields_records_plainTable`: which records a plain table is split into.
- Theorem `readsRows_ofCsvBytes`: what is read from a plain table.
- Theorem `plainTable_eq_writeTable_iff`: which tables have one form with and without quotes.
- Theorem `plainTable_eq_toCsv_iff`: which frames do.
-/

namespace TableFixture

namespace Csv

open Text.Utf8 (encode)
open TestContext (plainTable)

/-! ## Lines -/

/-- The fields of a record as they stand, with commas between them. -/
def plainLine (fields : List String) : List Char := [','].intercalate (fields.map String.toList)

/-- No character of the fields makes quotes necessary. -/
def Unquoted (fields : List String) : Prop :=
  ∀ field ∈ fields, ∀ c ∈ field.toList, c ∉ [',', '"', '\r', '\n']

/-- The rows that are not written as empty lines: not those without fields, nor those of one
empty field. -/
def writtenRows (rows : List (List String)) : List (List String) :=
  rows.filter fun row => !(row == [] || row == [""])

theorem isSpecial_eq_false_iff (c : Char) : isSpecial c = false ↔ c ∉ [',', '"', '\r', '\n'] := by
  simp [isSpecial, and_assoc]

theorem plainTable_eq (headers : List String) (rows : List (List String)) :
    plainTable headers rows = (headers :: rows).flatMap fun row => plainLine row ++ ['\n'] := rfl

theorem plainLine_eq_nil_iff (fields : List String) :
    plainLine fields = [] ↔ fields = [] ∨ fields = [""] := by
  rw [plainLine, intercalate_eq_nil_iff, List.map_eq_nil_iff]
  apply or_congr_right
  rw [List.map_eq_singleton_iff]
  simp

/-- A line that is not empty is a record of its fields. -/
theorem recordForm_plainLine {fields : List String} (h : Unquoted fields)
    (hne : plainLine fields ≠ []) :
    RecordForm (fields.map String.toList) (plainLine fields) := by
  refine ⟨hne, _, List.forall₂_same.2 fun field hfield => .bare ?_, rfl⟩
  rcases List.mem_map.1 hfield with ⟨text, htext, rfl⟩
  exact fun c hc => (isSpecial_eq_false_iff c).2 (h text htext c hc)

/-- The lines of rows are the records of those that are not empty lines. -/
theorem exists_lines_of_plainLine {rows : List (List String)} (h : ∀ row ∈ rows, Unquoted row) :
    ∃ lines, List.Forall₂ RecordForm ((writtenRows rows).map (·.map String.toList)) lines ∧
      Lines lines (rows.flatMap fun row => plainLine row ++ ['\n']) := by
  induction rows with
  | nil => exact ⟨[], .nil, .nil⟩
  | cons row rows ih =>
      rcases ih fun row' hmem => h row' (List.mem_cons_of_mem row hmem) with
        ⟨lines, hforms, hlines⟩
      rw [List.flatMap_cons]
      by_cases hempty : plainLine row = []
      · have hskip : writtenRows (row :: rows) = writtenRows rows := by
          rcases (plainLine_eq_nil_iff row).1 hempty with rfl | rfl <;> rfl
        rw [hskip, hempty]
        exact ⟨lines, hforms, .empty .lineFeed hlines⟩
      · have hkeep : writtenRows (row :: rows) = row :: writtenRows rows := by
          rw [plainLine_eq_nil_iff] at hempty
          exact List.filter_cons_of_pos (by simpa using hempty)
        rw [hkeep]
        exact ⟨plainLine row :: lines,
          .cons (recordForm_plainLine (h row List.mem_cons_self) hempty) hforms,
          .line .lineFeed hlines⟩

/-! ## Reading -/

section Reading

variable {headers : List String} {rows : List (List String)}
  (hplain : ∀ fields ∈ headers :: rows, Unquoted fields) (hline : plainLine headers ≠ [])
  (hmark : (plainLine headers).head? ≠ some markChar)
include hplain hline hmark

/-- A plain table is split into its header and the rows that are not empty lines. -/
theorem fields_records_plainTable :
    (records (encode (plainTable headers rows))).map (·.fields)
      = ((headers :: writtenRows rows).map (·.map String.toList)).map (·.map encode) := by
  rcases List.forall_mem_cons.1 hplain with ⟨hheaders, hrows⟩
  rcases exists_lines_of_plainLine hrows with ⟨lines, hforms, hlines⟩
  have hhead : (plainTable headers rows).head? ≠ some markChar := by
    rw [plainTable_eq, List.flatMap_cons, List.append_assoc, List.head?_append_of_ne_nil _ hline]
    exact hmark
  rw [fields_records_of_head? hhead]
  exact fieldsFrom_of_lines (.line .lineFeed hlines)
    (.cons (recordForm_plainLine hheaders hline) hforms)

/-- A plain table whose rows are as wide as its header is read as the trims of its fields. -/
theorem readTable_plainTable (hwidth : ∀ row ∈ writtenRows rows, row.length = headers.length) :
    readTable (encode (plainTable headers rows))
      = .ok (headers.map Text.trim, (writtenRows rows).map (·.map Text.trim)) := by
  have hread := readTable_of_split (fields_records_plainTable hplain hline hmark)
    (by simpa using hwidth)
  rw [hread, map_trimmed_toList, map_map_trimmed_toList]

/-- A plain table with a row of another width is refused for the first such row. -/
theorem readTable_plainTable_of_ragged
    (hragged : ∃ row ∈ writtenRows rows, row.length ≠ headers.length) :
    ∃ before row after position, writtenRows rows = before ++ row :: after ∧
      (∀ row' ∈ before, row'.length = headers.length) ∧ row.length ≠ headers.length ∧
      position.record = before.length + 1 ∧
      readTable (encode (plainTable headers rows))
        = .error (.unequalLengths position headers.length row.length) := by
  rcases hragged with ⟨bad, hbad, hwidth⟩
  have hfound : ((writtenRows rows).find? fun row => row.length != headers.length).isSome := by
    rw [List.find?_isSome]
    exact ⟨bad, hbad, by simpa using hwidth⟩
  rcases Option.isSome_iff_exists.1 hfound with ⟨row, hrow⟩
  rcases List.find?_eq_some_iff_append.1 hrow with ⟨hrow, before, after, hsplit, hbefore⟩
  have hrow : row.length ≠ headers.length := by simpa using hrow
  have hbefore : ∀ row' ∈ before, row'.length = headers.length := by simpa using hbefore
  have hrecords := fields_records_plainTable hplain hline hmark
  rw [hsplit, List.map_cons, List.map_append, List.map_cons] at hrecords
  rcases readTable_of_ragged hrecords (by simpa using hbefore) (by simpa using hrow) with
    ⟨position, hposition, hread⟩
  refine ⟨before, row, after, position, hsplit, hbefore, hrow, ?_, ?_⟩
  · rw [hposition, List.length_map]
  · rw [hread, List.length_map, List.length_map]

end Reading

/-- What is read from a plain table: the rows that are not empty lines. -/
structure ReadsRows (headers : List String) (rows : List (List String))
    (result : Except Error Frame) : Prop where
  /-- If a row has another width than the header, the first such row is the fault. -/
  ragged : (∃ row ∈ writtenRows rows, row.length ≠ headers.length) →
    ∃ before row after position, writtenRows rows = before ++ row :: after ∧
      (∀ row' ∈ before, row'.length = headers.length) ∧ row.length ≠ headers.length ∧
      position.record = before.length + 1 ∧
      result = .error (.csv (.unequalLengths position headers.length row.length))
  /-- Else the first name that repeats an earlier one after trimming is. -/
  duplicate : (∀ row ∈ writtenRows rows, row.length = headers.length) →
    ¬ (headers.map Text.trim).Nodup →
    ∃ name, FirstRepeat (headers.map Text.trim) name ∧ result = .error (.duplicateColumnName name)
  /-- Else there is a column for each name and a row for each row that is no empty line, in
  order, and each column has the narrowest type of the trims of its fields. -/
  frame : (∀ row ∈ writtenRows rows, row.length = headers.length) →
    (headers.map Text.trim).Nodup →
    ∃ f : Frame, result = .ok f ∧ f.columnCount = headers.length ∧
      f.rowCount = (writtenRows rows).length ∧
      ∀ i name, headers[i]? = some name →
        ∃ cells, Narrowest ((writtenRows rows).map fun row => Text.trim (row.getD i "")) cells ∧
          f.columns[i]? = some ⟨Text.trim name, cells⟩
  /-- A table of one column loses exactly its empty fields. -/
  single : ∀ (name : String) (fields : List String), headers = [name] →
    rows = fields.map (fun field => [field]) →
    ∃ (f : Frame) (cells : Cells), result = .ok f ∧ f.columns = [⟨Text.trim name, cells⟩] ∧
      Narrowest ((fields.filter (· ≠ "")).map Text.trim) cells
  /-- A row that is an empty line is skipped, whatever the width of the table. -/
  skipped : ∀ before blank after, blank = [] ∨ blank = [""] → rows = before ++ blank :: after →
    ∀ f, result = .ok f ↔
      Frame.ofCsvBytes (encode (plainTable headers (before ++ after))) = .ok f

theorem writtenRows_skip (before : List (List String)) {blank : List String}
    (after : List (List String)) (h : blank = [] ∨ blank = [""]) :
    writtenRows (before ++ blank :: after) = writtenRows (before ++ after) := by
  rcases h with rfl | rfl <;> simp [writtenRows]

theorem writtenRows_singles (fields : List String) :
    writtenRows (fields.map fun field => [field])
      = (fields.filter (· ≠ "")).map fun field => [field] := by
  rw [writtenRows, List.filter_map]
  congr 1
  apply List.filter_congr
  intro field _
  simp [Bool.beq_eq_decide_eq]

section Reading

variable {headers : List String} {rows : List (List String)}
  (hplain : ∀ fields ∈ headers :: rows, Unquoted fields) (hline : plainLine headers ≠ [])
  (hmark : (plainLine headers).head? ≠ some markChar)
include hplain hline hmark

/-- A plain table whose rows are as wide as its header, and whose names are distinct after
trimming, is the frame of its columns. -/
theorem exists_ofCsvBytes_plainTable
    (hwidth : ∀ row ∈ writtenRows rows, row.length = headers.length)
    (hnames : (headers.map Text.trim).Nodup) :
    ∃ f, Frame.ofCsvBytes (encode (plainTable headers rows)) = .ok f ∧
      f.columns = tableColumns (headers.map Text.trim) ((writtenRows rows).map (·.map Text.trim)) :=
  exists_ofCsvBytes_eq_ok (readTable_plainTable hplain hline hmark hwidth) hnames

/-- A plain table is read as its rows, except those that are empty lines. -/
theorem readsRows_ofCsvBytes :
    ReadsRows headers rows (Frame.ofCsvBytes (encode (plainTable headers rows))) := by
  have hframe := exists_ofCsvBytes_plainTable hplain hline hmark
  refine ⟨?_, ?_, ?_, ?_, ?_⟩
  · intro hragged
    rcases readTable_plainTable_of_ragged hplain hline hmark hragged with
      ⟨before, row, after, position, hsplit, hbefore, hrow, hposition, hread⟩
    refine ⟨before, row, after, position, hsplit, hbefore, hrow, hposition, ?_⟩
    rw [Frame.ofCsvBytes, hread]
  · intro hwidth hnames
    rcases exists_firstRepeat hnames with ⟨name, hname⟩
    exact ⟨name, hname,
      ofCsvBytes_eq_duplicate (readTable_plainTable hplain hline hmark hwidth) hname⟩
  · intro hwidth hnames
    rcases hframe hwidth hnames with ⟨f, hf, hcolumns⟩
    refine ⟨f, hf, ?_, ?_, ?_⟩
    · rw [Frame.columnCount, hcolumns, length_tableColumns, List.length_map]
    · have hnames' : headers.map Text.trim ≠ [] := by
        rintro hnil
        rw [List.map_eq_nil_iff.1 hnil] at hline
        exact hline rfl
      have hread := readTable_plainTable hplain hline hmark hwidth
      rw [(names_and_rowCount_of_ofCsvBytes hread hf).2 hnames', List.length_map]
    · intro i name hname
      refine ⟨_, narrowest_inferCells _, ?_⟩
      rw [hcolumns, ← columnTexts_map_trim]
      exact getElem?_tableColumns _ (by rw [List.getElem?_map, hname]; rfl)
  · rintro name fields rfl rfl
    have hwidth : ∀ row ∈ writtenRows (fields.map fun field => [field]), row.length = 1 := by
      rw [writtenRows_singles, List.forall_mem_map]
      exact fun _ _ => rfl
    rcases hframe hwidth (List.pairwise_singleton _ _) with ⟨f, hf, hcolumns⟩
    refine ⟨f, _, hf, hcolumns, ?_⟩
    rw [columnTexts_map_trim, writtenRows_singles, List.map_map]
    exact narrowest_inferCells _
  · rintro before blank after hblank rfl f
    have hplain' : ∀ fields ∈ headers :: (before ++ after), Unquoted fields := by
      intro fields hmem
      apply hplain
      simp only [List.mem_cons, List.mem_append] at hmem ⊢
      tauto
    have hread := readTable_plainTable hplain hline hmark
    have hread' := readTable_plainTable hplain' hline hmark
    have hragged := readTable_plainTable_of_ragged hplain hline hmark
    have hragged' := readTable_plainTable_of_ragged hplain' hline hmark
    rw [writtenRows_skip before after hblank] at hread hragged
    by_cases hwidth : ∀ row ∈ writtenRows (before ++ after), row.length = headers.length
    · rw [Frame.ofCsvBytes, Frame.ofCsvBytes, hread hwidth, hread' hwidth]
    · -- both tables are refused, though at different places
      push Not at hwidth
      rcases hragged hwidth with ⟨_, _, _, _, -, -, -, -, herror⟩
      rcases hragged' hwidth with ⟨_, _, _, _, -, -, -, -, herror'⟩
      rw [Frame.ofCsvBytes, Frame.ofCsvBytes, herror, herror']
      simp

end Reading

/-! ## The quoted form -/

theorem length_le_doubleQuotes (cs : List Char) : cs.length ≤ (doubleQuotes cs).length := by
  induction cs with
  | nil => exact Nat.le_refl _
  | cons c cs ih =>
      rw [← List.singleton_append, doubleQuotes_append, List.length_append, List.length_append]
      apply Nat.add_le_add _ ih
      by_cases hc : c = '"' <;> simp [doubleQuotes, hc]

/-- A field with a special character is written longer than it is. -/
theorem length_lt_writeField {cs : List Char} (h : cs.any isSpecial = true) :
    cs.length < (writeField cs).length := by
  have hdouble := length_le_doubleQuotes cs
  rw [writeField_of_special h, List.length_cons, List.length_append]
  omega

theorem length_le_writeField (cs : List Char) : cs.length ≤ (writeField cs).length := by
  by_cases h : cs.any isSpecial = true
  · exact Nat.le_of_lt (length_lt_writeField h)
  · rw [writeField_of_plain (Bool.eq_false_iff.2 h)]

/-- Fields with commas between them are not written shorter than they are, and as long only
if none of them is quoted. -/
theorem length_intercalate_writeField (fields : List (List Char)) :
    ([','].intercalate fields).length ≤ ([','].intercalate (fields.map writeField)).length ∧
      (([','].intercalate fields).length = ([','].intercalate (fields.map writeField)).length →
        ∀ field ∈ fields, field.any isSpecial = false) := by
  have hfield (field : List Char) : field.length ≤ (writeField field).length ∧
      (field.length = (writeField field).length → field.any isSpecial = false) := by
    refine ⟨length_le_writeField field, fun heq => Bool.eq_false_iff.2 fun hspecial => ?_⟩
    exact absurd heq (Nat.ne_of_lt (length_lt_writeField hspecial))
  induction fields with
  | nil => simp
  | cons field fields ih =>
      rcases hfield field with ⟨hle, heq⟩
      cases fields with
      | nil =>
          rw [List.map_singleton, List.intercalate_singleton, List.intercalate_singleton]
          exact ⟨hle, fun h => List.forall_mem_singleton.2 (heq h)⟩
      | cons field' fields =>
          simp only [List.map_cons, List.intercalate_cons_cons, List.length_append] at ih ⊢
          refine ⟨by omega, fun h => List.forall_mem_cons.2 ⟨heq (by omega), ih.2 (by omega)⟩⟩

/-- A line that is written for a record is not longer than the record is written with quotes. -/
theorem length_plainLine_le (fields : List String) :
    (plainLine fields ++ ['\n']).length ≤ (writeRecord (fields.map String.toList)).length := by
  have hle := (length_intercalate_writeField (fields.map String.toList)).1
  rw [writeRecord, List.length_append, List.length_append]
  apply Nat.add_le_add_right
  split
  · rename_i hnil
    rw [List.isEmpty_iff] at hnil
    rw [hnil] at hle
    exact Nat.le_trans hle (Nat.zero_le _)
  · exact hle

/-- A record has one form with and without quotes exactly if none of its fields is quoted and
its line is not empty. -/
theorem plainLine_eq_writeRecord_iff (fields : List String) :
    plainLine fields ++ ['\n'] = writeRecord (fields.map String.toList) ↔
      Unquoted fields ∧ plainLine fields ≠ [] := by
  have hunquoted : Unquoted fields ↔
      ∀ field ∈ fields.map String.toList, field.any isSpecial = false := by
    simp only [Unquoted, List.forall_mem_map, List.any_eq_false, Bool.not_eq_true,
      isSpecial_eq_false_iff]
  rw [hunquoted]
  constructor
  · intro h
    by_cases hempty : plainLine fields = []
    · -- an empty line is written as a pair of quotes
      rcases (plainLine_eq_nil_iff fields).1 hempty with rfl | rfl
      · exact absurd h (by decide)
      · exact absurd h (by decide)
    · rcases length_intercalate_writeField (fields.map String.toList) with ⟨hle, heq⟩
      have hne : [','].intercalate ((fields.map String.toList).map writeField) ≠ [] := by
        intro hnil
        rw [hnil] at hle
        exact hempty (List.eq_nil_of_length_eq_zero (Nat.le_zero.1 hle))
      rw [writeRecord, if_neg (by simpa using hne)] at h
      exact ⟨heq (congrArg List.length (List.append_cancel_right h)), hempty⟩
  · rintro ⟨hplain, hne⟩
    have hfields : (fields.map String.toList).map writeField = fields.map String.toList := by
      conv_rhs => rw [← List.map_id (fields.map String.toList)]
      exact List.map_congr_left fun field hfield => writeField_of_plain (hplain field hfield)
    rw [writeRecord, hfields, ← plainLine, if_neg (by simpa using hne)]

section Pieces

variable {α β : Type} {f g : α → List β} {xs : List α}
  (h : ∀ x ∈ xs, (f x).length ≤ (g x).length)
include h

theorem length_flatMap_le : (xs.flatMap f).length ≤ (xs.flatMap g).length := by
  induction xs with
  | nil => exact Nat.le_refl _
  | cons x xs ih =>
      rw [List.forall_mem_cons] at h
      rw [List.flatMap_cons, List.flatMap_cons, List.length_append, List.length_append]
      exact Nat.add_le_add h.1 (ih h.2)

/-- Texts of which none is longer than its counterpart agree as a whole only if each does. -/
theorem flatMap_eq_flatMap_iff : xs.flatMap f = xs.flatMap g ↔ ∀ x ∈ xs, f x = g x := by
  induction xs with
  | nil => simp
  | cons x xs ih =>
      rw [List.forall_mem_cons] at h
      rw [List.forall_mem_cons, List.flatMap_cons, List.flatMap_cons, ← ih h.2]
      refine ⟨fun heq => ?_, fun heq => by rw [heq.1, heq.2]⟩
      have hlength := congrArg List.length heq
      rw [List.length_append, List.length_append] at hlength
      have hrest := length_flatMap_le h.2
      have hfirst := h.1
      exact List.append_inj heq (by omega)

end Pieces

/-- A table has one form with and without quotes exactly if none of its fields is quoted and
none of its lines is empty. -/
theorem plainTable_eq_writeTable_iff (headers : List String) (rows : List (List String)) :
    plainTable headers rows = writeTable headers rows ↔
      ∀ fields ∈ headers :: rows, Unquoted fields ∧ plainLine fields ≠ [] := by
  rw [plainTable_eq, writeTable,
    flatMap_eq_flatMap_iff fun fields _ => length_plainLine_le fields]
  simp only [plainLine_eq_writeRecord_iff]

/-- Frames with columns of which no name and no text of a cell needs quotes, and, if there is
only one column, none is empty. -/
structure NeedsNoQuotes (f : Frame) : Prop where
  columns : f.columns ≠ []
  names : ∀ name ∈ f.names, ∀ c ∈ name.toList, c ∉ [',', '"', '\r', '\n']
  texts : ∀ row ∈ f.texts, ∀ text ∈ row, ∀ c ∈ text.toList, c ∉ [',', '"', '\r', '\n']
  single : f.columnCount = 1 → (∀ name ∈ f.names, name ≠ "") ∧
    ∀ row ∈ f.texts, ∀ text ∈ row, text ≠ ""

/-- The table of a frame has one form with and without quotes exactly if it needs none. -/
theorem plainTable_eq_toCsv_iff (f : Frame) :
    plainTable f.names f.texts = f.toCsv.toList ↔ NeedsNoQuotes f := by
  have hwidth : ∀ fields ∈ f.names :: f.texts, fields.length = f.columnCount := by
    rw [List.forall_mem_cons]
    exact ⟨by rw [Frame.names, List.length_map, Frame.columnCount],
      fun row => f.length_of_mem_texts⟩
  rw [Frame.toList_toCsv, plainTable_eq_writeTable_iff]
  constructor
  · intro h
    have hsingle (hcount : f.columnCount = 1) (fields : List String)
        (hmem : fields ∈ f.names :: f.texts) : ∀ field ∈ fields, field ≠ "" := by
      rcases List.length_eq_one_iff.1 ((hwidth fields hmem).trans hcount) with ⟨field, rfl⟩
      rw [List.forall_mem_singleton]
      rintro rfl
      exact (h [""] hmem).2 rfl
    refine ⟨?_, (h f.names List.mem_cons_self).1,
      fun row hrow => (h row (List.mem_cons_of_mem _ hrow)).1, fun hcount => ?_⟩
    · intro hnil
      apply (h f.names List.mem_cons_self).2
      rw [Frame.names, hnil]
      rfl
    · exact ⟨hsingle hcount f.names List.mem_cons_self,
        fun row hrow => hsingle hcount row (List.mem_cons_of_mem _ hrow)⟩
  · intro h fields hmem
    have hpos : 0 < f.columnCount := List.length_pos_of_ne_nil h.columns
    refine ⟨?_, fun hempty => ?_⟩
    · rcases List.mem_cons.1 hmem with rfl | hrow
      · exact h.names
      · exact h.texts fields hrow
    · have hlength := hwidth fields hmem
      rcases (plainLine_eq_nil_iff fields).1 hempty with rfl | rfl
      · exact absurd hlength (Nat.ne_of_lt hpos)
      · rcases h.single hlength.symm with ⟨hnames, htexts⟩
        rcases List.mem_cons.1 hmem with hname | hrow
        · exact hnames "" (hname ▸ List.mem_singleton_self _) rfl
        · exact htexts [""] hrow "" (List.mem_singleton_self _) rfl

end Csv

end TableFixture
