import TableFixture.Proofs.Csv.Inference
import TableFixture.Proofs.Csv.Reading

/-!
# Spellings of tables

One table of strings can be spelled in many ways.  A cell may stand bare or between quotes
and have blanks around it, a line may end in three ways, empty lines may stand anywhere,
and a byte order mark may come first.  Reading does not depend on the spelling: it only
sees the trims of the cells.

Main results:

- Theorem `exists_fieldForm_of_cellSpelling`: a spelled cell is a field with the same trim.
- Theorem `readTable_of_tableSpelling`: a spelled table is read as its trims.
- Theorem `ofCsv_of_tableSpelling`: all spellings of a table are read as one frame.
-/

namespace TableFixture.Csv

open Text.Utf8 (encode)

/-! ## Spellings -/

/-- Blanks, which may end lines. -/
def Blanks (cs : List Char) : Prop := ∀ c ∈ cs, Text.isBlank c = true

/-- Blanks that do not end a line. -/
def InlineBlanks (cs : List Char) : Prop :=
  ∀ c ∈ cs, Text.isBlank c = true ∧ c ≠ '\r' ∧ c ≠ '\n'

/-- The spellings of a cell: bare, if no character of it needs quotes, with blanks around
it; or quoted, each quote doubled, with blanks inside the quotes around it and blanks after
the closing quote. -/
inductive CellSpelling (cell : String) : List Char → Prop where
  | bare {before after : List Char} : (∀ c ∈ cell.toList, isSpecial c = false) →
      InlineBlanks before → InlineBlanks after →
      CellSpelling cell (before ++ cell.toList ++ after)
  | quoted {before after outside : List Char} : Blanks before → Blanks after →
      InlineBlanks outside →
      CellSpelling cell ('"' :: (before ++ doubleQuotes cell.toList ++ after ++ '"' :: outside))

/-- The spellings of a record: its cells with commas between them, but never an empty line. -/
def RecordSpelling (cells : List String) (text : List Char) : Prop :=
  text ≠ [] ∧ ∃ texts, List.Forall₂ CellSpelling cells texts ∧ text = [','].intercalate texts

/-- The spellings of a table: lines that are its records or empty, perhaps after a byte
order mark.  Without one the lines do not begin with its character. -/
inductive TableSpelling (table : List (List String)) : List Char → Prop where
  | marked {lines : List (List Char)} {text : List Char} :
      List.Forall₂ RecordSpelling table lines → Lines lines text →
      TableSpelling table (markChar :: text)
  | unmarked {lines : List (List Char)} {text : List Char} : text.head? ≠ some markChar →
      List.Forall₂ RecordSpelling table lines → Lines lines text → TableSpelling table text

/-! ## From spellings to forms -/

theorem isSpecial_of_inlineBlank {c : Char}
    (h : Text.isBlank c = true ∧ c ≠ '\r' ∧ c ≠ '\n') : isSpecial c = false := by
  rcases h with ⟨hblank, hreturn, hfeed⟩
  have hcomma : c ≠ ',' := by
    rintro rfl
    exact absurd hblank (by decide)
  have hquote : c ≠ '"' := by
    rintro rfl
    exact absurd hblank (by decide)
  simp [isSpecial, hcomma, hquote, hreturn, hfeed]

theorem doubleQuotes_append (cs ds : List Char) :
    doubleQuotes (cs ++ ds) = doubleQuotes cs ++ doubleQuotes ds := by
  simp [doubleQuotes]

theorem doubleQuotes_of_blanks {cs : List Char} (h : Blanks cs) : doubleQuotes cs = cs := by
  induction cs with
  | nil => rfl
  | cons c cs ih =>
      have hquote : c ≠ '"' := by
        rintro rfl
        exact absurd (h _ List.mem_cons_self) (by decide)
      have hrest : doubleQuotes cs = cs := ih fun d hd => h d (List.mem_cons_of_mem c hd)
      rw [← List.singleton_append, doubleQuotes_append, hrest]
      simp [doubleQuotes, hquote]

/-- Blanks around a cell are lost in its trim. -/
theorem trimmed_blanks {before after : List Char} (hbefore : Blanks before) (hafter : Blanks after)
    (cell : String) : trimmed (before ++ cell.toList ++ after) = Text.trim cell := by
  rw [trimmed, Text.trimBoth_blanks_append_blanks hbefore hafter, Text.trim]

/-- A spelled cell is a field with the same trim. -/
theorem exists_fieldForm_of_cellSpelling (cell : String) (text : List Char)
    (h : CellSpelling cell text) :
    ∃ value, FieldForm value text ∧ trimmed value = Text.trim cell := by
  cases h with
  | @bare before after hcell hbefore hafter =>
      refine ⟨before ++ cell.toList ++ after, .bare ?_, ?_⟩
      · intro c hc
        rw [List.mem_append, List.mem_append] at hc
        rcases hc with (hc | hc) | hc
        · exact isSpecial_of_inlineBlank (hbefore c hc)
        · exact hcell c hc
        · exact isSpecial_of_inlineBlank (hafter c hc)
      · exact trimmed_blanks (fun c hc => (hbefore c hc).1) (fun c hc => (hafter c hc).1) cell
  | @quoted before after outside hbefore hafter houtside =>
      refine ⟨before ++ cell.toList ++ after ++ outside, ?_, ?_⟩
      · have hform := @FieldForm.quoted (before ++ cell.toList ++ after) outside
          fun c hc => isSpecial_of_inlineBlank (houtside c hc)
        rwa [doubleQuotes_append, doubleQuotes_append, doubleQuotes_of_blanks hbefore,
          doubleQuotes_of_blanks hafter] at hform
      · rw [List.append_assoc]
        apply trimmed_blanks hbefore
        intro c hc
        rcases List.mem_append.1 hc with hc | hc
        · exact hafter c hc
        · exact (houtside c hc).1

/-- Items that each stand for another one stand together for a list of them. -/
theorem exists_forall₂_map_eq {α β γ δ : Type} {R : α → β → Prop} {S : γ → β → Prop}
    {f : γ → δ} {g : α → δ} (hstep : ∀ a b, R a b → ∃ c, S c b ∧ f c = g a) {as : List α}
    {bs : List β} (h : List.Forall₂ R as bs) :
    ∃ cs, List.Forall₂ S cs bs ∧ cs.map f = as.map g := by
  induction h with
  | nil => exact ⟨[], .nil, rfl⟩
  | cons hhead _ ih =>
      rcases hstep _ _ hhead with ⟨c, hc, hfc⟩
      rcases ih with ⟨cs, hcs, hfcs⟩
      exact ⟨c :: cs, .cons hc hcs, by rw [List.map_cons, List.map_cons, hfc, hfcs]⟩

/-- A spelled record is a record of fields with the same trims. -/
theorem exists_recordForm_of_recordSpelling (cells : List String) (text : List Char)
    (h : RecordSpelling cells text) :
    ∃ values, RecordForm values text ∧ values.map trimmed = cells.map Text.trim := by
  rcases h with ⟨hne, texts, hcells, htext⟩
  rcases exists_forall₂_map_eq exists_fieldForm_of_cellSpelling hcells with
    ⟨values, hvalues, htrims⟩
  exact ⟨values, ⟨hne, texts, hvalues, htext⟩, htrims⟩

/-! ## Reading -/

/-- Forms of records are read as the trims of their fields. -/
theorem readTable_of_forms {header : List (List Char)} {rows : List (List (List Char))}
    {lines : List (List Char)} {body text : List Char}
    (htext : text = markChar :: body ∨ text = body ∧ body.head? ≠ some markChar)
    (hlines : Lines lines body) (hforms : List.Forall₂ RecordForm (header :: rows) lines)
    (hwidth : ∀ row ∈ rows, row.length = header.length) :
    readTable (encode text) = .ok (header.map trimmed, rows.map (·.map trimmed)) := by
  apply readTable_of_split _ hwidth
  rw [← fieldsFrom_of_lines hlines hforms]
  rcases htext with rfl | ⟨rfl, hhead⟩
  · exact fields_records_mark body
  · exact fields_records_of_head? hhead

/-- A spelled table is read as the trims of its cells. -/
theorem readTable_of_tableSpelling {header : List String} {rows : List (List String)}
    {text : List Char} (hrows : ∀ row ∈ rows, row.length = header.length)
    (h : TableSpelling (header :: rows) text) :
    readTable (encode text) = .ok (header.map Text.trim, rows.map (·.map Text.trim)) := by
  have hbody : ∃ lines body, List.Forall₂ RecordSpelling (header :: rows) lines ∧
      Lines lines body ∧ (text = markChar :: body ∨ text = body ∧ body.head? ≠ some markChar) := by
    cases h with
    | marked hrecords hlines => exact ⟨_, _, hrecords, hlines, .inl rfl⟩
    | unmarked hhead hrecords hlines => exact ⟨_, _, hrecords, hlines, .inr ⟨rfl, hhead⟩⟩
  rcases hbody with ⟨lines, body, hrecords, hlines, htext⟩
  rcases exists_forall₂_map_eq exists_recordForm_of_recordSpelling hrecords with
    ⟨records, hforms, htrims⟩
  rcases List.map_eq_cons_iff.1 htrims with ⟨header', rows', rfl, hheader', hrows'⟩
  rw [← hheader', ← hrows']
  apply readTable_of_forms htext hlines hforms
  intro row' hmem
  have hlength (cells : List String) (values : List (List Char))
      (heq : values.map trimmed = cells.map Text.trim) : values.length = cells.length := by
    simpa using congrArg List.length heq
  have htrimmed : row'.map trimmed ∈ rows.map (·.map Text.trim) := by
    rw [← hrows']
    exact List.mem_map.2 ⟨row', hmem, rfl⟩
  rcases List.mem_map.1 htrimmed with ⟨row, hrow, heq⟩
  rw [hlength row row' heq.symm, hlength header header' hheader', hrows row hrow]

/-- The texts of a column of trimmed rows. -/
theorem columnTexts_map_trim (rows : List (List String)) (i : Nat) :
    columnTexts (rows.map (·.map Text.trim)) i
      = rows.map fun row => Text.trim (row.getD i "") := by
  rw [columnTexts, List.map_map]
  apply List.map_congr_left
  intro row _
  have hempty : Text.trim "" = "" := by decide
  simp only [Function.comp_apply, List.getD_eq_getElem?_getD, List.getElem?_map]
  cases row[i]? with
  | none => exact hempty.symm
  | some cell => rfl

/-- All spellings of a rectangular table, whose names are distinct after trimming, are read
as one frame: each column has the trim of its name, and of its cells the narrowest type. -/
theorem ofCsv_of_tableSpelling {header : List String} {rows : List (List String)}
    (hrows : ∀ row ∈ rows, row.length = header.length)
    (hdistinct : (header.map Text.trim).Nodup) :
    ∃ f : Frame, f.columnCount = header.length ∧
      (∀ i name, header[i]? = some name →
        ∃ cells, Narrowest (rows.map fun row => Text.trim (row.getD i "")) cells ∧
          f.columns[i]? = some ⟨Text.trim name, cells⟩) ∧
      ∀ text : String, TableSpelling (header :: rows) text.toList → Frame.ofCsv text = .ok f := by
  let columns := tableColumns (header.map Text.trim) (rows.map (·.map Text.trim))
  have hnames : (columns.map (·.name)).Nodup := by
    rwa [names_tableColumns]
  rcases Frame.exists_ofColumns_eq_ok hnames (level_tableColumns _ _) with ⟨f, -, hcolumns⟩
  refine ⟨f, ?_, ?_, ?_⟩
  · rw [Frame.columnCount, hcolumns, length_tableColumns, List.length_map]
  · intro i name hname
    refine ⟨_, narrowest_inferCells _, ?_⟩
    rw [hcolumns, ← columnTexts_map_trim]
    exact getElem?_tableColumns _ (by rw [List.getElem?_map, hname]; rfl)
  · intro text htext
    rcases exists_ofCsvBytes_eq_ok (readTable_of_tableSpelling hrows htext) hdistinct with
      ⟨g, hg, hgcolumns⟩
    rw [Frame.ofCsv, hg, Frame.ext_columns (hgcolumns.trans hcolumns.symm)]

/-- Two columns and one row, spelled with a byte order mark, an empty line, blanks around
cells and a doubled quote. -/
theorem ofCsv_of_markedSpelling :
    ∃ f : Frame, f.columnCount = 2 ∧
      f.columns[0]?.map (·.name) = some "a" ∧ f.columns[1]?.map (·.name) = some "b" ∧
      Frame.ofCsv "\uFEFF\n a,\"b \"\r\n1 ,\"x\"\"y\"\t" = .ok f := by
  rcases @ofCsv_of_tableSpelling ["a", "b"] [["1", "x\"y"]] (by decide) (by decide) with
    ⟨f, hcount, hcolumns, hread⟩
  rcases hcolumns 0 "a" rfl with ⟨first, -, hfirst⟩
  rcases hcolumns 1 "b" rfl with ⟨second, -, hsecond⟩
  refine ⟨f, hcount, by rw [hfirst]; rfl, by rw [hsecond]; rfl, hread _ ?_⟩
  have hnone : Blanks [] ∧ InlineBlanks [] := ⟨List.forall_mem_nil _, List.forall_mem_nil _⟩
  have hspace : Blanks [' '] ∧ InlineBlanks [' '] :=
    ⟨List.forall_mem_singleton.2 rfl, List.forall_mem_singleton.2 (by decide)⟩
  have htab : InlineBlanks ['\t'] := List.forall_mem_singleton.2 (by decide)
  have hheader : RecordSpelling ["a", "b"] " a,\"b \"".toList := by
    refine ⟨by decide, [" a".toList, "\"b \"".toList], ?_, by decide⟩
    have ha : CellSpelling "a" " a".toList :=
      .bare (by simp [isSpecial]) hspace.2 hnone.2
    have hb : CellSpelling "b" "\"b \"".toList :=
      .quoted hnone.1 hspace.1 hnone.2
    exact .cons ha (.cons hb .nil)
  have hrow : RecordSpelling ["1", "x\"y"] "1 ,\"x\"\"y\"\t".toList := by
    refine ⟨by decide, ["1 ".toList, "\"x\"\"y\"\t".toList], ?_, by decide⟩
    have hone : CellSpelling "1" "1 ".toList :=
      .bare (by simp [isSpecial]) hnone.2 hspace.2
    have hxy : CellSpelling "x\"y" "\"x\"\"y\"\t".toList :=
      .quoted hnone.1 hnone.1 htab
    exact .cons hone (.cons hxy .nil)
  have hlines : Lines [" a,\"b \"".toList, "1 ,\"x\"\"y\"\t".toList]
      "\n a,\"b \"\r\n1 ,\"x\"\"y\"\t".toList :=
    .empty .lineFeed (.line .both (.last _))
  exact .marked (.cons hheader (.cons hrow .nil)) hlines

end TableFixture.Csv
