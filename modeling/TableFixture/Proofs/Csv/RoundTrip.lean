import TableFixture.Proofs.Csv.WrittenTable

/-!
# The exact round trip

A frame is the one that is read from its table exactly if nothing of it is lost on the way.
A name or string loses the blanks at its ends, a first name that is written bare loses a
byte order mark, columns without rows and strings that are all numbers lose their type, and
what is not a number equals nothing.  There are no other losses.

Main results:

- Theorem `head?_writeTable_eq_mark_iff`: which tables begin with a byte order mark.
- Theorem `exists_readTable_of_mark`: such a table is read with another name or row count.
- Theorem `same_reread_iff`: which cells are inferred again from their texts.
- Theorem `ofCsv_toCsv_same_iff`: which frames are read back from their tables.
-/

namespace TableFixture

namespace Csv

open Text.Utf8 (encode)

/-! ## Tables that begin with a byte order mark -/

/-- What follows the first field of a written record is no byte order mark. -/
theorem exists_writeRecord_eq_append (first : List Char) (rest : List (List Char)) :
    ∃ c tail, writeRecord (first :: rest) = writeField first ++ c :: tail ∧ c ≠ markChar := by
  cases rest with
  | nil =>
      by_cases hline : writeField first = []
      · refine ⟨'"', ['"', '\n'], ?_, by decide⟩
        rw [writeRecord, List.map_singleton, List.intercalate_singleton, hline]
        rfl
      · refine ⟨'\n', [], ?_, by decide⟩
        rw [writeRecord, List.map_singleton, List.intercalate_singleton,
          if_neg (by simpa using hline)]
  | cons second rest =>
      refine ⟨',', [','].intercalate ((second :: rest).map writeField) ++ ['\n'], ?_,
        by decide⟩
      rw [writeRecord, List.map_cons, List.map_cons, List.intercalate_cons_cons,
        if_neg (by simp), ← List.map_cons]
      simp

/-- A table begins with a byte order mark exactly if its first name is written bare and
begins with one. -/
theorem head?_writeTable_eq_mark_iff (name : String) (names : List String)
    (rows : List (List String)) :
    (writeTable (name :: names) rows).head? = some markChar ↔
      name.toList.head? = some markChar ∧ name.toList.any isSpecial = false := by
  rcases exists_writeRecord_eq_append name.toList (names.map String.toList) with
    ⟨c, tail, hrecord, hc⟩
  rw [writeTable_eq, List.map_cons, hrecord, List.append_assoc, List.cons_append]
  by_cases hspecial : name.toList.any isSpecial = true
  · rw [writeField_of_special hspecial]
    simp [hspecial, markChar]
  · have hplain := Bool.eq_false_iff.2 hspecial
    rw [writeField_of_plain hplain, hplain, List.head?_append]
    cases name.toList with
    | nil => simp [hc]
    | cons d cs => simp

/-- The byte order mark before a record that has a bare first field. -/
theorem writeRecord_mark {tail : List Char} (htail : tail.any isSpecial = false)
    (rest : List (List Char)) :
    writeRecord ((markChar :: tail) :: rest)
      = markChar :: ([','].intercalate (tail :: rest.map writeField) ++ ['\n']) := by
  have hplain : (markChar :: tail).any isSpecial = false := by
    rw [List.any_cons, htail]
    decide
  cases rest with
  | nil =>
      rw [writeRecord, List.map_singleton, writeField_of_plain hplain]
      simp
  | cons second rest =>
      rw [writeRecord, List.map_cons, writeField_of_plain hplain, List.map_cons,
        List.intercalate_cons_cons, List.intercalate_cons_cons]
      simp

/-- The first name loses the byte order mark it begins with. -/
theorem readTable_writeTable_mark {name : String} {tail : List Char}
    (hname : name.toList = markChar :: tail) (hplain : tail.any isSpecial = false)
    {names : List String} {rows : List (List String)}
    (hwidth : ∀ row ∈ rows, row.length = names.length + 1) (hne : tail ≠ [] ∨ names ≠ []) :
    readTable (encode (writeTable (name :: names) rows))
      = .ok (trimmed tail :: names.map Text.trim, rows.map (·.map Text.trim)) := by
  rcases exists_lines_of_rows (Nat.succ_pos _) hwidth with ⟨lines, hforms, hlines⟩
  have hheader : RecordForm (tail :: names.map String.toList)
      ([','].intercalate (tail :: (names.map String.toList).map writeField)) := by
    have htail : FieldForm tail tail := .bare (by simpa using hplain)
    refine ⟨?_, _, .cons htail (forall₂_fieldForm_writeField _), rfl⟩
    intro hnil
    cases names with
    | nil =>
        rcases hne with hne | hne
        · exact hne (by simpa using hnil)
        · exact hne rfl
    | cons second names =>
        rw [List.map_cons, List.map_cons, List.intercalate_cons_cons] at hnil
        exact absurd hnil (by simp)
  have hread := readTable_of_forms (.inl rfl) (.line .lineFeed hlines) (.cons hheader hforms)
    (by simpa using hwidth)
  rw [writeTable_eq, List.map_cons, hname, writeRecord_mark hplain, List.cons_append, hread,
    List.map_cons, map_trimmed_toList, map_map_trimmed_toList]

/-- A header that is nothing but a byte order mark is lost. -/
theorem exists_readTable_of_markAlone {name : String} (hname : name.toList = [markChar])
    {rows : List (List String)} (hwidth : ∀ row ∈ rows, row.length = 1) :
    ∃ names' rows', readTable (encode (writeTable [name] rows)) = .ok (names', rows') ∧
      (names' ≠ [name] ∨ rows'.length ≠ rows.length) := by
  have htext : writeTable [name] rows
      = markChar :: (['\n'] ++ (rows.map (·.map String.toList)).flatMap writeRecord) := by
    rw [writeTable_eq, List.map_singleton, hname, writeRecord_mark (by simp)]
    rfl
  rw [htext]
  cases rows with
  | nil =>
      exact ⟨[], [], rfl, by simp⟩
  | cons row rows =>
      rcases exists_lines_of_rows Nat.one_pos hwidth with ⟨lines, hforms, hlines⟩
      refine ⟨row.map Text.trim, rows.map (·.map Text.trim), ?_, by simp⟩
      have hlevel : ∀ fields ∈ rows.map (·.map String.toList),
          fields.length = (row.map String.toList).length := by
        simpa [hwidth row List.mem_cons_self] using
          fun row' hmem => hwidth row' (List.mem_cons_of_mem row hmem)
      have hread := readTable_of_forms (.inl rfl) (.empty .lineFeed hlines) hforms hlevel
      rw [hread, map_trimmed_toList, map_map_trimmed_toList]

/-- A table that begins with a byte order mark is read with another name or another number
of rows. -/
theorem exists_readTable_of_mark {names : List String} {rows : List (List String)}
    (hnames : names ≠ []) (hwidth : ∀ row ∈ rows, row.length = names.length)
    (hmark : (writeTable names rows).head? = some markChar) :
    ∃ names' rows', readTable (encode (writeTable names rows)) = .ok (names', rows') ∧
      (names' ≠ names ∨ rows'.length ≠ rows.length) := by
  cases names with
  | nil => exact absurd rfl hnames
  | cons name names =>
      rcases (head?_writeTable_eq_mark_iff name names rows).1 hmark with ⟨hhead, hplain⟩
      rcases List.head?_eq_some_iff.1 hhead with ⟨tail, hname⟩
      rw [hname, List.any_cons, Bool.or_eq_false_iff] at hplain
      by_cases hne : tail ≠ [] ∨ names ≠ []
      · refine ⟨_, _, readTable_writeTable_mark hname hplain.2 hwidth hne, .inl ?_⟩
        intro heq
        have hlength := congrArg (fun names => names.head?.map (·.toList.length)) heq
        have hle : (Text.trimBoth Text.isBlank tail).length ≤ tail.length :=
          Text.length_trimBoth_le tail
        simp only [List.head?_cons, Option.map_some, Option.some.injEq, trimmed,
          String.toList_ofList, hname, List.length_cons] at hlength
        omega
      · -- the mark is the whole header, so the first row is taken for it
        rcases not_or.1 hne with ⟨htail, hrest⟩
        obtain rfl := not_not.1 htail
        obtain rfl := not_not.1 hrest
        exact exists_readTable_of_markAlone hname hwidth

/-! ## Equality as values -/

theorem isEqv_eq_true_iff {α : Type} (p : α → α → Bool) (xs ys : List α) :
    xs.isEqv ys p = true ↔ List.Forall₂ (fun x y => p x y = true) xs ys := by
  induction xs generalizing ys with
  | nil =>
      cases ys with
      | nil => simp
      | cons y ys => simp
  | cons x xs ih =>
      cases ys with
      | nil => simp
      | cons y ys => simp [List.isEqv, ih]

theorem isEqv_map_self_iff {α : Type} (p : α → α → Bool) (h : α → α) (xs : List α) :
    (xs.map h).isEqv xs p = true ↔ ∀ x ∈ xs, p (h x) x = true := by
  rw [isEqv_eq_true_iff, List.forall₂_map_left_iff, List.forall₂_same]

theorem length_eq_of_same {cs ds : Cells} (h : cs.same ds = true) : cs.length = ds.length := by
  unfold Cells.same at h
  split at h
  · exact congrArg List.length (beq_iff_eq.1 h)
  · exact ((isEqv_eq_true_iff _ _ _).1 h).length_eq
  · exact congrArg List.length (beq_iff_eq.1 h)
  · exact absurd h Bool.false_ne_true

/-- Equal frames have the same names and the same number of rows. -/
theorem names_and_rowCount_of_same {f g : Frame} (h : f.same g = true) :
    f.names = g.names ∧ f.rowCount = g.rowCount := by
  have hcolumns := (isEqv_eq_true_iff _ _ _).1 h
  unfold Frame.names Frame.rowCount
  generalize f.columns = cs, g.columns = ds at hcolumns
  induction hcolumns with
  | nil => exact ⟨rfl, rfl⟩
  | @cons c d cs ds hcd _ ih =>
      rw [NamedColumn.same, Bool.and_eq_true, beq_iff_eq] at hcd
      refine ⟨?_, ?_⟩
      · rw [List.map_cons, List.map_cons, hcd.1, ih.1]
      · exact length_eq_of_same hcd.2

/-! ## Cells -/

/-- Integers are inferred again if there are any. -/
theorem same_reread_int64_iff (vs : List Int64) :
    (reread (.int64 vs)).same (.int64 vs) = true ↔ 0 < vs.length := by
  by_cases hvs : vs = []
  · subst hvs
    decide
  · rw [reread_int64 hvs]
    simpa [Cells.same] using List.length_pos_of_ne_nil hvs

/-- Floats are inferred again if there are any and all of them are numbers. -/
theorem same_reread_float64_iff (vs : List Binary64) :
    (reread (.float64 vs)).same (.float64 vs) = true ↔
      0 < vs.length ∧ ∀ x ∈ vs, x.isNaN = false := by
  by_cases hvs : vs = []
  · subst hvs
    simp [reread, Cells.toList, inferCells, readAll, Cells.same]
  · have hself (x : Binary64) : (oneNaN x).same x = true ↔ x.isNaN = false := by
      unfold oneNaN
      by_cases hnan : x.isNaN = true
      · simp [hnan, Binary64.same]
      · simp [hnan, Binary64.same_self]
    rw [reread_float64 hvs, Cells.same, isEqv_map_self_iff]
    simp only [hself, List.length_pos_of_ne_nil hvs, true_and]

/-- Strings are inferred again if they are their own trims and, unless there are none, one
of them is no number. -/
theorem same_reread_string_iff (vs : List String) :
    (reread (.string vs)).same (.string vs) = true ↔
      (∀ v ∈ vs, Text.trim v = v) ∧
        (0 < vs.length → ∃ v ∈ vs, Decimal.readBinary64 v.toList = none) := by
  have hsame (cs : Cells) : cs.same (.string vs) = true ↔ cs = .string vs := by
    cases cs <;> simp [Cells.same]
  have htrim : vs = vs.map Text.trim ↔ ∀ v ∈ vs, Text.trim v = v := by
    have hid := @List.map_inj_left _ _ vs Text.trim id
    rw [List.map_id] at hid
    rw [eq_comm, hid]
    rfl
  rw [hsame, reread_string, inferCells_eq_string_iff, htrim]
  apply and_congr_right
  intro hall
  rw [← htrim] at hall
  rw [← hall, List.length_pos_iff, ← or_iff_not_imp_left]

/-- Which cells are inferred again from their texts. -/
theorem same_reread_iff (cs : Cells) :
    (reread cs).same cs = true ↔
      (0 < cs.length ∨ cs.type = .string) ∧
      (∀ x, Cell.float64 x ∈ cs.toList → x.isNaN = false) ∧
      (0 < cs.length → ∀ vs, cs = .string vs → (∀ v ∈ vs, Text.trim v = v) ∧
        ∃ v ∈ vs, Decimal.readBinary64 v.toList = none) := by
  cases cs with
  | int64 vs =>
      rw [same_reread_int64_iff]
      simp [Cells.length, Cells.type, Cells.toList]
  | float64 vs =>
      rw [same_reread_float64_iff]
      simp [Cells.length, Cells.type, Cells.toList]
  | string vs =>
      rw [same_reread_string_iff]
      by_cases hvs : 0 < vs.length
      · simp [Cells.length, Cells.type, Cells.toList, hvs]
      · have hnil : vs = [] := by simpa using hvs
        simp [Cells.length, Cells.type, Cells.toList, hnil]

/-! ## Frames -/

/-- The frames of which nothing is lost in their tables. -/
structure Lossless (f : Frame) : Prop where
  /-- There is a column. -/
  columns : f.columns ≠ []
  /-- No name has blanks at its ends. -/
  names : ∀ name ∈ f.names, Text.trim name = name
  /-- If the first name begins with a byte order mark, it is written quoted. -/
  mark : ∀ name, f.names.head? = some name → name.toList.head? = some '\uFEFF' →
    ∃ c ∈ name.toList, c ∈ [',', '"', '\r', '\n']
  /-- A column without rows is one of strings. -/
  rows : 0 < f.rowCount ∨ ∀ c ∈ f.columns, c.cells.type = .string
  /-- All floats are numbers. -/
  numbers : ∀ c ∈ f.columns, ∀ x, Cell.float64 x ∈ c.cells.toList → x.isNaN = false
  /-- No string has blanks at its ends, and a column of strings holds one that is no number. -/
  strings : 0 < f.rowCount → ∀ c ∈ f.columns, ∀ vs, c.cells = .string vs →
    (∀ v ∈ vs, Text.trim v = v) ∧ ∃ v ∈ vs, Decimal.readBinary64 v.toList = none

/-- The first name of a frame begins with a byte order mark and is written bare exactly if
its table begins with one. -/
theorem head?_toCsv_eq_mark_iff {f : Frame} {name : String} (hname : f.names.head? = some name) :
    f.toCsv.toList.head? = some markChar ↔
      name.toList.head? = some markChar ∧ ∀ c ∈ name.toList, c ∉ [',', '"', '\r', '\n'] := by
  rcases List.head?_eq_some_iff.1 hname with ⟨names, hnames⟩
  rw [Frame.toList_toCsv, hnames, head?_writeTable_eq_mark_iff, List.any_eq_false]
  simp [isSpecial, and_assoc]

/-- A table begins with no byte order mark if the first name that begins with one is quoted. -/
theorem head?_toCsv_ne_mark {f : Frame} (hcolumns : f.columns ≠ [])
    (h : ∀ name, f.names.head? = some name → name.toList.head? = some markChar →
      ∃ c ∈ name.toList, c ∈ [',', '"', '\r', '\n']) :
    f.toCsv.toList.head? ≠ some markChar := by
  have hname := List.head?_eq_some_head (names_ne_nil hcolumns)
  rw [ne_eq, head?_toCsv_eq_mark_iff hname]
  rintro ⟨hhead, hplain⟩
  rcases h _ hname hhead with ⟨c, hc, hspecial⟩
  exact hplain c hc hspecial

/-- Names that are their own trims stay distinct. -/
theorem nodup_map_trim {f : Frame} (h : ∀ name ∈ f.names, Text.trim name = name) :
    (f.names.map Text.trim).Nodup := by
  rw [List.map_congr_left (g := id) h, List.map_id]
  exact f.distinct

/-- A column is read back from its table exactly if its name and its cells are. -/
theorem same_rereadColumn_iff (c : NamedColumn) :
    (rereadColumn c).same c = true ↔
      Text.trim c.name = c.name ∧ (reread c.cells).same c.cells = true := by
  rw [NamedColumn.same, Bool.and_eq_true, beq_iff_eq]
  rfl

/-- What is read from a table has the names and the rows that were read. -/
theorem names_and_rowCount_of_ofCsvBytes {bytes : List UInt8} {names : List String}
    {rows : List (List String)} (h : readTable bytes = .ok (names, rows)) {g : Frame}
    (hg : Frame.ofCsvBytes bytes = .ok g) :
    g.names = names ∧ (names ≠ [] → g.rowCount = rows.length) := by
  have hcolumns := columns_of_ofCsvBytes h hg
  have hnames : g.names = names := by rw [Frame.names, hcolumns, names_tableColumns]
  refine ⟨hnames, ?_⟩
  intro hne
  rw [← hnames, Frame.names, ne_eq, List.map_eq_nil_iff] at hne
  rcases List.exists_mem_of_ne_nil _ hne with ⟨c, hc⟩
  rw [← g.length_of_mem_columns hc]
  rw [hcolumns] at hc
  exact length_of_mem_tableColumns hc

/-- A frame without columns is read as one column without a name. -/
theorem columns_ne_nil_of_same {f g : Frame} (hg : Frame.ofCsv f.toCsv = .ok g)
    (hsame : g.same f = true) : f.columns ≠ [] := by
  intro hcolumns
  -- a record without fields is written like one that has a single empty field
  have htext : f.toCsv.toList = writeTable [""] [] := by
    rw [Frame.toList_toCsv, Frame.texts, Frame.names, Frame.rowCount, hcolumns]
    rfl
  have hread := @readTable_writeTable [""] [] (by simp) (by simp) (by decide)
  rw [Frame.ofCsv, htext] at hg
  have hnames := (names_and_rowCount_of_ofCsvBytes hread hg).1
  rw [(names_and_rowCount_of_same hsame).1, Frame.names, hcolumns] at hnames
  exact absurd hnames (by simp)

/-- A frame whose table begins with a byte order mark is not read back. -/
theorem head?_toCsv_ne_mark_of_same {f g : Frame} (hg : Frame.ofCsv f.toCsv = .ok g)
    (hsame : g.same f = true) : f.toCsv.toList.head? ≠ some markChar := by
  intro hmark
  have hnames := names_ne_nil (columns_ne_nil_of_same hg hsame)
  rw [Frame.toList_toCsv] at hmark
  rcases exists_readTable_of_mark hnames (width_texts f) hmark with ⟨names, rows, hread, hlost⟩
  rw [Frame.ofCsv, Frame.toList_toCsv] at hg
  rcases names_and_rowCount_of_ofCsvBytes hread hg with ⟨hgnames, hgrows⟩
  rcases names_and_rowCount_of_same hsame with ⟨hfnames, hfrows⟩
  rw [hgnames] at hfnames
  rcases hlost with hlost | hlost
  · exact hlost hfnames
  · rw [hfnames] at hgrows
    rw [← hgrows hnames, Frame.length_texts] at hlost
    exact hlost hfrows

/-- What is read from the table of a frame, if it does not begin with a byte order mark. -/
theorem columns_of_ofCsv_toCsv {f g : Frame} (hcolumns : f.columns ≠ [])
    (hmark : f.toCsv.toList.head? ≠ some markChar) (hg : Frame.ofCsv f.toCsv = .ok g) :
    g.columns = f.columns.map rereadColumn := by
  rw [← tableColumns_texts]
  exact columns_of_ofCsvBytes (readTable_toCsv hcolumns hmark) hg

/-- A frame is read back exactly if its names are their own trims and its cells are inferred
again. -/
theorem same_iff_of_rereadColumn {f g : Frame} (h : g.columns = f.columns.map rereadColumn) :
    g.same f = true ↔ (∀ name ∈ f.names, Text.trim name = name) ∧
      ∀ c ∈ f.columns, (reread c.cells).same c.cells = true := by
  rw [Frame.same, h, isEqv_map_self_iff, Frame.names, List.forall_mem_map]
  simp only [same_rereadColumn_iff]
  constructor
  · intro hall
    exact ⟨fun c hc => (hall c hc).1, fun c hc => (hall c hc).2⟩
  · rintro ⟨hnames, hcells⟩ c hc
    exact ⟨hnames c hc, hcells c hc⟩

/-- The cells of a frame are inferred again exactly if no column loses its type or a value. -/
theorem same_reread_columns_iff (f : Frame) :
    (∀ c ∈ f.columns, (reread c.cells).same c.cells = true) ↔
      (0 < f.rowCount ∨ ∀ c ∈ f.columns, c.cells.type = .string) ∧
      (∀ c ∈ f.columns, ∀ x, Cell.float64 x ∈ c.cells.toList → x.isNaN = false) ∧
      (0 < f.rowCount → ∀ c ∈ f.columns, ∀ vs, c.cells = .string vs →
        (∀ v ∈ vs, Text.trim v = v) ∧ ∃ v ∈ vs, Decimal.readBinary64 v.toList = none) := by
  have hlength : ∀ c ∈ f.columns, c.cells.length = f.rowCount := fun c hc =>
    f.length_of_mem_columns hc
  simp only [same_reread_iff]
  constructor
  · intro hall
    refine ⟨?_, fun c hc => (hall c hc).2.1, ?_⟩
    · by_cases hrows : 0 < f.rowCount
      · exact .inl hrows
      · right
        intro c hc
        rcases (hall c hc).1 with hpos | htype
        · rw [hlength c hc] at hpos
          exact absurd hpos hrows
        · exact htype
    · intro hrows c hc
      apply (hall c hc).2.2
      rwa [hlength c hc]
  · rintro ⟨hrows, hnumbers, hstrings⟩ c hc
    rw [hlength c hc]
    refine ⟨?_, hnumbers c hc, fun hpos => hstrings hpos c hc⟩
    rcases hrows with hpos | htype
    · exact .inl hpos
    · exact .inr (htype c hc)

/-- A frame is the one that is read from its table exactly if nothing of it is lost. -/
theorem ofCsv_toCsv_same_iff (f : Frame) :
    (∃ g, Frame.ofCsv f.toCsv = .ok g ∧ g.same f = true) ↔ Lossless f := by
  constructor
  · rintro ⟨g, hg, hsame⟩
    have hcolumns := columns_ne_nil_of_same hg hsame
    have hmark := head?_toCsv_ne_mark_of_same hg hsame
    have hreread := columns_of_ofCsv_toCsv hcolumns hmark hg
    rcases (same_iff_of_rereadColumn hreread).1 hsame with ⟨hnames, hcells⟩
    rcases (same_reread_columns_iff f).1 hcells with ⟨hrows, hnumbers, hstrings⟩
    refine ⟨hcolumns, hnames, ?_, hrows, hnumbers, hstrings⟩
    intro name hname hhead
    by_contra hnone
    apply hmark
    rw [head?_toCsv_eq_mark_iff hname]
    exact ⟨hhead, fun c hc hspecial => hnone ⟨c, hc, hspecial⟩⟩
  · intro h
    have hmark := head?_toCsv_ne_mark h.columns h.mark
    rcases ofCsv_toCsv_of_nodup h.columns hmark (nodup_map_trim h.names) with ⟨g, hg, hreread⟩
    refine ⟨g, hg, (same_iff_of_rereadColumn hreread).2 ⟨h.names, ?_⟩⟩
    exact (same_reread_columns_iff f).2 ⟨h.rows, h.numbers, h.strings⟩

end Csv

end TableFixture
