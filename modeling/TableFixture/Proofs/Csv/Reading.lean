import TableFixture.Csv.Reader
import TableFixture.Proofs.Csv.Splitting
import TableFixture.Proofs.Frame.Assembly

/-!
# Reading records of known fields

Once the fields of all records are known to be texts, and every row to be as wide as the
header, reading cannot fail before the frame is assembled: names and texts are the trims
of the fields, and only a repeated name is left to go wrong.

Main results:

- Theorem `readTable_of_split`: known fields are read as their trims.
- Theorem `readTable_of_ragged`: a row of another width than the header is refused.
- Theorem `getElem?_tableColumns`: each column has its own name and its own texts.
- Theorems `exists_ofCsvBytes_eq_ok` and `ofCsvBytes_eq_duplicate`: what was read is the
  frame of these columns, or refused for the first repeated name.
-/

namespace TableFixture

namespace Csv

open Text.Utf8 (encode)

/-! ## Records of texts -/

theorem trimmed_eq (cs : List Char) : trimmed cs = Text.trim (String.ofList cs) := by
  rw [trimmed, Text.trim, String.toList_ofList]

theorem decodeFields_encode (position : Position) (number : Nat) (texts : List (List Char)) :
    decodeFields position number (texts.map encode) = .ok texts := by
  induction texts generalizing number with
  | nil => rfl
  | cons text texts ih =>
      rw [List.map_cons, decodeFields, Text.Utf8.decode_encode]
      simp only [ih]

theorem readHeader_of_fields {r : RawRecord} {texts : List (List Char)}
    (h : r.fields = texts.map encode) : readHeader r = .ok (texts.map trimmed) := by
  rw [readHeader, h, decodeFields_encode]

/-- A row of the right width is read; the trim of the bytes is lost in that of the text. -/
theorem readRow_of_fields {r : RawRecord} {texts : List (List Char)} {width : Nat}
    (h : r.fields = texts.map encode) (hwidth : texts.length = width) (number : Nat) :
    readRow width number r = .ok (texts.map trimmed) := by
  have hbytes : r.fields.map (Text.trimBoth Text.isBlankByte)
      = (texts.map (Text.trimBoth Text.Utf8.isBlankAscii)).map encode := by
    rw [h, List.map_map, List.map_map]
    exact List.map_congr_left fun cs _ => Text.Utf8.trimBoth_encode cs
  have htexts : (texts.map (Text.trimBoth Text.Utf8.isBlankAscii)).map trimmed
      = texts.map trimmed := by
    rw [List.map_map]
    apply List.map_congr_left
    intro cs _
    simp only [Function.comp_apply, trimmed, Text.Utf8.trimBoth_trimBoth_isBlankAscii]
  have hlength : ¬ r.fields.length ≠ width := by simp [h, hwidth]
  rw [readRow, if_neg hlength, hbytes, decodeFields_encode]
  simp only [htexts]

theorem readRows_of_fields {rs : List RawRecord} {rows : List (List (List Char))} {width : Nat}
    (h : rs.map (·.fields) = rows.map (·.map encode)) (hwidth : ∀ row ∈ rows, row.length = width)
    (number : Nat) : readRows width number rs = .ok (rows.map (·.map trimmed)) := by
  induction rows generalizing rs number with
  | nil =>
      rw [List.map_nil, List.map_eq_nil_iff] at h
      rw [h]
      rfl
  | cons row rows ih =>
      rcases List.map_eq_cons_iff.1 h with ⟨r, rest, rfl, hrow, hrest⟩
      have hread := readRow_of_fields hrow (hwidth row List.mem_cons_self) number
      have hreads := ih hrest (fun row' hmem => hwidth row' (List.mem_cons_of_mem row hmem))
        (number + 1)
      simp only [readRows, hread, hreads, List.map_cons]

/-- Rows are refused for the first of another width. -/
theorem readRows_of_ragged {rs : List RawRecord} {before after : List (List (List Char))}
    {row : List (List Char)} {width : Nat}
    (h : rs.map (·.fields) = (before ++ row :: after).map (·.map encode))
    (hbefore : ∀ row' ∈ before, row'.length = width) (hrow : row.length ≠ width) (number : Nat) :
    ∃ position : Position, position.record = number + before.length ∧
      readRows width number rs = .error (.unequalLengths position width row.length) := by
  induction before generalizing rs number with
  | nil =>
      rcases List.map_eq_cons_iff.1 h with ⟨r, rest, rfl, hfields, -⟩
      have hlength : r.fields.length = row.length := by rw [hfields, List.length_map]
      refine ⟨r.position number, rfl, ?_⟩
      simp only [readRows, readRow, hlength, if_pos hrow]
  | cons first before ih =>
      rcases List.map_eq_cons_iff.1 h with ⟨r, rest, rfl, hfirst, hrest⟩
      have hread := readRow_of_fields hfirst (hbefore first List.mem_cons_self) number
      rcases ih hrest (fun row' hmem => hbefore row' (List.mem_cons_of_mem first hmem))
        (number + 1) with ⟨position, hposition, hreads⟩
      refine ⟨position, ?_, by simp only [readRows, hread, hreads]⟩
      rw [hposition, List.length_cons]
      omega

/-- Known fields are read as their trims. -/
theorem readTable_of_split {bytes : List UInt8} {header : List (List Char)}
    {rows : List (List (List Char))}
    (h : (records bytes).map (·.fields) = (header :: rows).map (·.map encode))
    (hwidth : ∀ row ∈ rows, row.length = header.length) :
    readTable bytes = .ok (header.map trimmed, rows.map (·.map trimmed)) := by
  rcases List.map_eq_cons_iff.1 h with ⟨r, rest, hrecords, hheader, hrest⟩
  have hread := readHeader_of_fields hheader
  have hwidth' : ∀ row ∈ rows, row.length = (header.map trimmed).length := by
    simpa using hwidth
  have hreads := readRows_of_fields hrest hwidth' 1
  simp only [readTable, hrecords, hread, hreads]

/-- A table is refused for the first row that is not as wide as the header. -/
theorem readTable_of_ragged {bytes : List UInt8} {header row : List (List Char)}
    {before after : List (List (List Char))}
    (h : (records bytes).map (·.fields) = (header :: (before ++ row :: after)).map (·.map encode))
    (hbefore : ∀ row' ∈ before, row'.length = header.length) (hrow : row.length ≠ header.length) :
    ∃ position : Position, position.record = before.length + 1 ∧
      readTable bytes = .error (.unequalLengths position header.length row.length) := by
  rcases List.map_eq_cons_iff.1 h with ⟨r, rest, hrecords, hheader, hrest⟩
  have hread := readHeader_of_fields hheader
  rcases readRows_of_ragged hrest hbefore hrow 1 with ⟨position, hposition, hreads⟩
  refine ⟨position, by rw [hposition, Nat.add_comm], ?_⟩
  simp only [readTable, hrecords, hread, List.length_map, hreads]

/-! ## The byte order mark -/

/-- The character whose bytes are the byte order mark. -/
def markChar : Char := '\uFEFF'

theorem utf8EncodeChar_markChar : String.utf8EncodeChar markChar = byteOrderMark := by decide

/-- A byte order mark is dropped. -/
theorem fields_records_mark (cs : List Char) :
    (records (encode (markChar :: cs))).map (·.fields)
      = fieldsFrom .recordStart [] [] (encode cs) := by
  have hprefix : byteOrderMark.isPrefixOf (encode (markChar :: cs)) = true := by
    rw [← utf8EncodeChar_markChar, Text.Utf8.isPrefixOf_encode_iff]
    rfl
  have hdrop : (encode (markChar :: cs)).drop 3 = encode cs := by
    rw [Text.Utf8.encode_cons, utf8EncodeChar_markChar]
    rfl
  rw [records, if_pos hprefix, hdrop]
  exact fields_splitFrom ..

/-- Without a byte order mark nothing is dropped. -/
theorem fields_records_of_head? {cs : List Char} (h : cs.head? ≠ some markChar) :
    (records (encode cs)).map (·.fields) = fieldsFrom .recordStart [] [] (encode cs) := by
  have hprefix : ¬ byteOrderMark.isPrefixOf (encode cs) = true := by
    rw [← utf8EncodeChar_markChar, Text.Utf8.isPrefixOf_encode_iff]
    exact h
  rw [records, if_neg hprefix]
  rfl

/-! ## Columns -/

/-- The columns of a table, all of them named. -/
def tableColumns (names : List String) (rows : List (List String)) : List NamedColumn :=
  names.zipIdx.map fun (name, number) => ⟨name, inferCells (columnTexts rows number)⟩

theorem columns_eq (names : List String) (rows : List (List String)) :
    columns names rows = (tableColumns names rows).map (·.toColumn) := by
  rw [columns, tableColumns, List.map_map]
  rfl

@[simp]
theorem length_tableColumns (names : List String) (rows : List (List String)) :
    (tableColumns names rows).length = names.length := by
  simp [tableColumns]

@[simp]
theorem names_tableColumns (names : List String) (rows : List (List String)) :
    (tableColumns names rows).map (·.name) = names := by
  rw [tableColumns, List.map_map]
  exact List.zipIdx_map_fst 0 names

/-- Each column has its own name and its own texts. -/
theorem getElem?_tableColumns {names : List String} (rows : List (List String)) {i : Nat}
    {name : String} (h : names[i]? = some name) :
    (tableColumns names rows)[i]? = some ⟨name, inferCells (columnTexts rows i)⟩ := by
  simp [tableColumns, h]

theorem length_of_mem_tableColumns {names : List String} {rows : List (List String)}
    {c : NamedColumn} (h : c ∈ tableColumns names rows) : c.length = rows.length := by
  rcases List.mem_map.1 h with ⟨⟨name, number⟩, -, rfl⟩
  simp [NamedColumn.length, columnTexts]

theorem level_tableColumns (names : List String) (rows : List (List String)) :
    ∀ c ∈ tableColumns names rows, ∀ d ∈ tableColumns names rows, c.length = d.length := by
  intro c hc d hd
  rw [length_of_mem_tableColumns hc, length_of_mem_tableColumns hd]

/-! ## Frames -/

/-- A table that is read with distinct names is the frame of its columns. -/
theorem exists_ofCsvBytes_eq_ok {bytes : List UInt8} {names : List String}
    {rows : List (List String)} (h : readTable bytes = .ok (names, rows)) (hnames : names.Nodup) :
    ∃ f, Frame.ofCsvBytes bytes = .ok f ∧ f.columns = tableColumns names rows := by
  have hdistinct : ((tableColumns names rows).map (·.name)).Nodup := by
    rwa [names_tableColumns]
  rcases Frame.exists_ofColumns_eq_ok hdistinct (level_tableColumns names rows) with
    ⟨f, hf, hcolumns⟩
  refine ⟨f, ?_, hcolumns⟩
  rw [Frame.ofCsvBytes, h]
  simp only [columns_eq, hf]

/-- A table that is read with a repeated name is refused for the first of them. -/
theorem ofCsvBytes_eq_duplicate {bytes : List UInt8} {names : List String}
    {rows : List (List String)} (h : readTable bytes = .ok (names, rows)) {name : String}
    (hname : FirstRepeat names name) :
    Frame.ofCsvBytes bytes = .error (.duplicateColumnName name) := by
  have hrepeat : FirstRepeat ((tableColumns names rows).map (·.name)) name := by
    rwa [names_tableColumns]
  rw [Frame.ofCsvBytes, h]
  simp only [columns_eq]
  exact Frame.ofColumns_eq_duplicate hrepeat (level_tableColumns names rows)

/-- Whatever table is read, the frame is that of its columns. -/
theorem columns_of_ofCsvBytes {bytes : List UInt8} {names : List String}
    {rows : List (List String)} (h : readTable bytes = .ok (names, rows)) {f : Frame}
    (hf : Frame.ofCsvBytes bytes = .ok f) : f.columns = tableColumns names rows := by
  by_cases hnames : names.Nodup
  · rcases exists_ofCsvBytes_eq_ok h hnames with ⟨g, hg, hcolumns⟩
    rw [hf] at hg
    injection hg with hg
    rw [hg, hcolumns]
  · rcases exists_firstRepeat hnames with ⟨name, hname⟩
    have herror := ofCsvBytes_eq_duplicate h hname
    rw [hf] at herror
    exact absurd herror (by simp)

end Csv

end TableFixture
