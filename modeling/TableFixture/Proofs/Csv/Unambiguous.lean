import TableFixture.Proofs.Csv.WrittenTable

/-!
# One table for one text

A written table splits into the fields that were written, before anything is trimmed or read
as a number.  So a text is the written form of one header and one list of rows only, and
frames share a text exactly if they have the same names and the same texts of cells.

Main results:

- Theorem `split_writeTable`: a written table splits into its fields.
- Theorem `writeTable_inj`: no two tables have the same written form.
- Theorem `texts_eq_iff`: the texts of a frame are those of its cells.
- Theorem `toCsv_eq_iff`: frames share a text exactly if names and texts of cells agree.
-/

namespace TableFixture

/-- The text of the cell in a row of a column, if there is one. -/
def Frame.text? (f : Frame) (row column : Nat) : Option String :=
  f.columns[column]?.bind fun c => (c.cells.cell? row).map Cell.text

namespace Csv

open Text.Utf8 (encode)

/-! ## Tables -/

/-- A written table splits into its fields as they are. -/
theorem split_writeTable {names : List String} {rows : List (List String)} (hnames : names ≠ [])
    (hwidth : ∀ row ∈ rows, row.length = names.length) :
    split (encode (writeTable names rows))
      = (names :: rows).map (·.map fun field => encode field.toList) := by
  have hall : ∀ row ∈ names :: rows, row.length = names.length := by simpa using hwidth
  rcases exists_lines_of_rows (List.length_pos_of_ne_nil hnames) hall with
    ⟨lines, hforms, hlines⟩
  rw [List.flatMap_map] at hlines
  have hsplit : split (encode (writeTable names rows)) = _ := fieldsFrom_of_lines hlines hforms
  rw [hsplit, List.map_map]
  apply List.map_congr_left
  intro fields _
  rw [Function.comp_apply, List.map_map]
  rfl

theorem encode_toList_injective :
    Function.Injective fun field : String => encode field.toList := by
  intro field field' h
  exact String.toList_inj.1 (Text.Utf8.encode_injective h)

/-- No two tables have the same written form. -/
theorem writeTable_inj {names names' : List String} {rows rows' : List (List String)}
    (hnames : names ≠ []) (hnames' : names' ≠ [])
    (hwidth : ∀ row ∈ rows, row.length = names.length)
    (hwidth' : ∀ row ∈ rows', row.length = names'.length)
    (h : writeTable names rows = writeTable names' rows') : names = names' ∧ rows = rows' := by
  have hsplit := split_writeTable hnames hwidth
  rw [h, split_writeTable hnames' hwidth'] at hsplit
  have hfields : Function.Injective
      fun fields : List String => fields.map fun field => encode field.toList :=
    List.map_injective_iff.2 encode_toList_injective
  have htables := List.map_injective_iff.2 hfields hsplit
  exact (List.cons.inj htables).imp Eq.symm Eq.symm

/-! ## Frames -/

/-- In its rows a frame has the texts of its cells. -/
theorem getElem?_rowTexts {f : Frame} {row : Nat} (hrow : row < f.rowCount) (column : Nat) :
    (f.rowTexts row)[column]? = f.text? row column := by
  rw [Frame.rowTexts, List.getElem?_map, Frame.text?]
  cases hcolumn : f.columns[column]? with
  | none => rfl
  | some c =>
      have hlength : c.cells.length = f.rowCount :=
        f.length_of_mem_columns (List.mem_of_getElem? hcolumn)
      have hcell := (c.cells.cell?_isSome_iff row).2 (hlength ▸ hrow)
      rcases Option.isSome_iff_exists.1 hcell with ⟨cell, hcell⟩
      simp [hcell]

/-- Below its rows a frame has no texts. -/
theorem text?_eq_none {f : Frame} {row : Nat} (hrow : f.rowCount ≤ row) (column : Nat) :
    f.text? row column = none := by
  rw [Frame.text?]
  cases hcolumn : f.columns[column]? with
  | none => rfl
  | some c =>
      have hlength : c.cells.length = f.rowCount :=
        f.length_of_mem_columns (List.mem_of_getElem? hcolumn)
      have hcell : c.cells.cell? row = none := by
        rw [← Option.not_isSome_iff_eq_none, Cells.cell?_isSome_iff, hlength]
        exact Nat.not_lt.2 hrow
      simp [hcell]

/-- The texts of frames agree exactly if they have as many rows and the same text for every
cell. -/
theorem texts_eq_iff (f g : Frame) :
    f.texts = g.texts ↔
      f.rowCount = g.rowCount ∧ ∀ row column, f.text? row column = g.text? row column := by
  constructor
  · intro h
    have hrows : f.rowCount = g.rowCount := by simpa using congrArg List.length h
    refine ⟨hrows, fun row column => ?_⟩
    by_cases hrow : row < f.rowCount
    · have hrow' : row < g.rowCount := hrows ▸ hrow
      have htexts : f.rowTexts row = g.rowTexts row := by
        have hget := congrArg (fun texts => texts[row]?) h
        simpa [Frame.texts, hrow, hrow'] using hget
      rw [← getElem?_rowTexts hrow, ← getElem?_rowTexts hrow', htexts]
    · have hrow' := Nat.le_of_not_lt hrow
      rw [text?_eq_none hrow', text?_eq_none (hrows ▸ hrow')]
  · rintro ⟨hrows, htexts⟩
    rw [Frame.texts, Frame.texts, ← hrows]
    apply List.map_congr_left
    intro row hrow
    have hrow := List.mem_range.1 hrow
    apply List.ext_getElem?
    intro column
    rw [getElem?_rowTexts hrow, getElem?_rowTexts (hrows ▸ hrow), htexts]

/-- Frames with columns share a text exactly if they have the same names in the same order, as
many rows, and the same text for every cell. -/
theorem toCsv_eq_iff {f g : Frame} (hf : f.columns ≠ []) (hg : g.columns ≠ []) :
    f.toCsv = g.toCsv ↔
      f.names = g.names ∧ f.rowCount = g.rowCount ∧
        ∀ row column, f.text? row column = g.text? row column := by
  rw [← texts_eq_iff]
  constructor
  · intro h
    have htables := congrArg String.toList h
    rw [Frame.toList_toCsv, Frame.toList_toCsv] at htables
    exact writeTable_inj (names_ne_nil hf) (names_ne_nil hg) (width_texts f) (width_texts g)
      htables
  · rintro ⟨hnames, htexts⟩
    rw [Frame.toCsv, Frame.toCsv, hnames, htexts]

/-- A blank cell and an empty one are written apart, though they are read alike. -/
theorem toCsv_blank_ne_empty :
    (⟨[⟨"", .string [" "]⟩], by decide, by decide⟩ : Frame).toCsv
      ≠ (⟨[⟨"", .string [""]⟩], by decide, by decide⟩ : Frame).toCsv := by
  rw [ne_eq, toCsv_eq_iff (by decide) (by decide)]
  rintro ⟨-, -, htexts⟩
  exact absurd (htexts 0 0) (by decide)

end Csv

end TableFixture
