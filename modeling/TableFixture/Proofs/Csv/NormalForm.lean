import TableFixture.Proofs.Csv.RoundTrip

/-!
# Normal forms of tables

Whatever text a frame was read from, its names and strings are trims and its cells have the
narrowest type of their texts.  So writing the frame and reading it again changes nothing,
and writing what was read is a normal form of the text.

Main results:

- Theorem `trim_of_mem_readTable`: the names and texts that are read are trims.
- Theorem `alike_reread_inferCells`: cells of the narrowest type of trims are inferred again.
- Theorem `normal_of_ofCsv`: every frame that is read is normal.
- Theorem `ofCsv_toCsv_ofCsv`: a frame that is read is read again from its table.
-/

namespace TableFixture

namespace Csv

/-! ## Names and texts that are read -/

theorem trim_trimmed (cs : List Char) : Text.trim (trimmed cs) = trimmed cs := by
  rw [trimmed_eq, Text.trim_trim]

theorem trim_of_mem_map_trimmed {texts : List (List Char)} {text : String}
    (h : text ∈ texts.map trimmed) : Text.trim text = text := by
  rcases List.mem_map.1 h with ⟨cs, -, rfl⟩
  exact trim_trimmed cs

theorem trim_of_mem_readHeader {r : RawRecord} {names : List String}
    (h : readHeader r = .ok names) : ∀ name ∈ names, Text.trim name = name := by
  unfold readHeader at h
  split at h
  · exact absurd h (by simp)
  · injection h with h
    subst h
    intro name
    exact trim_of_mem_map_trimmed

theorem trim_of_mem_readRow {width number : Nat} {r : RawRecord} {row : List String}
    (h : readRow width number r = .ok row) : ∀ text ∈ row, Text.trim text = text := by
  unfold readRow at h
  split at h
  · exact absurd h (by simp)
  · split at h
    · exact absurd h (by simp)
    · injection h with h
      subst h
      intro text
      exact trim_of_mem_map_trimmed

theorem trim_of_mem_readRows {width number : Nat} {rs : List RawRecord}
    {rows : List (List String)} (h : readRows width number rs = .ok rows) :
    ∀ row ∈ rows, ∀ text ∈ row, Text.trim text = text := by
  induction rs generalizing number rows with
  | nil =>
      injection h with h
      subst h
      simp
  | cons r rs ih =>
      unfold readRows at h
      split at h
      · exact absurd h (by simp)
      · rename_i row hrow
        split at h
        · exact absurd h (by simp)
        · rename_i rest hrest
          injection h with h
          subst h
          intro row' hmem
          rcases List.mem_cons.1 hmem with rfl | hmem
          · exact trim_of_mem_readRow hrow
          · exact ih hrest row' hmem

/-- The names and texts that are read are trims. -/
theorem trim_of_mem_readTable {bytes : List UInt8} {names : List String}
    {rows : List (List String)} (h : readTable bytes = .ok (names, rows)) :
    (∀ name ∈ names, Text.trim name = name) ∧
      ∀ row ∈ rows, ∀ text ∈ row, Text.trim text = text := by
  unfold readTable at h
  split at h
  · injection h with h
    injection h with hnames hrows
    subst hnames hrows
    simp
  · split at h
    · exact absurd h (by simp)
    · rename_i names' hheader
      split at h
      · exact absurd h (by simp)
      · rename_i rows' hdata
        injection h with h
        injection h with hnames hrows
        subst hnames hrows
        exact ⟨trim_of_mem_readHeader hheader, trim_of_mem_readRows hdata⟩

theorem trim_of_mem_columnTexts {rows : List (List String)}
    (h : ∀ row ∈ rows, ∀ text ∈ row, Text.trim text = text) (i : Nat) :
    ∀ text ∈ columnTexts rows i, Text.trim text = text := by
  intro text hmem
  rcases List.mem_map.1 hmem with ⟨row, hrow, rfl⟩
  rw [List.getD_eq_getElem?_getD]
  cases htext : row[i]? with
  | none => decide
  | some text => exact h row hrow text (List.mem_of_getElem? htext)

/-! ## Cells -/

/-- Cells of one type with the same values, whatever is not a number being alike. -/
inductive Alike : Cells → Cells → Prop where
  | int64 (vs : List Int64) : Alike (.int64 vs) (.int64 vs)
  | float64 {vs ws : List Binary64} :
      List.Forall₂ (fun x y => x = y ∨ x.isNaN = true ∧ y.isNaN = true) vs ws →
      Alike (.float64 vs) (.float64 ws)
  | string (vs : List String) : Alike (.string vs) (.string vs)

theorem Alike.type_eq {cs ds : Cells} (h : Alike cs ds) : cs.type = ds.type := by
  cases h <;> rfl

/-- Cells that are alike have the same texts. -/
theorem Alike.texts_eq {cs ds : Cells} (h : Alike cs ds) :
    cs.toList.map Cell.text = ds.toList.map Cell.text := by
  cases h with
  | int64 vs => rfl
  | string vs => rfl
  | float64 hvalues =>
      simp only [Cells.toList, List.map_map]
      induction hvalues with
      | nil => rfl
      | cons hhead _ ih =>
          rw [List.map_cons, List.map_cons, ih]
          congr 1
          rcases hhead with rfl | ⟨hx, hy⟩
          · rfl
          · simp only [Function.comp_apply, Cell.text, Decimal.write_of_isNaN _ hx,
              Decimal.write_of_isNaN _ hy]

theorem alike_oneNaN (vs : List Binary64) :
    Alike (.float64 (vs.map oneNaN)) (.float64 vs) := by
  apply Alike.float64
  rw [List.forall₂_map_left_iff, List.forall₂_same]
  intro x _
  by_cases hnan : x.isNaN = true
  · right
    rw [oneNaN, if_pos hnan]
    exact ⟨by decide, hnan⟩
  · left
    rw [oneNaN, if_neg hnan]

/-- Cells of the narrowest type of trims are inferred again. -/
theorem alike_reread_inferCells {texts : List String}
    (h : ∀ text ∈ texts, Text.trim text = text) :
    Alike (reread (inferCells texts)) (inferCells texts) := by
  have hvalues {α : Type} {read : String → Option α} {vs : List α} (hne : texts ≠ [])
      (hvs : texts.map read = vs.map some) : vs ≠ [] := by
    rintro rfl
    rw [List.map_nil, List.map_eq_nil_iff] at hvs
    exact hne hvs
  have hnarrowest := narrowest_inferCells texts
  generalize hcs : inferCells texts = cs at hnarrowest ⊢
  cases hnarrowest with
  | @int64 vs hne hvs =>
      rw [reread_int64 (hvalues hne hvs)]
      exact .int64 vs
  | @float64 vs hsome hvs =>
      rcases hsome with ⟨text, htext, -⟩
      rw [reread_float64 (hvalues (List.ne_nil_of_mem htext) hvs)]
      exact alike_oneNaN vs
  | string _ =>
      have htexts : texts.map Text.trim = texts := by
        rw [List.map_congr_left (g := id) h, List.map_id]
      rw [reread_string, htexts, hcs]
      exact .string texts

/-! ## Frames -/

/-- Frames whose columns are all read back under their names, up to which value is not a
number. -/
def Normal (f : Frame) : Prop :=
  ∀ c ∈ f.columns, Text.trim c.name = c.name ∧ Alike (reread c.cells) c.cells

theorem normal_of_columns {f : Frame} {names : List String} {rows : List (List String)}
    (h : f.columns = tableColumns names rows) (hnames : ∀ name ∈ names, Text.trim name = name)
    (hrows : ∀ row ∈ rows, ∀ text ∈ row, Text.trim text = text) : Normal f := by
  intro c hc
  rw [h] at hc
  refine ⟨?_, ?_⟩
  · apply hnames
    rw [← names_tableColumns names rows]
    exact List.mem_map.2 ⟨c, hc, rfl⟩
  · rcases List.mem_map.1 hc with ⟨⟨name, i⟩, -, rfl⟩
    exact alike_reread_inferCells (trim_of_mem_columnTexts hrows i)

/-- Every frame that is read is normal. -/
theorem normal_of_ofCsv {text : String} {f : Frame} (h : Frame.ofCsv text = .ok f) :
    Normal f := by
  rw [Frame.ofCsv] at h
  cases hread : readTable (Text.Utf8.encode text.toList) with
  | error e =>
      rw [Frame.ofCsvBytes, hread] at h
      exact absurd h (by simp)
  | ok table =>
      rcases table with ⟨names, rows⟩
      rcases trim_of_mem_readTable hread with ⟨hnames, hrows⟩
      exact normal_of_columns (columns_of_ofCsvBytes hread h) hnames hrows

section Rereading

variable {f g : Frame} (hg : g.columns = f.columns.map rereadColumn) (h : Normal f)
include hg h

theorem names_of_normal : g.names = f.names := by
  rw [Frame.names, hg, List.map_map]
  exact List.map_congr_left fun c hc => (h c hc).1

theorem alike_of_normal :
    List.Forall₂ Alike (g.columns.map (·.cells)) (f.columns.map (·.cells)) := by
  rw [hg, List.map_map, List.forall₂_map_left_iff, List.forall₂_map_right_iff,
    List.forall₂_same]
  intro c hc
  exact (h c hc).2

/-- The table of a frame that is read again is the same. -/
theorem toCsv_of_normal : g.toCsv = f.toCsv := by
  have hrow (row : Nat) : g.rowTexts row = f.rowTexts row := by
    rw [Frame.rowTexts, hg, List.map_map]
    apply List.map_congr_left
    intro c hc
    have htexts := congrArg (fun texts => texts[row]?) (h c hc).2.texts_eq
    simp only [List.getElem?_map, ← Cells.cell?_eq_getElem?] at htexts
    simp only [Function.comp_apply, rereadColumn, htexts]
  have htexts : g.texts = f.texts := by
    rw [Frame.texts, Frame.texts, rowCount_of_rereadColumn hg]
    exact List.map_congr_left fun row _ => hrow row
  rw [Frame.toCsv, Frame.toCsv, names_of_normal hg h, htexts]

end Rereading

/-- A frame that is read is read again from its table, with the same names, types, rows and
values, and has the same table then.  It must have a column, and its first name no byte
order mark at its beginning. -/
theorem ofCsv_toCsv_ofCsv {text : String} {f : Frame} (hread : Frame.ofCsv text = .ok f)
    (hcolumns : f.columns ≠ [])
    (hmark : ∀ name, f.names.head? = some name → name.toList.head? ≠ some '\uFEFF') :
    ∃ g, Frame.ofCsv f.toCsv = .ok g ∧ g.names = f.names ∧
      g.columns.map (·.cells.type) = f.columns.map (·.cells.type) ∧
      g.rowCount = f.rowCount ∧
      List.Forall₂ Alike (g.columns.map (·.cells)) (f.columns.map (·.cells)) ∧
      g.toCsv = f.toCsv := by
  have hnormal := normal_of_ofCsv hread
  have hnames : ∀ name ∈ f.names, Text.trim name = name := by
    rw [Frame.names, List.forall_mem_map]
    exact fun c hc => (hnormal c hc).1
  have hunmarked := head?_toCsv_ne_mark hcolumns fun name hname hhead =>
    absurd hhead (hmark name hname)
  rcases ofCsv_toCsv_of_nodup hcolumns hunmarked (nodup_map_trim hnames) with
    ⟨g, hg, hreread⟩
  refine ⟨g, hg, names_of_normal hreread hnormal, ?_, rowCount_of_rereadColumn hreread,
    alike_of_normal hreread hnormal, toCsv_of_normal hreread hnormal⟩
  rw [hreread, List.map_map]
  exact List.map_congr_left fun c hc => (hnormal c hc).2.type_eq

/-- A name and a cell with blanks around them are read without them, and then again. -/
theorem ofCsv_toCsv_ofCsv_blanks :
    ∃ f g : Frame, Frame.ofCsv " a \n 1 \n" = .ok f ∧ f.names = ["a"] ∧
      Frame.ofCsv f.toCsv = .ok g ∧ g.toCsv = f.toCsv := by
  have hread := @ofCsv_toCsv_of_nodup ⟨[⟨" a ", .string [" 1 "]⟩], by decide, by decide⟩
    (by decide) (by decide) (by decide)
  rcases hread with ⟨f, hf, hcolumns⟩
  have hnames : f.names = ["a"] := by
    rw [Frame.names, hcolumns]
    rfl
  have hmark : ∀ name, f.names.head? = some name → name.toList.head? ≠ some '\uFEFF' := by
    rw [hnames]
    rintro name hname
    obtain rfl := Option.some.inj hname
    decide
  rcases ofCsv_toCsv_ofCsv hf (by rw [hcolumns]; simp) hmark with ⟨g, hg, -, -, -, -, hcsv⟩
  exact ⟨f, g, hf, hnames, hg, hcsv⟩

end Csv

end TableFixture
