import Mathlib.Data.List.FinRange
import TableFixture.Proofs.Csv.Acceptance

/-!
# Types that only widen

A column has the first of the types integer, float and string in which all its texts have a
value.  Every text that has a value in one of them has one in those after it.  So the type
does not depend on the order of the records, and other records can only move it to a later
type: then the texts are read again in that type, and no value is lost.

A table needs a record for this: a column without texts is one of strings, and the first
text may make it one of numbers.

Main results:

- Theorem `isSome_readAs_of_rank_le`: what has a value in a type has one in those after it.
- Theorem `rank_type_inferCells_le_iff`: the type of a column from the types of its texts.
- Theorem `cell?_inferCells`: each cell is the value of its text in the type of the column.
- Theorem `readTable_eq`: what is read depends on the fields alone.
- Theorem `ofCsvBytes_of_otherRecords`: records in another order, and more of them.
-/

namespace TableFixture

/-- The place of a type in the order of widening. -/
def ColumnType.rank : ColumnType → Nat
  | .int64 => 0
  | .float64 => 1
  | .string => 2

theorem ColumnType.eq_of_rank_eq {t u : ColumnType} (h : t.rank = u.rank) : t = u := by
  cases t <;> cases u <;> first | rfl | exact absurd h (by decide)

namespace Csv

open Text.Utf8 (encode)
open Decimal (readInt64 readBinary64 readSigned)

/-! ## Values in a type -/

/-- The value of a text in a type, if it has one. -/
def readAs : ColumnType → String → Option Cell
  | .int64, text => (readInt64 text.toList).map .int64
  | .float64, text => (readBinary64 text.toList).map .float64
  | .string, text => some (.string text)

/-- What has a value in a type has one in those after it. -/
theorem isSome_readAs_of_rank_le {t u : ColumnType} (h : t.rank ≤ u.rank) {text : String}
    (htext : (readAs t text).isSome = true) : (readAs u text).isSome = true := by
  cases u with
  | string => rfl
  | int64 =>
      have ht : t = .int64 := ColumnType.eq_of_rank_eq (Nat.le_zero.1 h)
      rwa [ht] at htext
  | float64 =>
      cases t with
      | string => exact absurd h (by decide)
      | float64 => exact htext
      | int64 =>
          simp only [readAs, Option.isSome_map] at htext ⊢
          rcases Option.isSome_iff_exists.1 htext with ⟨n, hn⟩
          exact Decimal.isSome_readBinary64_of_readInt64 hn

theorem getElem?_of_map_eq_map_some {α β : Type} {read : α → Option β} {xs : List α}
    {ys : List β} (h : xs.map read = ys.map some) (i : Nat) : ys[i]? = xs[i]?.bind read := by
  have hi := congrArg (fun values => values[i]?) h
  simp only [List.getElem?_map] at hi
  cases hx : xs[i]? with
  | none => cases hy : ys[i]? <;> simp_all
  | some x => cases hy : ys[i]? <;> simp_all

/-- Each cell is the value of its text in the type of the column. -/
theorem cell?_inferCells (texts : List String) (i : Nat) :
    (inferCells texts).cell? i = texts[i]?.bind (readAs (inferCells texts).type) := by
  have hnarrowest := narrowest_inferCells texts
  generalize inferCells texts = cells at hnarrowest ⊢
  cases hnarrowest with
  | int64 _ hvs =>
      rw [Cells.cell?, getElem?_of_map_eq_map_some hvs, Option.map_bind]
      rfl
  | float64 _ hvs =>
      rw [Cells.cell?, getElem?_of_map_eq_map_some hvs, Option.map_bind]
      rfl
  | string _ =>
      rw [Cells.cell?, Option.map_eq_bind]
      rfl

/-- All texts of a column have a value in its type. -/
theorem isSome_readAs_inferCells {texts : List String} {text : String} (h : text ∈ texts) :
    (readAs (inferCells texts).type text).isSome = true := by
  rcases List.getElem?_of_mem h with ⟨i, hi⟩
  have hlength : i < (inferCells texts).length := by
    rw [length_inferCells]
    exact (List.getElem?_eq_some_iff.1 hi).1
  rwa [← Cells.cell?_isSome_iff, cell?_inferCells, hi] at hlength

/-- The type of a column is the first in which all its texts have a value. -/
theorem rank_type_inferCells_le_iff {texts : List String} (hne : texts ≠ []) (t : ColumnType) :
    (inferCells texts).type.rank ≤ t.rank ↔
      ∀ text ∈ texts, (readAs t text).isSome = true := by
  constructor
  · intro hle text htext
    exact isSome_readAs_of_rank_le hle (isSome_readAs_inferCells htext)
  · intro hall
    -- a type before that of the column has no value for some text
    have hlater {u : ColumnType} {text : String} (htext : text ∈ texts)
        (hnone : readAs u text = none) : u.rank < t.rank := by
      apply Nat.lt_of_not_le
      intro hle
      have hsome := isSome_readAs_of_rank_le hle (hall text htext)
      rw [hnone] at hsome
      exact absurd hsome (by decide)
    have hnarrowest := narrowest_inferCells texts
    generalize inferCells texts = cells at hnarrowest ⊢
    cases hnarrowest with
    | int64 _ _ => exact Nat.zero_le _
    | float64 hno_int _ =>
        rcases hno_int with ⟨text, htext, hnone⟩
        exact hlater (u := .int64) htext (by rw [readAs, hnone, Option.map_none])
    | string hno =>
        rcases (hno hne).2 with ⟨text, htext, hnone⟩
        exact hlater (u := .float64) htext (by rw [readAs, hnone, Option.map_none])

/-- More texts have no earlier type. -/
theorem rank_type_inferCells_mono {texts texts' : List String} (hne : texts ≠ [])
    (h : texts ⊆ texts') : (inferCells texts).type.rank ≤ (inferCells texts').type.rank := by
  rw [rank_type_inferCells_le_iff hne]
  exact fun text htext => isSome_readAs_inferCells (h htext)

/-- The type of a column does not depend on the order of its texts. -/
theorem type_inferCells_of_perm {texts texts' : List String} (h : texts.Perm texts') :
    (inferCells texts).type = (inferCells texts').type := by
  by_cases hne : texts = []
  · subst hne
    rw [h.nil_eq]
  · have hne' : texts' ≠ [] := fun hnil => hne (by rwa [hnil, List.perm_nil] at h)
    exact ColumnType.eq_of_rank_eq (Nat.le_antisymm (rank_type_inferCells_mono hne h.subset)
      (rank_type_inferCells_mono hne' h.symm.subset))

/-- How the cells of texts may change when other texts join them. -/
structure Widens (texts : List String) (before after : Cells) : Prop where
  /-- The type is the same or a later one. -/
  later : before.type.rank ≤ after.type.rank
  /-- Values of the same type are the same. -/
  kept : after.type = before.type → ∀ i < texts.length, after.cell? i = before.cell? i
  /-- Values that have become strings are the texts. -/
  strings : after.type = .string → ∀ i text, texts[i]? = some text →
    after.cell? i = some (.string text)
  /-- Integers that have become floats are the floats of the same texts. -/
  floats : before.type = .int64 → after.type = .float64 → ∀ i text, texts[i]? = some text →
    ∃ x, readBinary64 text.toList = some x ∧ after.cell? i = some (.float64 x)

/-- Texts that have others after them have their values in the type of all. -/
theorem cell?_inferCells_append {texts : List String} {i : Nat} {text : String}
    (h : texts[i]? = some text) (more : List String) :
    (inferCells (texts ++ more)).cell? i = readAs (inferCells (texts ++ more)).type text := by
  have hi : i < texts.length := (List.getElem?_eq_some_iff.1 h).1
  rw [cell?_inferCells, List.getElem?_append_left hi, h, Option.bind_some]

/-- The cells of texts only widen when other texts join them. -/
theorem widens_inferCells {texts : List String} (hne : texts ≠ []) (more : List String) :
    Widens texts (inferCells texts) (inferCells (texts ++ more)) := by
  refine ⟨?_, ?_, ?_, ?_⟩
  · exact rank_type_inferCells_mono hne (List.subset_append_left texts more)
  · intro htype i hi
    rw [cell?_inferCells, cell?_inferCells, htype, List.getElem?_append_left hi]
  · intro htype i text htext
    rw [cell?_inferCells_append htext, htype]
    rfl
  · intro _ htype i text htext
    have hmem : text ∈ texts ++ more := List.mem_append_left _ (List.mem_of_getElem? htext)
    have hsome := isSome_readAs_inferCells hmem
    have hcell := cell?_inferCells_append htext more
    rw [htype] at hsome hcell
    rcases Option.isSome_iff_exists.1 ((Option.isSome_map ..).symm.trans hsome) with ⟨x, hx⟩
    refine ⟨x, hx, ?_⟩
    rw [hcell, readAs, hx, Option.map_some]

/-- A column without texts is one of strings, and its first text may give it an earlier type. -/
example : (inferCells []).type = .string ∧ (inferCells ["1"]).type = .int64 := by decide

/-! ## Tables by their fields -/

/-- The trim of the text of a field, if it is one. -/
def textOf (field : List UInt8) : String :=
  match Text.Utf8.decode field with
  | .ok cs => Text.trim (String.ofList cs)
  | .error _ => ""

theorem FieldText.eq_textOf {field : List UInt8} {text : String} (h : FieldText field text) :
    textOf field = text := by
  rcases h with ⟨cs, rfl, rfl⟩
  rw [textOf, Text.Utf8.decode_encode]

theorem eq_map_textOf {fields : List (List UInt8)} {texts : List String}
    (h : List.Forall₂ FieldText fields texts) : texts = fields.map textOf := by
  induction h with
  | nil => rfl
  | cons hfield _ ih => rw [List.map_cons, hfield.eq_textOf, ← ih]

theorem eq_map_map_textOf {data : List (List (List UInt8))} {rows : List (List String)}
    (h : List.Forall₂ (List.Forall₂ FieldText) data rows) : rows = data.map (·.map textOf) := by
  induction h with
  | nil => rfl
  | cons hfields _ ih => rw [List.map_cons, eq_map_textOf hfields, ← ih]

/-- What is read from a table without a faulty record depends on its fields alone. -/
theorem readTable_eq {bytes : List UInt8}
    (h : ∀ r ∈ records bytes, Sound (headerFields bytes).length r) :
    readTable bytes
      = .ok ((headerFields bytes).map textOf, (dataFields bytes).map (·.map textOf)) := by
  rcases readTable_of_sound h with ⟨names, rows, hread, hnames, hrows⟩
  rw [hread, eq_map_textOf hnames, eq_map_map_textOf hrows]

theorem hasRows_map_textOf {bytes : List UInt8}
    (h : ∀ r ∈ records bytes, Sound (headerFields bytes).length r) :
    HasRows bytes ((dataFields bytes).map (·.map textOf)) := by
  rcases readTable_of_sound h with ⟨names, rows, -, -, hrows⟩
  rwa [← eq_map_map_textOf hrows]

/-- A table that is accepted has no faulty record, and its columns are those of its fields. -/
theorem sound_and_columns_of_ofCsvBytes {bytes : List UInt8} {f : Frame}
    (h : Frame.ofCsvBytes bytes = .ok f) :
    (∀ r ∈ records bytes, Sound (headerFields bytes).length r) ∧
      f.columns = tableColumns ((headerFields bytes).map textOf)
        ((dataFields bytes).map (·.map textOf)) := by
  have hsound := ((readsExactly_ofCsvBytes bytes).accepted.1 ⟨f, h⟩).1
  exact ⟨hsound, columns_of_ofCsvBytes (readTable_eq hsound) h⟩

theorem rowCount_of_ofCsvBytes {bytes : List UInt8} {f : Frame}
    (h : Frame.ofCsvBytes bytes = .ok f) : f.rowCount = (dataFields bytes).length :=
  ((readsExactly_ofCsvBytes bytes).frame f h).rowCount

/-! ## Other records under the same header -/

/-- The rows of a frame in another order: in each place stands the row of the given place. -/
structure Reordered {n : Nat} (place : Fin n → Fin n) (f g : Frame) : Prop where
  rowCount : f.rowCount = n ∧ g.rowCount = n
  columns : List.Forall₂ (fun c d => d.name = c.name ∧ d.cells.type = c.cells.type ∧
    ∀ i : Fin n, d.cells.cell? i = c.cells.cell? (place i)) f.columns g.columns

/-- The frame of a table with more records: under the same names, the values of the fields of
the table in types that may have widened. -/
structure Extended (bytes : List UInt8) (more : Nat) (f g : Frame) : Prop where
  rowCount : g.rowCount = f.rowCount + more
  names : g.names = f.names
  columns : ∀ (c : Nat) (column : NamedColumn), f.columns[c]? = some column →
    ∃ texts cells, List.Forall₂
        (fun fields text => ∃ field, fields[c]? = some field ∧ FieldText field text)
        (dataFields bytes) texts ∧
      g.columns[c]? = some ⟨column.name, cells⟩ ∧ Widens texts column.cells cells

section OtherRecords

variable {bytes bytes' : List UInt8} {f : Frame} (hf : Frame.ofCsvBytes bytes = .ok f)
  (hheader : headerFields bytes' = headerFields bytes)
include hf hheader

/-- Under the header of an accepted table, records without fault are accepted. -/
theorem exists_ofCsvBytes_of_headerFields
    (hdata : ∀ fields ∈ dataFields bytes', fields.length = (headerFields bytes).length ∧
      ∀ field ∈ fields, IsText field) :
    ∃ g, Frame.ofCsvBytes bytes' = .ok g ∧
      g.columns = tableColumns ((headerFields bytes).map textOf)
        ((dataFields bytes').map (·.map textOf)) := by
  rcases sound_and_columns_of_ofCsvBytes hf with ⟨hsound, hcolumns⟩
  have hsound' : ∀ r ∈ records bytes', Sound (headerFields bytes').length r := by
    rw [forall_sound_iff, hheader]
    exact ⟨((forall_sound_iff bytes).1 hsound).1, hdata⟩
  have hnames : ((headerFields bytes).map textOf).Nodup := by
    have hdistinct := f.distinct
    rwa [hcolumns, names_tableColumns] at hdistinct
  have hread := readTable_eq hsound'
  rw [hheader] at hread
  exact exists_ofCsvBytes_eq_ok hread hnames

/-- Records in another order are rows in that order. -/
theorem exists_reordered (σ : Equiv.Perm (Fin (dataFields bytes).length))
    (hdata : dataFields bytes' = List.ofFn fun i => (dataFields bytes)[σ i]) :
    ∃ g, Frame.ofCsvBytes bytes' = .ok g ∧ Reordered σ f g := by
  rcases sound_and_columns_of_ofCsvBytes hf with ⟨hsound, hcolumns⟩
  have hperm : (dataFields bytes').Perm (dataFields bytes) := by
    have hsame : List.ofFn (fun i => (dataFields bytes)[i]) = dataFields bytes :=
      List.ofFn_getElem
    have hσ := σ.ofFn_comp_perm fun i => (dataFields bytes)[i]
    rw [hsame] at hσ
    rw [hdata]
    exact hσ
  have hfields := ((forall_sound_iff bytes).1 hsound).2
  rcases exists_ofCsvBytes_of_headerFields hf hheader
    (fun fields hmem => hfields fields (hperm.mem_iff.1 hmem)) with ⟨g, hg, hcolumns'⟩
  refine ⟨g, hg, ⟨rowCount_of_ofCsvBytes hf, ?_⟩, ?_⟩
  · rw [rowCount_of_ofCsvBytes hg, hperm.length_eq]
  · rw [hcolumns, hcolumns', tableColumns, tableColumns, List.forall₂_map_left_iff,
      List.forall₂_map_right_iff, List.forall₂_same]
    rintro ⟨name, c⟩ -
    have htexts := ((hperm.map (·.map textOf)).map fun row => row.getD c "")
    have htype := type_inferCells_of_perm htexts
    refine ⟨rfl, htype, fun i => ?_⟩
    have hrow : (dataFields bytes')[i.val]? = (dataFields bytes)[(σ i).val]? := by
      rw [hdata]
      simp
    rw [cell?_inferCells, cell?_inferCells, columnTexts, columnTexts, htype]
    simp only [List.getElem?_map, hrow]

/-- More records are more rows, under which the types of columns may widen. -/
theorem exists_extended (hne : dataFields bytes ≠ []) {more : List (List (List UInt8))}
    (hdata : dataFields bytes' = dataFields bytes ++ more)
    (hmore : ∀ fields ∈ more, fields.length = (headerFields bytes).length ∧
      ∀ field ∈ fields, IsText field) :
    ∃ g, Frame.ofCsvBytes bytes' = .ok g ∧ Extended bytes more.length f g := by
  rcases sound_and_columns_of_ofCsvBytes hf with ⟨hsound, hcolumns⟩
  have hfields := ((forall_sound_iff bytes).1 hsound).2
  have hfields' : ∀ fields ∈ dataFields bytes', fields.length = (headerFields bytes).length ∧
      ∀ field ∈ fields, IsText field := by
    rw [hdata, List.forall_mem_append]
    exact ⟨hfields, hmore⟩
  rcases exists_ofCsvBytes_of_headerFields hf hheader hfields' with ⟨g, hg, hcolumns'⟩
  refine ⟨g, hg, ?_, ?_, ?_⟩
  · rw [rowCount_of_ofCsvBytes hg, hdata, List.length_append, rowCount_of_ofCsvBytes hf]
  · rw [Frame.names, Frame.names, hcolumns, hcolumns', names_tableColumns, names_tableColumns]
  · intro c column hcolumn
    rw [hcolumns] at hcolumn
    have hc : c < ((headerFields bytes).map textOf).length := by
      rw [← length_tableColumns _ ((dataFields bytes).map (·.map textOf))]
      exact (List.getElem?_eq_some_iff.1 hcolumn).1
    have hname := List.getElem?_eq_getElem hc
    rw [getElem?_tableColumns _ hname] at hcolumn
    obtain rfl := Option.some.inj hcolumn
    have hcolumn' := getElem?_tableColumns ((dataFields bytes').map (·.map textOf)) hname
    rw [← hcolumns'] at hcolumn'
    refine ⟨_, _, forall₂_columnTexts (hasRows_map_textOf hsound) (by simpa using hc)
      (fun fields hmem => (hfields fields hmem).1), hcolumn', ?_⟩
    rw [hdata, List.map_append, columnTexts, columnTexts, List.map_append]
    exact widens_inferCells (by simpa using hne) _

end OtherRecords

/-- Records of an accepted table in another order are rows in that order, under the same names
and of the same types.  More records of the width of the header are more rows: no column gets
an earlier type, and its values are the same or those of the same texts in the later type.
For what is read as an integer is read as a float too, and as a float only if it is out of
range. -/
theorem ofCsvBytes_of_otherRecords {bytes : List UInt8} {f : Frame}
    (hf : Frame.ofCsvBytes bytes = .ok f) (hne : dataFields bytes ≠ []) :
    (∀ (σ : Equiv.Perm (Fin (dataFields bytes).length)) (bytes' : List UInt8),
      headerFields bytes' = headerFields bytes →
      dataFields bytes' = List.ofFn (fun i => (dataFields bytes)[σ i]) →
      ∃ g, Frame.ofCsvBytes bytes' = .ok g ∧ Reordered σ f g) ∧
    (∀ (more : List (List (List UInt8))) (bytes' : List UInt8),
      headerFields bytes' = headerFields bytes → dataFields bytes' = dataFields bytes ++ more →
      (∀ fields ∈ more, fields.length = (headerFields bytes).length) →
      (IsText bytes' ∨ ∀ fields ∈ more, ∀ field ∈ fields, IsText field) →
      ∃ g, Frame.ofCsvBytes bytes' = .ok g ∧ Extended bytes more.length f g) ∧
    (∀ cs n, readInt64 cs = some n → ∃ x, readBinary64 cs = some x) ∧
    ∀ cs n, readSigned cs = some n → n < Int64.minValue.toInt ∨ Int64.maxValue.toInt < n →
      readInt64 cs = none ∧ ∃ x, readBinary64 cs = some x := by
  refine ⟨?_, ?_, ?_, ?_⟩
  · intro σ bytes' hheader hdata
    exact exists_reordered hf hheader σ hdata
  · intro more bytes' hheader hdata hwidth htexts
    refine exists_extended hf hheader hne hdata fun fields hmem => ⟨hwidth fields hmem, ?_⟩
    rcases htexts with htext | htexts
    · have hdata' : fields ∈ dataFields bytes' := by
        rw [hdata]
        exact List.mem_append_right _ hmem
      rcases List.mem_map.1 hdata' with ⟨r, hr, rfl⟩
      exact isText_of_mem_records htext r (List.mem_of_mem_tail hr)
    · exact htexts fields hmem
  · intro cs n h
    exact Option.isSome_iff_exists.1 (Decimal.isSome_readBinary64_of_readInt64 h)
  · intro cs n h hrange
    exact ⟨Decimal.readInt64_eq_none_of_outOfRange h hrange,
      Option.isSome_iff_exists.1 (Decimal.isSome_readBinary64_of_readSigned h)⟩

/-- Two integers in the other order, and with a string after them. -/
theorem ofCsvBytes_of_swap_and_string :
    ∃ f g h : Frame, Frame.ofCsv "a\n1\n2\n" = .ok f ∧ Frame.ofCsv "a\n2\n1\n" = .ok g ∧
      Frame.ofCsv "a\n1\n2\nx\n" = .ok h ∧ g.rowCount = 2 ∧ h.rowCount = 3 := by
  have hwidth : ∀ r ∈ records (encode "a\n1\n2\n".toList), r.fields.length = 1 := by decide
  have htexts := @isText_of_mem_records (encode "a\n1\n2\n".toList) ⟨_, rfl⟩
  have hnames : HasNames (encode "a\n1\n2\n".toList) ["a"] := .cons ⟨['a'], rfl, rfl⟩ .nil
  rcases (readsExactly_ofCsvBytes (encode "a\n1\n2\n".toList)).accepted.2
    ⟨fun r hr => ⟨hwidth r hr, htexts r hr⟩, _, hnames, by decide⟩ with ⟨f, hf⟩
  rcases ofCsvBytes_of_otherRecords hf (by decide) with ⟨hswap, hmore, -⟩
  rcases hswap (Equiv.swap ⟨0, by decide⟩ ⟨1, by decide⟩) (encode "a\n2\n1\n".toList) (by decide)
    (by decide) with ⟨g, hg, hreordered⟩
  rcases hmore [[[120]]] (encode "a\n1\n2\nx\n".toList) (by decide) (by decide) (by decide)
    (.inl ⟨_, rfl⟩) with ⟨h, hh, hextended⟩
  refine ⟨f, g, h, hf, hg, hh, ?_, ?_⟩
  · rw [hreordered.rowCount.2]
    decide
  · rw [hextended.rowCount, hreordered.rowCount.1]
    decide

end Csv

end TableFixture
