import Mathlib.Data.String.Basic
import TableFixture.Json.Rows
import TableFixture.Proofs.Json.Decoding

/-!
# What a JSON text says of a frame

An object keeps its members in the order of their names, so it does not matter in which
order they were set.  As a text of records belongs to no other records, the JSON text of a
frame says exactly which cell stands under which name in which row, except that numbers
that are not finite are all alike.  It says nothing else: not the order of the columns, and
of a frame without rows not even their names.

Main results:

- Theorem `eq_of_mem_iff_of_sorted`: the members of an object in order are determined by
  which they are.
- Theorem `mem_rowMembers_iff`: the members of the object of a row.
- Theorem `ofCell_eq_iff`: which cells have the same value.
- Theorem `toJson_eq_iff`: which frames have the same text.
-/

namespace TableFixture

namespace Json

/-! ## Members in order -/

/-- The members of an object are in the order of their names, which are distinct. -/
def Sorted (object : Members) : Prop := object.Pairwise fun m n => m.1 < n.1

theorem mem_of_mem_setMember {m n : String × Scalar} {object : Members}
    (h : n ∈ setMember m object) : n = m ∨ n ∈ object := by
  induction object with
  | nil => exact .inl (List.mem_singleton.1 h)
  | cons k ks ih =>
      unfold setMember at h
      split at h
      · exact List.mem_cons.1 h
      · split at h
        · exact (List.mem_cons.1 h).imp_right (List.mem_cons_of_mem k)
        · rcases List.mem_cons.1 h with rfl | h
          · exact .inr List.mem_cons_self
          · exact (ih h).imp_right (List.mem_cons_of_mem k)

/-- Setting a member keeps the members in order. -/
theorem sorted_setMember (m : String × Scalar) {object : Members} (h : Sorted object) :
    Sorted (setMember m object) := by
  induction object with
  | nil => exact List.pairwise_singleton _ m
  | cons k ks ih =>
      rcases List.pairwise_cons.1 h with ⟨hk, hks⟩
      unfold setMember
      split
      next hlt =>
        refine List.pairwise_cons.2 ⟨fun n hn => ?_, h⟩
        rcases List.mem_cons.1 hn with rfl | hn
        · exact hlt
        · exact hlt.trans (hk n hn)
      next hle =>
        split
        next heq => exact List.pairwise_cons.2 ⟨fun n hn => heq ▸ hk n hn, hks⟩
        next hne =>
          refine List.pairwise_cons.2 ⟨fun n hn => ?_, ih hks⟩
          rcases mem_of_mem_setMember hn with rfl | hn
          · exact lt_of_le_of_ne (not_lt.1 hle) (Ne.symm hne)
          · exact hk n hn

theorem sorted_objectOf (members : List (String × Scalar)) : Sorted (objectOf members) := by
  have hall (object : Members) (h : Sorted object) :
      Sorted (members.foldl (fun object m => setMember m object) object) := by
    induction members generalizing object with
    | nil => exact h
    | cons m ms ih => exact ih _ (sorted_setMember m h)
  exact hall [] List.Pairwise.nil

/-- Members in order are determined by which they are. -/
theorem eq_of_mem_iff_of_sorted {object object' : Members} (h : Sorted object)
    (h' : Sorted object') (hmem : ∀ m, m ∈ object ↔ m ∈ object') : object = object' := by
  have hnodup {members : Members} (hsorted : Sorted members) : members.Nodup :=
    hsorted.imp fun hlt heq => absurd (congrArg Prod.fst heq) (ne_of_lt hlt)
  have hperm := (List.perm_ext_iff_of_nodup (hnodup h) (hnodup h')).2 hmem
  exact hperm.eq_of_pairwise (fun m n _ _ hlt hgt => absurd hlt (lt_asymm hgt)) h h'

/-! ## Values of cells -/

/-- Cells that have the same value: integers and strings that are equal, floats of the same
bits, and floats that are both not finite. -/
inductive SameValue : Cell → Cell → Prop where
  | int64 (n : Int64) : SameValue (.int64 n) (.int64 n)
  | string (s : String) : SameValue (.string s) (.string s)
  | float64 {x y : Binary64} : x.toBits = y.toBits → SameValue (.float64 x) (.float64 y)
  | notFinite {x y : Binary64} : x.isFinite = false → y.isFinite = false →
      SameValue (.float64 x) (.float64 y)

theorem SameValue.refl (c : Cell) : SameValue c c := by
  cases c with
  | int64 n => exact .int64 n
  | float64 x => exact .float64 rfl
  | string s => exact .string s

/-- The cells that have a given value. -/
def HasValue (c : Cell) : Scalar → Prop
  | .null => ∃ x, c = .float64 x ∧ x.isFinite = false
  | .integer n => c = .int64 n
  | .number x => c = .float64 x
  | .text s => c = .string s

theorem hasValue_ofCell (c : Cell) : HasValue c (Scalar.ofCell c) := by
  cases c with
  | int64 n => rfl
  | string s => rfl
  | float64 x =>
      rw [Scalar.ofCell]
      split
      next => rfl
      next hfinite => exact ⟨x, rfl, Bool.eq_false_iff.2 hfinite⟩

/-- Cells are written alike exactly if they have the same value. -/
theorem ofCell_eq_iff (c d : Cell) : Scalar.ofCell c = Scalar.ofCell d ↔ SameValue c d := by
  constructor
  · intro h
    have hc := hasValue_ofCell c
    have hd := hasValue_ofCell d
    rw [h] at hc
    cases hvalue : Scalar.ofCell d with
    | null =>
        rw [hvalue] at hc hd
        rcases hc with ⟨x, rfl, hx⟩
        rcases hd with ⟨y, rfl, hy⟩
        exact .notFinite hx hy
    | integer n =>
        rw [hvalue] at hc hd
        exact hc.trans hd.symm ▸ .refl c
    | number x =>
        rw [hvalue] at hc hd
        exact hc.trans hd.symm ▸ .refl c
    | text s =>
        rw [hvalue] at hc hd
        exact hc.trans hd.symm ▸ .refl c
  · intro h
    cases h with
    | int64 n => rfl
    | string s => rfl
    | @float64 x y hbits => rw [← Binary64.ofBits_toBits x, hbits, Binary64.ofBits_toBits]
    | notFinite hx hy => rw [ofCell_float64_of_not_isFinite hx, ofCell_float64_of_not_isFinite hy]

end Json

namespace Frame

/-! ## Objects of rows -/

/-- The cell under a name in a row, if there is one. -/
def cellAt? (f : Frame) (name : String) (row : Nat) : Option Cell :=
  (f.column? name).bind fun c => c.cells.cell? row

theorem cellAt?_eq_some_iff (f : Frame) (name : String) (row : Nat) (cell : Cell) :
    f.cellAt? name row = some cell ↔
      ∃ c ∈ f.columns, c.name = name ∧ c.cells.cell? row = some cell := by
  simp only [cellAt?, Option.bind_eq_some_iff, column?_eq_some_iff, and_assoc]

/-- Every column has a cell in every row, and the object of the row its value. -/
theorem exists_cell_of_mem_columns {f : Frame} {c : NamedColumn} (hc : c ∈ f.columns) {row : Nat}
    (hrow : row < f.rowCount) :
    ∃ cell, c.cells.cell? row = some cell ∧ scalarAt c row = Json.Scalar.ofCell cell := by
  have hsome : (c.cells.cell? row).isSome = true := by
    rw [Cells.cell?_isSome_iff]
    rw [← f.length_of_mem_columns hc] at hrow
    exact hrow
  rcases Option.isSome_iff_exists.1 hsome with ⟨cell, hcell⟩
  exact ⟨cell, hcell, by rw [scalarAt, hcell]; rfl⟩

/-- The members of the object of a row are the values of the columns under their names. -/
theorem mem_rowMembers_iff (f : Frame) (row : Nat) (m : String × Json.Scalar) :
    m ∈ f.rowMembers row ↔ ∃ c ∈ f.columns, (c.name, scalarAt c row) = m := by
  rw [(f.perm_rowMembers row).mem_iff, List.mem_map]

/-- The object of a row has the names of the frame, each once. -/
theorem perm_names_rowMembers (f : Frame) (row : Nat) :
    ((f.rowMembers row).map (·.1)).Perm f.names := by
  have hperm := (f.perm_rowMembers row).map (·.1)
  rwa [List.map_map] at hperm

theorem isWritten_of_mem_toRecords {f : Frame} :
    ∀ object ∈ f.toRecords, ∀ m ∈ object, m.2.IsWritten := by
  intro object hobject m hm
  rcases List.mem_map.1 hobject with ⟨row, hrow, rfl⟩
  rcases (f.mem_rowMembers_iff row m).1 hm with ⟨c, hc, rfl⟩
  rcases exists_cell_of_mem_columns hc (List.mem_range.1 hrow) with ⟨cell, -, hvalue⟩
  rw [hvalue]
  exact Json.isWritten_ofCell cell

/-- The text of a frame belongs to its records alone. -/
theorem toJson_eq_iff_toRecords (f g : Frame) :
    f.toJson = g.toJson ↔ f.toRecords = g.toRecords := by
  constructor
  · intro h
    exact Json.writeArray_inj isWritten_of_mem_toRecords isWritten_of_mem_toRecords
      (String.ofList_inj.1 h)
  · intro h
    rw [toJson, h, toJson]

/-- Frames have the same records exactly if they have as many rows and the same object for
each row. -/
theorem toRecords_eq_iff (f g : Frame) :
    f.toRecords = g.toRecords ↔
      f.rowCount = g.rowCount ∧ ∀ row < f.rowCount, f.rowMembers row = g.rowMembers row := by
  constructor
  · intro h
    have hrows : f.rowCount = g.rowCount := by
      rw [← length_toRecords, h, length_toRecords]
    refine ⟨hrows, ?_⟩
    rw [toRecords, toRecords, ← hrows, List.map_inj_left] at h
    exact fun row hrow => h row (List.mem_range.2 hrow)
  · rintro ⟨hrows, hmembers⟩
    rw [toRecords, toRecords, ← hrows, List.map_inj_left]
    exact fun row hrow => hmembers row (List.mem_range.1 hrow)

/-- Frames of the same names that have the same values under them. -/
def SameCells (f g : Frame) : Prop :=
  (∀ name, name ∈ f.names ↔ name ∈ g.names) ∧
    ∀ name ∈ f.names, ∀ row < f.rowCount, ∃ c d, f.cellAt? name row = some c ∧
      g.cellAt? name row = some d ∧ Json.SameValue c d

section SameRows

variable {f g : Frame} (hrows : f.rowCount = g.rowCount)
include hrows

theorem sameCells_of_rowMembers (hpos : 0 < f.rowCount)
    (h : ∀ row < f.rowCount, f.rowMembers row = g.rowMembers row) : SameCells f g := by
  refine ⟨fun name => ?_, fun name hname row hrow => ?_⟩
  · rw [← (f.perm_names_rowMembers 0).mem_iff, h 0 hpos, (g.perm_names_rowMembers 0).mem_iff]
  · rcases List.mem_map.1 hname with ⟨c, hc, rfl⟩
    have hmember := (f.mem_rowMembers_iff row _).2 ⟨c, hc, rfl⟩
    rw [h row hrow] at hmember
    rcases (g.mem_rowMembers_iff row _).1 hmember with ⟨d, hd, heq⟩
    obtain ⟨hnames, hvalues⟩ := Prod.mk.inj heq
    rcases exists_cell_of_mem_columns hc hrow with ⟨cell, hcell, hvalue⟩
    rcases exists_cell_of_mem_columns hd (hrows ▸ hrow) with ⟨cell', hcell', hvalue'⟩
    refine ⟨cell, cell', ?_, ?_, ?_⟩
    · exact (f.cellAt?_eq_some_iff _ row cell).2 ⟨c, hc, rfl, hcell⟩
    · exact (g.cellAt?_eq_some_iff _ row cell').2 ⟨d, hd, hnames, hcell'⟩
    · rw [← Json.ofCell_eq_iff, ← hvalue, ← hvalue', hvalues]

/-- Under the same names stand values that are written alike. -/
theorem scalarAt_of_sameCells (h : SameCells f g) {row : Nat} (hrow : row < f.rowCount)
    {c d : NamedColumn} (hc : c ∈ f.columns) (hd : d ∈ g.columns) (hname : c.name = d.name) :
    scalarAt c row = scalarAt d row := by
  rcases exists_cell_of_mem_columns hc hrow with ⟨cell, hcell, hvalue⟩
  rcases exists_cell_of_mem_columns hd (hrows ▸ hrow) with ⟨cell', hcell', hvalue'⟩
  rcases h.2 c.name (List.mem_map_of_mem hc) row hrow with ⟨a, b, ha, hb, hsame⟩
  have hcellAt := (f.cellAt?_eq_some_iff c.name row cell).2 ⟨c, hc, rfl, hcell⟩
  have hcellAt' := (g.cellAt?_eq_some_iff c.name row cell').2 ⟨d, hd, hname.symm, hcell'⟩
  rw [ha] at hcellAt
  rw [hb] at hcellAt'
  obtain rfl := Option.some.inj hcellAt
  obtain rfl := Option.some.inj hcellAt'
  rw [hvalue, hvalue', (Json.ofCell_eq_iff _ _).2 hsame]

theorem rowMembers_of_sameCells (h : SameCells f g) {row : Nat} (hrow : row < f.rowCount) :
    f.rowMembers row = g.rowMembers row := by
  apply Json.eq_of_mem_iff_of_sorted (Json.sorted_objectOf _) (Json.sorted_objectOf _)
  intro m
  change m ∈ f.rowMembers row ↔ m ∈ g.rowMembers row
  rw [mem_rowMembers_iff, mem_rowMembers_iff]
  constructor
  · rintro ⟨c, hc, rfl⟩
    rcases List.mem_map.1 ((h.1 c.name).1 (List.mem_map_of_mem hc)) with ⟨d, hd, hname⟩
    refine ⟨d, hd, ?_⟩
    rw [scalarAt_of_sameCells hrows h hrow hc hd hname.symm, hname]
  · rintro ⟨d, hd, rfl⟩
    rcases List.mem_map.1 ((h.1 d.name).2 (List.mem_map_of_mem hd)) with ⟨c, hc, hname⟩
    refine ⟨c, hc, ?_⟩
    rw [scalarAt_of_sameCells hrows h hrow hc hd hname, hname]

end SameRows

/-- Frames of the same columns have the same number of rows and the same cells. -/
theorem sameCells_of_perm {f g : Frame} (h : f.columns.Perm g.columns) :
    f.rowCount = g.rowCount ∧ SameCells f g := by
  have hrows : f.rowCount = g.rowCount := by
    cases hcolumns : f.columns with
    | nil =>
        rw [hcolumns] at h
        rw [rowCount, rowCount, hcolumns, h.nil_eq]
    | cons c cs =>
        have hc : c ∈ f.columns := hcolumns ▸ List.mem_cons_self
        rw [← f.length_of_mem_columns hc, ← g.length_of_mem_columns (h.mem_iff.1 hc)]
  refine ⟨hrows, fun name => (h.map (·.name)).mem_iff, fun name hname row hrow => ?_⟩
  rcases List.mem_map.1 hname with ⟨c, hc, rfl⟩
  rcases exists_cell_of_mem_columns hc hrow with ⟨cell, hcell, -⟩
  refine ⟨cell, cell, ?_, ?_, .refl cell⟩
  · exact (f.cellAt?_eq_some_iff _ row cell).2 ⟨c, hc, rfl, hcell⟩
  · exact (g.cellAt?_eq_some_iff _ row cell).2 ⟨c, h.mem_iff.1 hc, rfl, hcell⟩

/-- Frames have the same text exactly if they have as many rows and, unless there are none,
the same values under the same names.  So the text does not depend on the order of the
columns, each object has one member for each column, and the text of a frame belongs to no
other objects. -/
theorem toJson_eq_iff (f g : Frame) :
    (f.toJson = g.toJson ↔ f.rowCount = g.rowCount ∧ (f.rowCount = 0 ∨ SameCells f g)) ∧
    (f.columns.Perm g.columns → f.toJson = g.toJson) ∧
    (∀ row, ((f.rowMembers row).map (·.1)).Perm f.names ∧
      ((f.rowMembers row).map (·.1)).Nodup) ∧
    (f.toJson = g.toJson → f.toRecords = g.toRecords) := by
  have hiff : f.toJson = g.toJson ↔
      f.rowCount = g.rowCount ∧ (f.rowCount = 0 ∨ SameCells f g) := by
    rw [toJson_eq_iff_toRecords, toRecords_eq_iff]
    apply and_congr_right
    intro hrows
    constructor
    · intro hmembers
      rcases Nat.eq_zero_or_pos f.rowCount with hzero | hpos
      · exact .inl hzero
      · exact .inr (sameCells_of_rowMembers hrows hpos hmembers)
    · rintro (hzero | hsame) row hrow
      · omega
      · exact rowMembers_of_sameCells hrows hsame hrow
  refine ⟨hiff, fun hperm => ?_, fun row => ?_, (toJson_eq_iff_toRecords f g).1⟩
  · rcases sameCells_of_perm hperm with ⟨hrows, hsame⟩
    exact hiff.2 ⟨hrows, .inr hsame⟩
  · have hnames := f.perm_names_rowMembers row
    exact ⟨hnames, hnames.nodup_iff.2 f.distinct⟩

end Frame

end TableFixture
