import TableFixture.Column

/-!
# Frames

A frame is an ordered set of columns that all have a name of their own and the same
number of rows.  Columns are added one at a time at the end; a column that would
break the invariant is refused with its first fault, in the order no name, a name
already taken, a wrong number of rows.

Main results:

- Theorem `add_eq_ok_iff`: a column is accepted exactly if it has no fault, and is then
  the last column.
- Theorem `column?_eq_some_iff`: looking up a name finds the one column of that name.
- Theorem `length_of_mem_columns`: every column has as many rows as the frame.
-/

namespace TableFixture

/-- Cells under a name. -/
structure NamedColumn where
  name : String
  cells : Cells
deriving DecidableEq, Repr

/-- The number of rows. -/
def NamedColumn.length (c : NamedColumn) : Nat := c.cells.length

/-- The column as one that happens to have a name. -/
def NamedColumn.toColumn (c : NamedColumn) : Column := .named c.name c.cells

/-- Equality of columns as values. -/
def NamedColumn.same (c d : NamedColumn) : Bool := c.name == d.name && c.cells.same d.cells

/-- Columns with distinct names and equal numbers of rows, in order. -/
structure Frame where
  columns : List NamedColumn
  distinct : (columns.map (·.name)).Nodup
  level : ∀ c ∈ columns, ∀ d ∈ columns, c.length = d.length
deriving DecidableEq

namespace Frame

/-! ## Views -/

/-- The frame without columns. -/
def empty : Frame := ⟨[], by simp, by simp⟩

/-- The names of the columns, in order. -/
def names (f : Frame) : List String := f.columns.map (·.name)

/-- The number of columns. -/
def columnCount (f : Frame) : Nat := f.columns.length

/-- The number of rows, zero for a frame without columns. -/
def rowCount (f : Frame) : Nat := (f.columns.head?.map (·.length)).getD 0

/-- Every column has as many rows as the frame. -/
theorem length_of_mem_columns (f : Frame) {c : NamedColumn} (h : c ∈ f.columns) :
    c.length = f.rowCount := by
  unfold rowCount
  cases hc : f.columns with
  | nil => simp [hc] at h
  | cons d ds =>
    exact f.level c h d (by simp [hc])

/-- Equality of frames as values: the same names in the same order over equal cells. -/
def same (f g : Frame) : Bool := f.columns.isEqv g.columns NamedColumn.same

/-! ## Adding columns -/

/-- What is wrong with adding a column: its first fault. -/
def fault? (f : Frame) (c : Column) : Option Error :=
  match c.name with
  | none => some .unnamedColumn
  | some name =>
    if name ∈ f.names then some (.duplicateColumnName name)
    else if f.columns ≠ [] ∧ f.rowCount ≠ c.length then
      some (.inconsistentRowCount f.rowCount c.length)
    else none

/-- The frame with one more column at the end, or the fault of that column. -/
def add (f : Frame) (c : Column) : Except Error Frame :=
  match c.name with
  | none => .error .unnamedColumn
  | some name =>
    if hname : name ∈ f.names then .error (.duplicateColumnName name)
    else if hrows : f.columns ≠ [] ∧ f.rowCount ≠ c.length then
      .error (.inconsistentRowCount f.rowCount c.length)
    else .ok {
      columns := f.columns ++ [⟨name, c.cells⟩]
      distinct := by
        rw [List.map_append, List.nodup_append]
        refine ⟨f.distinct, by simp, ?_⟩
        rintro a ha b hb rfl
        simp only [List.map_cons, List.map_nil, List.mem_singleton] at hb
        exact hname (hb ▸ ha)
      level := by
        have hlast : ∀ d ∈ f.columns, d.length = c.length := fun d hd => by
          rw [f.length_of_mem_columns hd]
          exact Classical.byContradiction fun h => hrows ⟨List.ne_nil_of_mem hd, h⟩
        intro d hd e he
        rw [List.mem_append, List.mem_singleton] at hd he
        rcases hd with hd | rfl <;> rcases he with he | rfl
        · exact f.level d hd e he
        · exact hlast d hd
        · exact (hlast e he).symm
        · rfl }

/-- A frame refuses a column exactly for its first fault. -/
theorem add_eq_error_iff (f : Frame) (c : Column) (e : Error) :
    f.add c = .error e ↔ f.fault? c = some e := by
  unfold add fault?
  cases c.name with
  | none => simp
  | some name =>
    simp only
    split
    · simp
    · split <;> simp

/-- A column is accepted exactly if it has no fault, and is then the last column. -/
theorem add_eq_ok_iff (f g : Frame) (c : Column) :
    f.add c = .ok g ↔
      f.fault? c = none ∧ ∃ name, c.name = some name ∧ g.columns = f.columns ++ [⟨name, c.cells⟩] := by
  unfold add fault?
  cases c.name with
  | none => simp
  | some name =>
    simp only
    split
    · simp
    · split
      · simp
      · obtain ⟨columns, hd, hl⟩ := g
        simp [eq_comm]

/-- The frame of the given columns in order, or the fault of the first that has one. -/
def ofColumns (cs : List Column) : Except Error Frame := cs.foldlM add empty

/-! ## Looking up columns -/

/-- The column of the given name. -/
def column? (f : Frame) (name : String) : Option NamedColumn :=
  f.columns.find? fun c => c.name == name

/-- Looking up a name finds the one column of that name. -/
theorem column?_eq_some_iff (f : Frame) (name : String) (c : NamedColumn) :
    f.column? name = some c ↔ c ∈ f.columns ∧ c.name = name := by
  obtain ⟨columns, hdistinct, hlevel⟩ := f
  change columns.find? (fun c => c.name == name) = some c ↔ c ∈ columns ∧ c.name = name
  clear hlevel
  induction columns with
  | nil => simp
  | cons d ds ih =>
    rw [List.map_cons, List.nodup_cons] at hdistinct
    by_cases h : d.name = name
    · rw [List.find?_cons_of_pos (by simpa using h)]
      constructor
      · rintro hc
        obtain rfl := Option.some.inj hc
        exact ⟨List.mem_cons_self, h⟩
      · rintro ⟨hc, hname⟩
        rcases List.mem_cons.1 hc with rfl | hc
        · rfl
        · exact absurd (List.mem_map.2 ⟨c, hc, hname.trans h.symm⟩) hdistinct.1
    · rw [List.find?_cons_of_neg (by simpa using h), ih hdistinct.2]
      constructor
      · exact fun ⟨hc, hname⟩ => ⟨List.mem_cons_of_mem d hc, hname⟩
      · rintro ⟨hc, hname⟩
        rcases List.mem_cons.1 hc with rfl | hc
        · exact absurd hname h
        · exact ⟨hc, hname⟩

/-- The column of the given name, or that there is none. -/
def require (f : Frame) (name : String) : Except Error NamedColumn :=
  match f.column? name with
  | some c => .ok c
  | none => .error (.columnNotFound name)

/-- The integers of the column of the given name. -/
def int64Values (f : Frame) (name : String) : Except Error (List Int64) := do
  match (← f.require name).cells with
  | .int64 vs => .ok vs
  | other => .error (.columnTypeMismatch name .int64 other.type)

/-- The floats of the column of the given name. -/
def float64Values (f : Frame) (name : String) : Except Error (List Binary64) := do
  match (← f.require name).cells with
  | .float64 vs => .ok vs
  | other => .error (.columnTypeMismatch name .float64 other.type)

/-- The strings of the column of the given name. -/
def stringValues (f : Frame) (name : String) : Except Error (List String) := do
  match (← f.require name).cells with
  | .string vs => .ok vs
  | other => .error (.columnTypeMismatch name .string other.type)

/-! ## Rows -/

/-- The texts of the cells in the given row, in the order of the columns. -/
def rowTexts (f : Frame) (row : Nat) : List String :=
  f.columns.map fun c => ((c.cells.cell? row).map Cell.text).getD ""

/-- The texts of all cells, row by row. -/
def texts (f : Frame) : List (List String) := (List.range f.rowCount).map f.rowTexts

@[simp] theorem length_texts (f : Frame) : f.texts.length = f.rowCount := by simp [texts]

/-- Every row has a text for each column. -/
theorem length_of_mem_texts (f : Frame) {row : List String} (h : row ∈ f.texts) :
    row.length = f.columnCount := by
  obtain ⟨i, _, rfl⟩ := List.mem_map.1 h
  simp [rowTexts, columnCount]

end Frame

end TableFixture
