import TableFixture.Decimal.Layout
import TableFixture.Error

/-!
# Columns

A column is a list of cells of one type and, perhaps, a name.  Integers have 64
bits and floats are binary64 numbers.  A cell has one text, the one written into a
table.

Main results:

- Theorem `Cells.cell?_isSome_iff`: a column has a cell in exactly the rows below its length.
- Theorem `Column.get_eq_error_iff`: asking for a cell fails exactly outside the column.
- Theorem `Cells.same_refl_iff`: cells equal themselves unless one is not a number.
-/

namespace TableFixture

/-! ## Cells -/

/-- One cell of a table. -/
inductive Cell where
  | int64 (value : Int64)
  | float64 (value : Binary64)
  | string (value : String)
deriving DecidableEq, Repr

/-- The text of a cell in a table. -/
def Cell.text : Cell → String
  | .int64 n => String.ofList (Decimal.writeInteger n.toInt)
  | .float64 x => String.ofList (Decimal.Layout.cell.write x)
  | .string s => s

/-- The cells of a column, all of one type. -/
inductive Cells where
  | int64 (values : List Int64)
  | float64 (values : List Binary64)
  | string (values : List String)
deriving DecidableEq, Repr

namespace Cells

/-- The type of the cells. -/
def type : Cells → ColumnType
  | .int64 _ => .int64
  | .float64 _ => .float64
  | .string _ => .string

/-- The cells from the first row to the last. -/
def toList : Cells → List Cell
  | .int64 vs => vs.map .int64
  | .float64 vs => vs.map .float64
  | .string vs => vs.map .string

/-- The number of rows. -/
def length : Cells → Nat
  | .int64 vs => vs.length
  | .float64 vs => vs.length
  | .string vs => vs.length

/-- The cell in the given row, if there is one. -/
def cell? : Cells → Nat → Option Cell
  | .int64 vs, row => vs[row]?.map .int64
  | .float64 vs, row => vs[row]?.map .float64
  | .string vs, row => vs[row]?.map .string

/-- Equality of cells as values: floats are compared as numbers, so the two zeros are
equal and what is not a number equals nothing. -/
def same : Cells → Cells → Bool
  | .int64 vs, .int64 ws => vs == ws
  | .float64 vs, .float64 ws => vs.isEqv ws Binary64.same
  | .string vs, .string ws => vs == ws
  | _, _ => false

@[simp] theorem length_toList (cs : Cells) : cs.toList.length = cs.length := by
  cases cs <;> simp [toList, length]

/-- The cell in a row is that of the list of cells. -/
theorem cell?_eq_getElem? (cs : Cells) (row : Nat) : cs.cell? row = cs.toList[row]? := by
  cases cs <;> simp [cell?, toList]

/-- A column has a cell in exactly the rows below its length. -/
theorem cell?_isSome_iff (cs : Cells) (row : Nat) :
    (cs.cell? row).isSome = true ↔ row < cs.length := by
  cases cs <;> simp [cell?, length]

/-- Cells equal themselves unless one of them is not a number. -/
theorem same_refl_iff (cs : Cells) :
    cs.same cs = true ↔ ∀ x, Cell.float64 x ∈ cs.toList → x.isNaN = false := by
  cases cs with
  | int64 vs => simp [same, toList]
  | float64 vs =>
    have hself : vs.isEqv vs Binary64.same = true ↔ ∀ x ∈ vs, x.same x = true := by
      induction vs with
      | nil => simp
      | cons v vs ih => simp [List.isEqv, ih]
    simp [same, toList, hself, Binary64.same_self]
  | string vs => simp [same, toList]

end Cells

/-! ## Columns -/

/-- Cells with a name, if they have been given one. -/
structure Column where
  name : Option String
  cells : Cells
deriving DecidableEq, Repr

namespace Column

/-- The cells as a column without a name. -/
def unnamed (cells : Cells) : Column := ⟨none, cells⟩

/-- The cells as a column of the given name. -/
def named (name : String) (cells : Cells) : Column := ⟨some name, cells⟩

/-- The column under another name. -/
def rename (c : Column) (name : String) : Column := { c with name := some name }

/-- The number of rows. -/
def length (c : Column) : Nat := c.cells.length

/-- Whether the column has no rows. -/
def isEmpty (c : Column) : Bool := c.length == 0

/-- The type of the cells. -/
def type (c : Column) : ColumnType := c.cells.type

/-- The cell in the given row. -/
def get (c : Column) (row : Nat) : Except Error Cell :=
  match c.cells.cell? row with
  | some cell => .ok cell
  | none => .error (.indexOutOfBounds row c.length)

/-- Asking for a cell fails exactly outside the column, and names row and length. -/
theorem get_eq_error_iff (c : Column) (row : Nat) (e : Error) :
    c.get row = .error e ↔ c.length ≤ row ∧ e = .indexOutOfBounds row c.length := by
  have hsome := c.cells.cell?_isSome_iff row
  unfold get length
  cases h : c.cells.cell? row with
  | none =>
    simp only [h, Option.isSome_none, Bool.false_eq_true, false_iff, Nat.not_lt] at hsome
    simp [hsome, eq_comm]
  | some cell =>
    simp only [h, Option.isSome_some, true_iff] at hsome
    simp [Nat.not_le.2 hsome]

end Column

end TableFixture
