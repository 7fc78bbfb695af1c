import TableFixture.Frame

/-!
# Building tables column by column

A shape is a list of named columns.  It can be given to anything that takes columns
one at a time and finishes with a table; the frame of this library is one such
builder.  Building stops at the first refusal and hands it back unchanged.

Main results:

- Theorem `build_cons_error`: a refusal ends the building.
- Theorem `column_frameBuilder`: the frame builder takes what a frame accepts, and a
  refused column leaves it as it was.
-/

namespace TableFixture

/-- Something that takes named columns one at a time in a state of type `σ` and finishes
with a table of type `τ`. -/
structure ColumnSetBuilder (σ τ : Type) where
  /-- Takes one column. -/
  column : NamedColumn → σ → Except Error Unit × σ
  /-- Finishes the table. -/
  finish : σ → Except Error τ × σ

namespace ColumnSetBuilder

variable {σ τ : Type}

/-- Gives the columns of a shape to a builder in order and finishes, stopping at the
first refusal. -/
def build (b : ColumnSetBuilder σ τ) : List NamedColumn → σ → Except Error τ × σ
  | [], s => b.finish s
  | c :: shape, s =>
    match b.column c s with
    | (.ok (), s') => b.build shape s'
    | (.error e, s') => (.error e, s')

/-- A shape without columns is finished at once. -/
@[simp] theorem build_nil (b : ColumnSetBuilder σ τ) (s : σ) : b.build [] s = b.finish s := rfl

/-- An accepted column is followed by the rest of the shape. -/
theorem build_cons_ok {b : ColumnSetBuilder σ τ} {c : NamedColumn} {s s' : σ}
    (h : b.column c s = (.ok (), s')) (shape : List NamedColumn) :
    b.build (c :: shape) s = b.build shape s' := by
  simp [build, h]

/-- A refusal ends the building and is handed back unchanged. -/
theorem build_cons_error {b : ColumnSetBuilder σ τ} {c : NamedColumn} {s s' : σ} {e : Error}
    (h : b.column c s = (.error e, s')) (shape : List NamedColumn) :
    b.build (c :: shape) s = (.error e, s') := by
  simp [build, h]

end ColumnSetBuilder

/-- The builder of frames: its state is the frame so far. -/
def frameBuilder : ColumnSetBuilder Frame Frame where
  column c f :=
    match f.add c.toColumn with
    | .ok g => (.ok (), g)
    | .error e => (.error e, f)
  finish f := (.ok f, f)

/-- The frame builder takes what a frame accepts, and a refused column leaves it as it was. -/
theorem column_frameBuilder (c : NamedColumn) (f : Frame) :
    frameBuilder.column c f
      = match f.add c.toColumn with
        | .ok g => (.ok (), g)
        | .error e => (.error e, f) := rfl

@[simp] theorem finish_frameBuilder (f : Frame) : frameBuilder.finish f = (.ok f, f) := rfl

end TableFixture
