import TableFixture.Column

/-!
# Column types from texts

The type of a column read from a table is the narrowest that every text of it has:
integers, then floats, then strings.  A column without texts is a column of strings.

Main results:

- Theorem `readAll_eq_some_iff`: all texts are read exactly if there is one and each is read.
- Theorem `length_inferCells`: no text is lost.
-/

namespace TableFixture.Csv

/-- The values of the texts, if there is at least one text and each has a value. -/
def readAll {α : Type} (read : List Char → Option α) (texts : List String) : Option (List α) :=
  if texts.isEmpty then none else texts.mapM fun t => read t.toList

/-- The texts as cells of the narrowest type that every one of them has. -/
def inferCells (texts : List String) : Cells :=
  match readAll Decimal.readInt64 texts with
  | some ns => .int64 ns
  | none =>
    match readAll Decimal.readBinary64 texts with
    | some xs => .float64 xs
    | none => .string texts

/-- All texts are read exactly if there is at least one and each is read. -/
theorem readAll_eq_some_iff {α : Type} (read : List Char → Option α) (texts : List String)
    (vs : List α) :
    readAll read texts = some vs ↔
      texts ≠ [] ∧ texts.map (fun t => read t.toList) = vs.map some := by
  unfold readAll
  split
  next h => simp_all
  next h =>
    have hne : texts ≠ [] := by simpa using h
    simp only [hne, ne_eq, not_false_eq_true, true_and]
    clear h hne
    induction texts generalizing vs with
    | nil => cases vs <;> simp
    | cons t texts ih =>
      rw [List.mapM_cons]
      cases hread : read t.toList with
      | none => cases vs <;> simp [hread]
      | some v =>
        cases vs with
        | nil => cases h : texts.mapM (fun t => read t.toList) <;> simp
        | cons w ws =>
          have := ih ws
          cases h : texts.mapM (fun t => read t.toList) <;> simp_all

/-- No text is lost. -/
@[simp] theorem length_inferCells (texts : List String) :
    (inferCells texts).length = texts.length := by
  have hlength {α : Type} {read : List Char → Option α} {vs : List α}
      (h : readAll read texts = some vs) : vs.length = texts.length := by
    have := congrArg List.length ((readAll_eq_some_iff read texts vs).1 h).2
    simpa using this.symm
  unfold inferCells
  split
  next h => exact hlength h
  next =>
    split
    next h => exact hlength h
    next => rfl

end TableFixture.Csv
