import TableFixture.Proofs.Csv.NormalForm
import TableFixture.Proofs.Decimal.Form
import TableFixture.Proofs.Decimal.Nearest
import TableFixture.Rendering

/-!
# Floats in tables

The text of a float in a table is the only one that the rules of cells allow.  It needs neither
quotes nor trimming, is never taken for an integer, and is read back to the same bits; what is
not a number is read back as what is not a number.  So a column of floats with rows is inferred
to be one again.

Main results:

- Theorem `floatText_text`: what holds of the text of a float.
- Theorem `floatTexts_and_alike_inferCells`: the texts of a column of floats, one by one and
  inferred together.
-/

namespace TableFixture

namespace Csv

open Decimal (CellForm IsNearest decimalOf? readInt64 readBinary64)

/-! ## One float -/

/-- No character of a number has a meaning of its own in a table. -/
theorem isSpecial_of_isNumeral {c : Char} (h : Decimal.isNumeral c = true) :
    isSpecial c = false := by
  cases hspecial : isSpecial c with
  | false => rfl
  | true =>
      simp only [isSpecial, Bool.or_eq_true, beq_iff_eq] at hspecial
      rcases hspecial with ((rfl | rfl) | rfl) | rfl <;> exact absurd h (by decide)

/-- What a table promises of the text that it holds for a float. -/
structure FloatText (x : Binary64) (text : String) : Prop where
  /-- The text has the shortest digits, in their places or with a power of ten. -/
  form : CellForm x text.toList
  /-- The text of a finite number is a decimal to which no number is nearer. -/
  nearest : x.isFinite = true →
    ∃ d, decimalOf? text.toList = some (x.negative, d) ∧ IsNearest d x.code
  /-- The text needs no quotes and has nothing that could be trimmed. -/
  unquoted : ∀ c ∈ text.toList, Text.isBlank c = false ∧ isSpecial c = false
  not_int64 : readInt64 text.toList = none
  bits : x.isNaN = false → (readBinary64 text.toList).map Binary64.toBits = some x.toBits
  nan : x.isNaN = true → ∃ y, readBinary64 text.toList = some y ∧ y.isNaN = true

/-- Every float has such a text. -/
theorem floatText_text (x : Binary64) : FloatText x (Cell.float64 x).text := by
  have htext : (Cell.float64 x).text.toList = Decimal.Layout.cell.write x := String.toList_ofList
  have hread := Decimal.readBinary64_write Decimal.Layout.cell x
  constructor
  · rw [htext]
    exact (Decimal.cellForm_iff x _).2 rfl
  · intro hfinite
    rw [htext]
    rcases Decimal.exists_decimalOf?_write Decimal.Layout.cell hfinite with ⟨d, hdecimal⟩
    rcases Decimal.readBinary64_of_decimalOf? hdecimal with ⟨y, hy, -, hnearest⟩
    obtain rfl : x = y := by
      rw [Decimal.readBinary64_write_of_isFinite _ hfinite] at hy
      exact Option.some.inj hy
    exact ⟨d, hdecimal, hnearest hfinite⟩
  · rw [htext]
    intro c hc
    have hnumeral := Decimal.isNumeral_of_mem_write hc
    exact ⟨Decimal.isBlank_of_isNumeral hnumeral, isSpecial_of_isNumeral hnumeral⟩
  · rw [htext]
    exact Decimal.readInt64_write rfl x
  · intro hnumber
    rw [htext, hread, hnumber]
    rfl
  · intro hnan
    rw [htext, hread, if_pos hnan]
    exact ⟨_, rfl, by decide⟩

/-! ## Columns of floats -/

/-- The texts of the rows of a column of floats. -/
theorem text?_float64 (name : Option String) (vs : List Binary64) (row : Nat) :
    (⟨name, .float64 vs⟩ : Column).text? row
      = (vs.map fun x => (Cell.float64 x).text)[row]? := by
  rw [Column.text?, Cells.cell?, Option.map_map, List.getElem?_map]
  rfl

/-- Every row of a column of floats has the text that a table promises, and the texts of a
column with rows are inferred to be the same floats. -/
theorem floatTexts_and_alike_inferCells (name : Option String) (vs : List Binary64) :
    (∀ row x, vs[row]? = some x →
      ∃ text, (⟨name, .float64 vs⟩ : Column).text? row = some text ∧ FloatText x text) ∧
    ∀ texts : List String, vs ≠ [] →
      (∀ row, texts[row]? = (⟨name, .float64 vs⟩ : Column).text? row) →
        Alike (inferCells texts) (.float64 vs) := by
  constructor
  · intro row x hx
    refine ⟨(Cell.float64 x).text, ?_, floatText_text x⟩
    rw [text?_float64, List.getElem?_map, hx, Option.map_some]
  · intro texts hne htexts
    have heq : texts = vs.map fun x => (Cell.float64 x).text :=
      List.ext_getElem? fun row => by rw [htexts row, text?_float64]
    rw [heq, inferCells_text_float64 hne]
    exact alike_oneNaN vs

/-- The smallest positive number, minus zero, the first number with a power of ten and what is
not a number, in one column. -/
theorem floatTexts_edges :
    let vs : List Binary64 := [.ofBits 1, .ofBits 0x8000000000000000, .ofBits 0x4341c37937e08000,
      .ofBits 0xfff8000000000000]
    let texts := ["5e-324", "-0.0", "1e16", "NaN"]
    vs ≠ [] ∧ vs[2]? = some (.ofBits 0x4341c37937e08000) ∧
    (∀ row, texts[row]? = (⟨none, .float64 vs⟩ : Column).text? row) ∧
    FloatText (.ofBits 0x4341c37937e08000) "1e16" ∧ Alike (inferCells texts) (.float64 vs) := by
  intro vs texts
  have htexts : ∀ row, texts[row]? = (⟨none, .float64 vs⟩ : Column).text? row := by
    have heq : texts = vs.map fun x => (Cell.float64 x).text := by decide +kernel
    intro row
    rw [text?_float64, heq]
  have hcolumn := floatTexts_and_alike_inferCells none vs
  rcases hcolumn.1 2 (.ofBits 0x4341c37937e08000) rfl with ⟨text, htext, hfloat⟩
  obtain rfl : "1e16" = text := Option.some.inj ((htexts 2).trans htext)
  exact ⟨by simp [vs], rfl, htexts, hfloat, hcolumn.2 texts (by simp [vs]) htexts⟩

end Csv

end TableFixture
