import Mathlib.Tactic.ByContra
import TableFixture.Csv.Inference
import TableFixture.Proofs.Decimal.Numeral

/-!
# Types of written columns

The texts of a column decide its type: they are strings exactly if there are none or one of
them is no number.  Written integers and floats are neither trimmed nor taken for another
type, so a column of numbers that has rows is inferred again from its texts.

Main results:

- Theorem `narrowest_inferCells`: inference yields cells of the narrowest type.
- Theorem `inferCells_eq_string_iff`: which texts are a column of strings.
- Theorems `reread_int64` and `reread_float64`: columns of numbers are inferred again.
- Theorem `type_reread`: columns of numbers keep their type.
-/

namespace TableFixture.Csv

open Decimal (readInt64 readBinary64)

/-! ## Which texts are read -/

theorem exists_map_some {α β : Type} {f : α → Option β} {xs : List α}
    (h : ∀ x ∈ xs, f x ≠ none) : ∃ ys : List β, xs.map f = ys.map some := by
  induction xs with
  | nil => exact ⟨[], rfl⟩
  | cons x xs ih =>
      rcases ih fun y hy => h y (List.mem_cons_of_mem x hy) with ⟨ys, hys⟩
      rcases Option.ne_none_iff_exists'.1 (h x List.mem_cons_self) with ⟨y, hy⟩
      exact ⟨y :: ys, by rw [List.map_cons, List.map_cons, hy, hys]⟩

/-- Some text is not read exactly if there is none or one has no value. -/
theorem readAll_eq_none_iff {α : Type} (read : List Char → Option α) (texts : List String) :
    readAll read texts = none ↔ texts = [] ∨ ∃ t ∈ texts, read t.toList = none := by
  constructor
  · intro h
    by_contra hall
    simp only [not_or, not_exists, not_and] at hall
    rcases exists_map_some hall.2 with ⟨vs, hvs⟩
    have hsome := (readAll_eq_some_iff read texts vs).2 ⟨hall.1, hvs⟩
    rw [h] at hsome
    exact absurd hsome (by simp)
  · intro h
    cases hall : readAll read texts with
    | none => rfl
    | some vs =>
        rcases (readAll_eq_some_iff read texts vs).1 hall with ⟨hne, hread⟩
        rcases h with h | ⟨t, ht, hnone⟩
        · exact absurd h hne
        · have hmem : none ∈ vs.map some := by
            rw [← hread]
            exact List.mem_map.2 ⟨t, ht, hnone⟩
          exact absurd hmem (by simp)

/-- Texts that are no numbers are no integers. -/
theorem readAll_int64_of_binary64 {texts : List String}
    (h : readAll readBinary64 texts = none) : readAll readInt64 texts = none := by
  rw [readAll_eq_none_iff] at h ⊢
  rcases h with h | ⟨t, ht, hnone⟩
  · exact .inl h
  · refine .inr ⟨t, ht, ?_⟩
    cases hread : readInt64 t.toList with
    | none => rfl
    | some n =>
        have hsome := Decimal.isSome_readBinary64_of_readInt64 hread
        rw [hnone] at hsome
        exact absurd hsome (by simp)

/-! ## Inferred cells -/

theorem inferCells_eq_int64 {texts : List String} {vs : List Int64}
    (h : readAll readInt64 texts = some vs) : inferCells texts = .int64 vs := by
  simp only [inferCells, h]

theorem inferCells_eq_float64 {texts : List String} {vs : List Binary64}
    (hint : readAll readInt64 texts = none) (h : readAll readBinary64 texts = some vs) :
    inferCells texts = .float64 vs := by
  simp only [inferCells, hint, h]

/-- The cells of texts in the narrowest type that all of them have: integers, else floats,
else strings.  Texts that are none are strings. -/
inductive Narrowest (texts : List String) : Cells → Prop where
  | int64 {vs : List Int64} : texts ≠ [] →
      texts.map (fun t => readInt64 t.toList) = vs.map some → Narrowest texts (.int64 vs)
  | float64 {vs : List Binary64} : (∃ t ∈ texts, readInt64 t.toList = none) →
      texts.map (fun t => readBinary64 t.toList) = vs.map some → Narrowest texts (.float64 vs)
  | string : (texts ≠ [] → (∃ t ∈ texts, readInt64 t.toList = none) ∧
      ∃ t ∈ texts, readBinary64 t.toList = none) → Narrowest texts (.string texts)

/-- Inference yields cells of the narrowest type. -/
theorem narrowest_inferCells (texts : List String) : Narrowest texts (inferCells texts) := by
  cases hint : readAll readInt64 texts with
  | some vs =>
      rw [inferCells_eq_int64 hint]
      rcases (readAll_eq_some_iff readInt64 texts vs).1 hint with ⟨hne, hvs⟩
      exact .int64 hne hvs
  | none =>
      have hno_int := (readAll_eq_none_iff readInt64 texts).1 hint
      cases hfloat : readAll readBinary64 texts with
      | some vs =>
          rw [inferCells_eq_float64 hint hfloat]
          rcases (readAll_eq_some_iff readBinary64 texts vs).1 hfloat with ⟨hne, hvs⟩
          exact .float64 (hno_int.resolve_left hne) hvs
      | none =>
          have hno_float := (readAll_eq_none_iff readBinary64 texts).1 hfloat
          simp only [inferCells, hint, hfloat]
          exact .string fun hne => ⟨hno_int.resolve_left hne, hno_float.resolve_left hne⟩

/-- Texts are a column of strings exactly if there are none or one is no number. -/
theorem inferCells_eq_string_iff (texts vs : List String) :
    inferCells texts = .string vs ↔
      vs = texts ∧ (texts = [] ∨ ∃ t ∈ texts, readBinary64 t.toList = none) := by
  rw [← readAll_eq_none_iff]
  constructor
  · intro h
    unfold inferCells at h
    split at h
    · exact absurd h (by simp)
    · split at h
      · exact absurd h (by simp)
      · rename_i hnone
        exact ⟨(Cells.string.inj h).symm, hnone⟩
  · rintro ⟨rfl, hnone⟩
    simp only [inferCells, readAll_int64_of_binary64 hnone, hnone]

/-! ## Written cells -/

/-- The cells that are inferred from the trimmed texts of cells. -/
def reread (cs : Cells) : Cells := inferCells (cs.toList.map fun cell => Text.trim cell.text)

/-- The one value that is not a number for all of them. -/
def oneNaN (x : Binary64) : Binary64 := if x.isNaN then .quietNaN false else x

theorem trim_of_isNumeral {cs : List Char} (h : ∀ c ∈ cs, Decimal.isNumeral c = true) :
    Text.trim (String.ofList cs) = String.ofList cs := by
  have hends : Text.trimBoth Text.isBlank cs = cs := by
    apply Text.trimBoth_eq_self_of_ends
    · intro c hc
      exact Decimal.isBlank_of_isNumeral (h c (List.mem_of_mem_head? hc))
    · intro c hc
      exact Decimal.isBlank_of_isNumeral (h c (List.mem_of_mem_getLast? hc))
  rw [Text.trim, String.toList_ofList, hends]

/-- The text of an integer has no blanks at its ends. -/
theorem trim_text_int64 (n : Int64) :
    Text.trim (Cell.int64 n).text = String.ofList (Decimal.writeInteger n.toInt) :=
  trim_of_isNumeral fun _ => Decimal.isNumeral_of_mem_writeInteger

/-- The text of a float has no blanks at its ends. -/
theorem trim_text_float64 (x : Binary64) :
    Text.trim (Cell.float64 x).text = String.ofList (Decimal.Layout.cell.write x) :=
  trim_of_isNumeral fun _ => Decimal.isNumeral_of_mem_write

/-- A column of integers that has rows is inferred again. -/
theorem reread_int64 {vs : List Int64} (hne : vs ≠ []) : reread (.int64 vs) = .int64 vs := by
  apply inferCells_eq_int64
  rw [readAll_eq_some_iff]
  refine ⟨by simpa [Cells.toList] using hne, ?_⟩
  simp only [Cells.toList, List.map_map]
  apply List.map_congr_left
  intro n _
  simp only [Function.comp_apply, trim_text_int64, String.toList_ofList,
    Decimal.readInt64_writeInteger]

/-- The texts of floats are inferred to be floats, up to which value is not a number. -/
theorem inferCells_text_float64 {vs : List Binary64} (hne : vs ≠ []) :
    inferCells (vs.map fun x => (Cell.float64 x).text) = .float64 (vs.map oneNaN) := by
  apply inferCells_eq_float64
  · rw [readAll_eq_none_iff]
    right
    rcases List.exists_mem_of_ne_nil vs hne with ⟨x, hx⟩
    refine ⟨_, List.mem_map.2 ⟨x, hx, rfl⟩, ?_⟩
    rw [Cell.text, String.toList_ofList]
    exact Decimal.readInt64_write rfl x
  · rw [readAll_eq_some_iff]
    refine ⟨by simpa using hne, ?_⟩
    rw [List.map_map, List.map_map]
    apply List.map_congr_left
    intro x _
    simp only [Function.comp_apply, Cell.text, String.toList_ofList, Decimal.readBinary64_write,
      oneNaN]

/-- A column of floats that has rows is inferred again, up to which value is not a number. -/
theorem reread_float64 {vs : List Binary64} (hne : vs ≠ []) :
    reread (.float64 vs) = .float64 (vs.map oneNaN) := by
  rw [reread, Cells.toList, List.map_map, ← inferCells_text_float64 hne]
  exact congrArg inferCells (List.map_congr_left fun x _ => trim_text_float64 x)

/-- A column of strings is inferred from the trims of its strings. -/
theorem reread_string (vs : List String) :
    reread (.string vs) = inferCells (vs.map Text.trim) := by
  rw [reread, Cells.toList, List.map_map]
  rfl

/-- A column of numbers that has rows keeps its type. -/
theorem type_reread {cs : Cells} (htype : cs.type ≠ .string) (hrows : 0 < cs.length) :
    (reread cs).type = cs.type := by
  cases cs with
  | int64 vs => rw [reread_int64 (List.ne_nil_of_length_pos hrows)]
  | float64 vs =>
      rw [reread_float64 (List.ne_nil_of_length_pos hrows)]
      rfl
  | string vs => exact absurd rfl htype

end TableFixture.Csv
