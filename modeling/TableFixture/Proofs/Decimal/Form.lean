import Mathlib.Algebra.Order.Ring.Int
import TableFixture.Proofs.Decimal.Fewest
import TableFixture.Proofs.Decimal.ReadBack

/-!
# The form of written numbers

Table cells write the shortest decimal of a number, with its digits in their places if the
number is neither small nor large, and with a power of ten otherwise.  The writer looks at the
leading digit of the decimal for this.  That is the same as to compare the numbers themselves:
no decimal with one digit is read as the number unless the shortest one starts at its power of
ten.

Main definitions:

- `CellForm`: the texts that the rules of cells allow for a number.

Main results:

- Theorem `IsShortest.le_leadingPower_iff`: the power of ten of the leading digit, from the
  number.
- Theorem `isPositional_cell_iff`: which numbers have their digits in their places.
- Theorem `cellForm_iff`: a number has one text in a cell, the one that is written.
-/

namespace TableFixture

namespace Decimal

open Binary64 (infinityCode units)

variable {tie : Tie} {code : Nat} {d : Unsigned} {x : Binary64}

/-! ## The leading digit -/

theorem exact_ten_pow (k : Nat) (e : Int) :
    (⟨10 ^ k, e⟩ : Unsigned).exact = 10 ^ (e + k) := by
  rw [← Nat.one_mul (10 ^ k), exact_mul_ten_pow, exact_one]

theorem count_one (e : Int) : (⟨1, e⟩ : Unsigned).count = 1 :=
  Nat.le_antisymm ((Unsigned.count_le_iff (by decide)).2 (show 1 < 10 ^ 1 by decide))
    (Unsigned.count_pos _)

/-- A decimal is at least the power of ten of its leading digit. -/
theorem ten_zpow_leadingPower_le (hdigits : 0 < d.digits) :
    (10 : ℚ) ^ leadingPower (Nat.toDigits 10 d.digits) d.exponent ≤ d.exact := by
  have hcount := d.count_pos
  have hpower : leadingPower (Nat.toDigits 10 d.digits) d.exponent
      = d.exponent + ((d.count - 1 : Nat) : Int) := by
    rw [leadingPower, ← Unsigned.count]
    omega
  rw [hpower, ← exact_ten_pow]
  exact (exact_le_exact_iff _).2 (Unsigned.ten_pow_le_digits hdigits (by omega))

/-- A decimal is below every greater power of ten. -/
theorem exact_lt_of_leadingPower_lt {power : Int}
    (h : leadingPower (Nat.toDigits 10 d.digits) d.exponent < power) : d.exact < 10 ^ power := by
  rw [leadingPower, ← Unsigned.count] at h
  calc
    d.exact < (⟨10 ^ d.count, d.exponent⟩ : Unsigned).exact := (exact_lt_exact_iff _).2 d.digits_lt
    _ = 10 ^ (d.exponent + d.count) := exact_ten_pow _ _
    _ ≤ 10 ^ power := zpow_le_zpow_right₀ (by norm_num) (by omega)

/-- The shortest decimal has its leading digit at a power of ten or above it exactly if that
power is not read as a greater code. -/
theorem IsShortest.le_leadingPower_iff (hpos : 0 < code) (hcode : code < infinityCode)
    (h : IsShortest tie code d) (power : Int) :
    power ≤ leadingPower (Nat.toDigits 10 d.digits) d.exponent ↔ nearestCode 1 power ≤ code := by
  constructor
  · intro hle
    rw [← h.reads]
    apply nearestCode_mono
    rw [Nat.cast_one, one_mul]
    exact le_trans (zpow_le_zpow_right₀ (by norm_num) hle)
      (ten_zpow_leadingPower_le (h.reads.digits_pos hpos))
  · intro hle
    by_contra hbelow
    -- the power of ten would be read as the code, with one digit, and would be the nearer one
    have hlt := exact_lt_of_leadingPower_lt (Int.lt_of_not_ge hbelow)
    have hten : (⟨1, power⟩ : Unsigned).ReadsAs code := by
      apply Nat.le_antisymm hle
      rw [← h.reads]
      exact nearestCode_mono (by rw [Nat.cast_one, one_mul]; exact le_of_lt hlt)
    have hcount : d.count = 1 := by
      have hfewest := h.fewest _ hten
      rw [count_one] at hfewest
      exact Nat.le_antisymm hfewest d.count_pos
    have hdigit := d.digits_lt
    rw [hcount] at hdigit
    rw [leadingPower, ← Unsigned.count, hcount] at hbelow
    have hfarther := distance_ten_lt hpos hcode hten h.reads
      (exact_le_nine (Nat.le_of_lt_succ hdigit) (show d.exponent < power by omega))
    have hcloser := h.closest _ hten (by rw [count_one, hcount])
    exact absurd hcloser.distance_le (not_le.2 hfarther)

/-! ## The size of a number -/

/-- Whether a number is at least as great as the one nearest to `10 ^ (-4)` and smaller than
`10 ^ 16`, signs apart. -/
def IsModerate (x : Binary64) : Prop :=
  (nearest false 1 (-4)).value ≤ |x.value| ∧ |x.value| < (nearest false 1 16).value

instance (x : Binary64) : Decidable (IsModerate x) := inferInstanceAs (Decidable (_ ∧ _))

theorem abs_value (x : Binary64) : |x.value| = units x.code := by
  rw [Binary64.value]
  split
  · rw [abs_neg]
    exact abs_of_nonneg (Int.natCast_nonneg _)
  · exact abs_of_nonneg (Int.natCast_nonneg _)

theorem isModerate_iff (hcode : x.code < infinityCode) :
    IsModerate x ↔ nearestCode 1 (-4) ≤ x.code ∧ x.code < nearestCode 1 16 := by
  have hvalue (e : Int) : (nearest false 1 e).value = units (nearestCode 1 e) := rfl
  have hle := Nat.le_of_lt hcode
  rw [IsModerate, abs_value, hvalue, hvalue, Int.ofNat_le, Int.ofNat_lt,
    Binary64.units_le_units_iff (nearestCode_le 1 (-4)) hle, ← Nat.not_le,
    Binary64.units_le_units_iff (nearestCode_le 1 16) hle, Nat.not_le]

/-- Cells write the digits of the moderate numbers in their places. -/
theorem isPositional_cell_iff (hpos : 0 < x.code) (hcode : x.code < infinityCode)
    (h : IsShortest tie x.code d) :
    Layout.cell.isPositional (leadingPower (Nat.toDigits 10 d.digits) d.exponent) = true ↔
      IsModerate x := by
  rw [isModerate_iff hcode, ← h.le_leadingPower_iff hpos hcode, ← Nat.not_le,
    ← h.le_leadingPower_iff hpos hcode, Int.not_le]
  simp only [Layout.isPositional, Layout.cell, Bool.and_eq_true, decide_eq_true_eq]

/-! ## The texts of a number -/

/-- A text after the sign of a number. -/
def signed (x : Binary64) (body : List Char) : List Char :=
  if x.negative then '-' :: body else body

/-- The texts that a cell may hold for a number: a name if it is not finite, and the shortest
decimal if it is. -/
inductive CellForm (x : Binary64) : List Char → Prop where
  | nan : x.isNaN = true → CellForm x ['N', 'a', 'N']
  | infinite : x.isInfinite = true → CellForm x (signed x ['i', 'n', 'f'])
  | zero : x.code = 0 → CellForm x (signed x ['0', '.', '0'])
  | plain {d : Unsigned} : x.isFinite = true → 0 < x.code → IsModerate x →
      IsShortest .up x.code d →
      CellForm x (signed x (writePositional true (Nat.toDigits 10 d.digits) d.exponent))
  | power {d : Unsigned} : x.isFinite = true → 0 < x.code → ¬ IsModerate x →
      IsShortest .up x.code d →
      CellForm x (signed x (writeScientific false (Nat.toDigits 10 d.digits)
        (leadingPower (Nat.toDigits 10 d.digits) d.exponent)))

/-- The text of a finite magnitude is that of its shortest decimal. -/
theorem writeMagnitude_cell (hpos : 0 < x.code) (hcode : x.code < infinityCode)
    (h : IsShortest .up x.code d) :
    Layout.cell.writeMagnitude x.code
      = if IsModerate x then writePositional true (Nat.toDigits 10 d.digits) d.exponent
        else writeScientific false (Nat.toDigits 10 d.digits)
          (leadingPower (Nat.toDigits 10 d.digits) d.exponent) := by
  have hpositional := isPositional_cell_iff hpos hcode h
  have hunique : shortest Layout.cell.tie x.code = d :=
    (isShortest_shortest .up hpos hcode).unique hpos h
  rw [Layout.writeMagnitude, if_neg (Nat.ne_of_gt hpos), hunique]
  dsimp only
  by_cases hmoderate : IsModerate x
  · rw [if_pos (hpositional.2 hmoderate), if_pos hmoderate]
    rfl
  · rw [if_neg fun hwindow => hmoderate (hpositional.1 hwindow), if_neg hmoderate]
    rfl

theorem write_of_isFinite (layout : Layout) (h : x.isFinite = true) :
    layout.write x = signed x (layout.writeMagnitude x.code) :=
  write_of_lt layout (of_decide_eq_true h)

/-- A number has one text in a cell, the one that is written. -/
theorem cellForm_iff (x : Binary64) (cs : List Char) :
    CellForm x cs ↔ cs = Layout.cell.write x := by
  constructor
  · intro h
    cases h with
    | nan hnan => exact (write_of_isNaN _ hnan).symm
    | infinite hinf => exact (write_of_isInfinite _ hinf).symm
    | zero hzero =>
        rw [write_of_isFinite _ (by rw [Binary64.isFinite, hzero]; decide), hzero]
        rfl
    | plain hfinite hpos hmoderate hshortest =>
        rw [write_of_isFinite _ hfinite,
          writeMagnitude_cell hpos (of_decide_eq_true hfinite) hshortest, if_pos hmoderate]
    | power hfinite hpos hmoderate hshortest =>
        rw [write_of_isFinite _ hfinite,
          writeMagnitude_cell hpos (of_decide_eq_true hfinite) hshortest, if_neg hmoderate]
  · rintro rfl
    rcases isNaN_or_isInfinite_or_lt x with hnan | hinf | hcode
    · rw [write_of_isNaN _ hnan]
      exact .nan hnan
    · rw [write_of_isInfinite _ hinf]
      exact .infinite hinf
    · have hfinite : x.isFinite = true := decide_eq_true hcode
      rw [write_of_isFinite _ hfinite]
      rcases Nat.eq_zero_or_pos x.code with hzero | hpos
      · rw [hzero]
        exact .zero hzero
      · have hshortest := isShortest_shortest .up hpos hcode
        rw [writeMagnitude_cell hpos hcode hshortest]
        split
        next hmoderate => exact .plain hfinite hpos hmoderate hshortest
        next hmoderate => exact .power hfinite hpos hmoderate hshortest

end Decimal

end TableFixture
