import TableFixture.Binary64.Basic

/-!
# Sums and differences of binary64 numbers

A sum of finite numbers is the exact sum of their units, rounded once to the
nearest number with ties to even.  Infinities absorb finite numbers, opposite
infinities have no sum, and a sum that is exactly zero is negative only when both
terms are.

Main results:

- Theorem `add_of_isNaN_left`, `add_of_isNaN_right`: what is not a number stays so.
- Theorem `add_of_isFinite`: the sum of finite numbers is the rounded exact sum.
-/

namespace TableFixture.Binary64

/-- The number nearest to a whole number of units; an exact zero takes the given sign. -/
def ofUnits (zeroNegative : Bool) (n : Int) : Binary64 :=
  if n = 0 then zero zeroNegative else ofQuotient (decide (n < 0)) n.natAbs 1

/-- The sum of two numbers. -/
def add (x y : Binary64) : Binary64 :=
  if x.isNaN || y.isNaN then quietNaN false
  else if x.isInfinite then
    if y.isInfinite && x.negative != y.negative then quietNaN false else x
  else if y.isInfinite then y
  else ofUnits (x.negative && y.negative) (x.value + y.value)

/-- The difference of two numbers: the sum with the opposite of the second. -/
def sub (x y : Binary64) : Binary64 := x.add y.neg

@[simp] theorem isNaN_quietNaN (s : Bool) : (quietNaN s).isNaN = true := by
  cases s <;> decide

@[simp] theorem isNaN_neg (x : Binary64) : x.neg.isNaN = x.isNaN := rfl

@[simp] theorem isInfinite_neg (x : Binary64) : x.neg.isInfinite = x.isInfinite := rfl

@[simp] theorem isFinite_neg (x : Binary64) : x.neg.isFinite = x.isFinite := rfl

@[simp] theorem value_neg (x : Binary64) : x.neg.value = -x.value := by
  obtain ⟨s, c, h⟩ := x
  cases s <;> simp [neg, value]

/-- A sum with a first term that is not a number is not a number. -/
theorem add_of_isNaN_left {x : Binary64} (y : Binary64) (h : x.isNaN = true) :
    (x.add y).isNaN = true := by
  simp [add, h]

/-- A sum with a second term that is not a number is not a number. -/
theorem add_of_isNaN_right (x : Binary64) {y : Binary64} (h : y.isNaN = true) :
    (x.add y).isNaN = true := by
  simp [add, h]

/-- The sum of finite numbers is their exact sum, rounded once. -/
theorem add_of_isFinite {x y : Binary64} (hx : x.isFinite = true) (hy : y.isFinite = true) :
    x.add y = ofUnits (x.negative && y.negative) (x.value + y.value) := by
  rw [isFinite_eq, Bool.and_eq_true, Bool.not_eq_true', Bool.not_eq_true'] at hx hy
  simp [add, hx.1, hx.2, hy.1, hy.2]

end TableFixture.Binary64
