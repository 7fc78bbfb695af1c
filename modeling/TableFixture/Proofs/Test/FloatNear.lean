import Mathlib.Algebra.Order.Field.Rat
import Mathlib.Algebra.Order.Field.Basic
import Mathlib.Algebra.Order.Ring.Cast
import TableFixture.Proofs.Binary64.Order
import TableFixture.Proofs.Test.Creation

/-!
# What assertions about floats report

An assertion about a float calls for at most one thing, a recorded failure.  The bounds of the
accepted range are rounded, but rounding keeps the order of numbers.  So what lies in the range
by exact arithmetic is never reported, and a greater tolerance reports no more than a smaller
one.  For the same reason a negative tolerance accepts nothing but the expected number itself;
that it does accept where the tolerance is lost in both bounds.

Main results:

- Theorem `near_of_abs_le`: what is near by exact arithmetic is near.
- Theorem `near_mono`: what is near stays near with a greater tolerance.
- Theorem `near_of_negative_iff`: what a negative tolerance accepts.
- Theorem `nearReports_within_and_mono`: there are no false alarms, and none more with a greater
  tolerance.
- Theorem `nearReports_of_nan_or_negative`: when a tolerance that is no range is reported.
-/

namespace TableFixture

namespace Binary64

/-! ## The accepted range -/

section

variable {expected actual tolerance tolerance' : Binary64}

theorem near_iff (expected actual tolerance : Binary64) :
    expected.near actual tolerance = true ↔
      actual.isNaN = false ∧ (expected.sub tolerance).isNaN = false ∧
      (expected.add tolerance).isNaN = false ∧
      (expected.sub tolerance).value ≤ actual.value ∧
      actual.value ≤ (expected.add tolerance).value := by
  rw [near, Bool.and_eq_true, le_iff, le_iff]
  constructor
  · rintro ⟨⟨hsub, hactual, hlow⟩, -, hadd, hhigh⟩
    exact ⟨hactual, hsub, hadd, hlow, hhigh⟩
  · rintro ⟨hactual, hsub, hadd, hlow, hhigh⟩
    exact ⟨⟨hsub, hactual, hlow⟩, hactual, hadd, hhigh⟩

theorem isNaN_sub (hexpected : expected.isFinite = true) (htolerance : tolerance.isNaN = false) :
    (expected.sub tolerance).isNaN = false :=
  isNaN_add hexpected (by rwa [isNaN_neg])

/-- The exact value of a finite number. -/
def exact (x : Binary64) : ℚ := x.value / 2 ^ 1074

/-- Distances of exact values are distances of units. -/
theorem abs_exact_sub_le_iff (x y z : Binary64) :
    |x.exact - y.exact| ≤ z.exact ↔ |x.value - y.value| ≤ z.value := by
  have hpos : (0 : ℚ) < 2 ^ 1074 := pow_pos (by decide) 1074
  rw [exact, exact, exact, ← sub_div, abs_div, abs_of_pos hpos,
    div_le_div_iff_of_pos_right hpos, ← Int.cast_sub, ← Int.cast_abs, Int.cast_le]

/-- What is near by exact arithmetic is near. -/
theorem near_of_abs_le (hexpected : expected.isFinite = true) (hactual : actual.isFinite = true)
    (htolerance : tolerance.isFinite = true)
    (h : |actual.exact - expected.exact| ≤ tolerance.exact) :
    expected.near actual tolerance = true := by
  rw [abs_exact_sub_le_iff, abs_le] at h
  have hnan := isNaN_of_isFinite htolerance
  -- a finite number is its own rounding, so it stays between the rounded bounds
  have hlow : (expected.sub tolerance).value ≤ actual.value := by
    rw [sub, add_of_isFinite hexpected (by rwa [isFinite_neg]), value_neg,
      ← value_ofUnits_value hactual false]
    exact value_ofUnits_mono _ _ (by omega)
  have hhigh : actual.value ≤ (expected.add tolerance).value := by
    rw [add_of_isFinite hexpected htolerance, ← value_ofUnits_value hactual false]
    exact value_ofUnits_mono _ _ (by omega)
  exact (near_iff ..).2 ⟨isNaN_of_isFinite hactual, isNaN_sub hexpected hnan,
    isNaN_add hexpected hnan, hlow, hhigh⟩

/-- Every finite number is near with an infinite tolerance. -/
theorem near_of_isInfinite (hexpected : expected.isFinite = true) (hactual : actual.isNaN = false)
    (htolerance : tolerance.isInfinite = true) (hpos : 0 ≤ tolerance.value) :
    expected.near actual tolerance = true := by
  have hnan : tolerance.isNaN = false := by
    rw [isNaN, beq_iff_eq.1 htolerance]
    decide
  have hvalue : tolerance.value.natAbs = units infinityCode := by
    rw [value_of_isInfinite htolerance]
    split <;> omega
  have hbound := natAbs_value_le hactual
  have hneg : tolerance.neg.isInfinite = true := by rwa [isInfinite_neg]
  refine (near_iff ..).2 ⟨hactual, isNaN_sub hexpected hnan, isNaN_add hexpected hnan, ?_, ?_⟩
  · rw [sub, add_of_isInfinite_right hexpected hneg, value_neg]
    omega
  · rw [add_of_isInfinite_right hexpected htolerance]
    omega

/-- What is near stays near with a greater tolerance. -/
theorem near_mono (hexpected : expected.isFinite = true) (hle : tolerance.le tolerance' = true)
    (h : expected.near actual tolerance = true) : expected.near actual tolerance' = true := by
  rcases (le_iff ..).1 hle with ⟨hnan, hnan', hvalue⟩
  rcases (near_iff ..).1 h with ⟨hactual, -, -, hlow, hhigh⟩
  exact (near_iff ..).2 ⟨hactual, isNaN_sub hexpected hnan', isNaN_add hexpected hnan',
    (value_sub_anti hexpected hnan hnan' hvalue).trans hlow,
    hhigh.trans (value_add_mono hexpected hnan hnan' hvalue)⟩

/-! ## Negative tolerances -/

theorem same_iff (x y : Binary64) :
    x.same y = true ↔ x.isNaN = false ∧ y.isNaN = false ∧ x.value = y.value := by
  simp [same, and_assoc]

theorem lt_iff (x y : Binary64) :
    x.lt y = true ↔ x.isNaN = false ∧ y.isNaN = false ∧ x.value < y.value := by
  simp [lt, and_assoc]

/-- Whether a tolerance is lost in both bounds of the range around a number. -/
def absorbs (x tolerance : Binary64) : Bool :=
  (x.sub tolerance).same x && (x.add tolerance).same x

/-- A negative tolerance accepts the expected number alone, and that only where it is lost in
both bounds. -/
theorem near_of_negative_iff (hnegative : tolerance.lt (zero false) = true) :
    expected.near actual tolerance = true ↔
      actual.same expected = true ∧ expected.absorbs tolerance = true := by
  rcases (lt_iff ..).1 hnegative with ⟨-, -, hvalue⟩
  rw [value_zero] at hvalue
  rw [near_iff, absorbs, Bool.and_eq_true, same_iff, same_iff, same_iff]
  constructor
  · rintro ⟨hactual, hsub, hadd, hlow, hhigh⟩
    have hexpected : expected.isNaN = false := by
      cases hnan : expected.isNaN with
      | true => exact absurd (add_of_isNaN_left tolerance hnan) (by rw [hadd]; decide)
      | false => rfl
    -- the bounds have changed places around the expected number, so all of them are equal
    have habove : expected.value ≤ (expected.sub tolerance).value :=
      le_value_add hexpected hsub (by rw [value_neg]; omega)
    have hbelow : (expected.add tolerance).value ≤ expected.value :=
      value_add_le hexpected hadd (by omega)
    exact ⟨⟨hactual, hexpected, by omega⟩, ⟨hsub, hexpected, by omega⟩, hadd, hexpected, by omega⟩
  · rintro ⟨⟨hactual, -, heq⟩, ⟨hsub, -, hlow⟩, hadd, -, hhigh⟩
    exact ⟨hactual, hsub, hadd, by omega, by omega⟩

end

end Binary64

/-! ## Reports -/

namespace TestContext

open Binary64 (zero exact)

variable {κ : Type}

/-- What an assertion about a float calls for in its context. -/
def nearReports (ctx : TestContext κ) (expected actual tolerance : Binary64) (site : String)
    (s : Scene κ) : List Call :=
  (ctx.traced.assertFloatNear expected actual tolerance site (s.withCalls [])).2.calls

/-- An assertion about a float never stops the test, and keeping its calls changes nothing
else. -/
theorem assertFloatNear_traced (ctx : TestContext κ) (expected actual tolerance : Binary64)
    (site : String) (s : Scene κ) :
    ctx.assertFloatNear expected actual tolerance site s
      = (.ok (), (ctx.traced.assertFloatNear expected actual tolerance site
          (s.withCalls [])).2.withoutCalls) := by
  cases h : expected.near actual tolerance with
  | true => rw [assertFloatNear_of_near h, assertFloatNear_of_near h]; rfl
  | false => rw [assertFloatNear_of_not_near h, assertFloatNear_of_not_near h]; rfl

/-- Nothing is reported in the accepted range, and one failure outside it. -/
theorem nearReports_eq (ctx : TestContext κ) (expected actual tolerance : Binary64)
    (site : String) (s : Scene κ) :
    ctx.nearReports expected actual tolerance site s
      = if expected.near actual tolerance then []
        else [.record (floatFailure expected actual tolerance site)] := by
  cases h : expected.near actual tolerance with
  | true => rw [nearReports, assertFloatNear_of_near h]; rfl
  | false => rw [nearReports, assertFloatNear_of_not_near h]; rfl

theorem nearReports_eq_nil_iff (ctx : TestContext κ) (expected actual tolerance : Binary64)
    (site : String) (s : Scene κ) :
    ctx.nearReports expected actual tolerance site s = []
      ↔ expected.near actual tolerance = true := by
  rw [nearReports_eq]
  split
  next h => simp [h]
  next h => simp [h]

/-- Around a finite number there are no false alarms: nothing is reported of what is in the
range by exact arithmetic.  And with a greater tolerance nothing is reported where nothing was
with a smaller one. -/
theorem nearReports_within_and_mono (ctx : TestContext κ) (expected : Binary64)
    (hexpected : expected.isFinite = true) (site : String) (s : Scene κ) :
    (∀ actual tolerance : Binary64, actual.isFinite = true → (zero false).le tolerance = true →
      (tolerance.isFinite = true → |actual.exact - expected.exact| ≤ tolerance.exact) →
        ctx.nearReports expected actual tolerance site s = []) ∧
    ∀ actual tolerance tolerance' : Binary64, tolerance.le tolerance' = true →
      ctx.nearReports expected actual tolerance site s = [] →
        ctx.nearReports expected actual tolerance' site s = [] := by
  constructor
  · intro actual tolerance hactual hnonneg hwithin
    rcases (Binary64.le_iff ..).1 hnonneg with ⟨-, hnan, hvalue⟩
    rw [nearReports_eq_nil_iff]
    by_cases hinf : tolerance.isInfinite = true
    · rw [Binary64.value_zero] at hvalue
      exact Binary64.near_of_isInfinite hexpected (Binary64.isNaN_of_isFinite hactual) hinf hvalue
    · have hfinite := Binary64.isFinite_of_not hnan hinf
      exact Binary64.near_of_abs_le hexpected hactual hfinite (hwithin hfinite)
  · intro actual tolerance tolerance' hle hnear
    rw [nearReports_eq_nil_iff] at hnear ⊢
    exact Binary64.near_mono hexpected hle hnear

/-- Around the greatest finite number, whose upper bound is infinite, zero is as near as it can
be, and stays near with an infinite tolerance. -/
theorem nearReports_greatest :
    let greatest : Binary64 := .ofBits 0x7fefffffffffffff
    let ctx := TestCase.context
    let s : Scene TestCase := ⟨TestCase.smallWorld, .new "t"⟩
    greatest.isFinite = true ∧ (zero false).isFinite = true ∧
    (zero false).le greatest = true ∧
    |(zero false).exact - greatest.exact| ≤ greatest.exact ∧
    greatest.le (.infinity false) = true ∧
    ctx.nearReports greatest (zero false) greatest "f:1" s = [] ∧
    ctx.nearReports greatest (zero false) (.infinity false) "f:1" s = [] := by
  intro greatest ctx s
  have hfinite : greatest.isFinite = true := by decide +kernel
  have hle : (zero false).le greatest = true := by decide +kernel
  have hgreater : greatest.le (.infinity false) = true := by decide +kernel
  have hwithin : |(zero false).exact - greatest.exact| ≤ greatest.exact := by
    rw [Binary64.abs_exact_sub_le_iff]
    decide +kernel
  have hnear := nearReports_within_and_mono ctx greatest hfinite "f:1" s
  have hquiet := hnear.1 (zero false) greatest (by decide) hle fun _ => hwithin
  exact ⟨hfinite, by decide, hle, hwithin, hgreater, hquiet, hnear.2 _ _ _ hgreater hquiet⟩

/-- One failure is recorded if something is not a number, and with a negative tolerance unless
the actual number is the expected one and the tolerance is lost in both bounds. -/
theorem nearReports_of_nan_or_negative (ctx : TestContext κ) (expected actual tolerance : Binary64)
    (site : String) (s : Scene κ) :
    ((expected.isNaN = true ∨ actual.isNaN = true ∨ tolerance.isNaN = true) →
      ctx.nearReports expected actual tolerance site s
        = [.record (floatFailure expected actual tolerance site)]) ∧
    (tolerance.lt (zero false) = true →
      ctx.nearReports expected actual tolerance site s
        = if actual.same expected && expected.absorbs tolerance then []
          else [.record (floatFailure expected actual tolerance site)]) ∧
    (ctx.assertFloatNear expected actual tolerance site s).1 = .ok () := by
  rw [nearReports_eq]
  refine ⟨fun hnan => ?_, fun hnegative => ?_, by rw [assertFloatNear_traced]⟩
  · rw [Binary64.near_eq_false_of_isNaN hnan]
    rfl
  · have hnear : expected.near actual tolerance
        = (actual.same expected && expected.absorbs tolerance) := by
      rw [Bool.eq_iff_iff, Bool.and_eq_true, Binary64.near_of_negative_iff hnegative]
    rw [hnear]

/-- One is not near what is not a number, nor near itself with a tolerance of minus one half. -/
theorem nearReports_one :
    let one : Binary64 := .ofBits 0x3ff0000000000000
    let minusHalf : Binary64 := .ofBits 0xbfe0000000000000
    let ctx := TestCase.context
    let s : Scene TestCase := ⟨TestCase.smallWorld, .new "t"⟩
    (Binary64.quietNaN false).isNaN = true ∧ minusHalf.lt (zero false) = true ∧
    ctx.nearReports one (.quietNaN false) one "f:1" s
      = [.record (floatFailure one (.quietNaN false) one "f:1")] ∧
    ctx.nearReports one one minusHalf "f:1" s
      = [.record (floatFailure one one minusHalf "f:1")] := by
  intro one minusHalf ctx s
  have hnegative : minusHalf.lt (zero false) = true := by decide +kernel
  have hkept : one.absorbs minusHalf = false := by decide +kernel
  have hnan : (Binary64.quietNaN false).isNaN = true := by decide
  refine ⟨hnan, hnegative, ?_, ?_⟩
  · exact (nearReports_of_nan_or_negative ctx one (.quietNaN false) one "f:1" s).1 (.inr (.inl hnan))
  · rw [(nearReports_of_nan_or_negative ctx one one minusHalf "f:1" s).2.1 hnegative, hkept,
      Bool.and_false]
    rfl

/-- A negative tolerance that is lost in both bounds is not reported. -/
theorem nearReports_lostTolerance :
    let expected : Binary64 := .ofBits 0x4341c37937e08000
    let minusHalf : Binary64 := .ofBits 0xbfe0000000000000
    minusHalf.lt (zero false) = true ∧
      TestCase.context.nearReports expected expected minusHalf "f:1"
        ⟨TestCase.smallWorld, .new "t"⟩ = [] := by
  intro expected minusHalf
  refine ⟨by decide +kernel, ?_⟩
  rw [nearReports_eq_nil_iff]
  decide +kernel

end TestContext

end TableFixture
