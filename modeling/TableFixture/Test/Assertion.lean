import TableFixture.Binary64.Arithmetic
import TableFixture.Decimal.Layout
import TableFixture.Test.Context

/-!
# Assertions

An assertion records a failure when two numbers are not what was expected and says
nothing otherwise.  Floats are compared with a tolerance whose bounds belong to the
accepted range; sum and difference are those of binary64 numbers, so what is not a
number is never accepted.

Main results:

- Theorem `assertFloatNear_of_near`, `assertFloatNear_of_not_near`: a failure is recorded
  exactly outside the accepted range.
- Theorem `near_eq_false_of_isNaN`: nothing is accepted if a number is not one.
-/

namespace TableFixture

namespace Binary64

/-- Whether `actual` lies between `expected - tolerance` and `expected + tolerance`. -/
def near (expected actual tolerance : Binary64) : Bool :=
  (expected.sub tolerance).le actual && actual.le (expected.add tolerance)

/-- Nothing is accepted if a number is not one. -/
theorem near_eq_false_of_isNaN {expected actual tolerance : Binary64}
    (h : expected.isNaN = true ∨ actual.isNaN = true ∨ tolerance.isNaN = true) :
    near expected actual tolerance = false := by
  rcases h with h | h | h
  · simp [near, le, add_of_isNaN_left tolerance h]
  · simp [near, le, h]
  · simp [near, le, add_of_isNaN_right expected h]

end Binary64

namespace TestContext

variable {κ : Type}

/-- A float as it stands in messages. -/
def floatText (x : Binary64) : String := String.ofList (Decimal.Layout.message.write x)

/-- An integer as it stands in messages. -/
def integerText (n : Int64) : String := String.ofList (Decimal.writeInteger n.toInt)

/-- The failure of a float outside the accepted range. -/
def floatFailure (expected actual tolerance : Binary64) (site : String) : Failure :=
  ⟨"expected " ++ floatText expected ++ " ± " ++ floatText tolerance ++ ", got "
    ++ floatText actual, site⟩

/-- The failure of an integer other than the expected one. -/
def integerFailure (expected actual : Int64) (site : String) : Failure :=
  ⟨"expected " ++ integerText expected ++ ", got " ++ integerText actual, site⟩

/-- Records a failure unless a float is near the expected one. -/
def assertFloatNear (ctx : TestContext κ) (expected actual tolerance : Binary64) (site : String)
    (s : Scene κ) : Except String Unit × Scene κ :=
  if expected.near actual tolerance then (.ok (), s)
  else ctx.fail .record (floatFailure expected actual tolerance site) s

/-- Records a failure unless an integer is the expected one. -/
def assertIntEqual (ctx : TestContext κ) (expected actual : Int64) (site : String)
    (s : Scene κ) : Except String Unit × Scene κ :=
  if expected = actual then (.ok (), s)
  else ctx.fail .record (integerFailure expected actual site) s

/-- Nothing is reported of a float in the accepted range. -/
theorem assertFloatNear_of_near {expected actual tolerance : Binary64}
    (h : expected.near actual tolerance = true) (ctx : TestContext κ) (site : String)
    (s : Scene κ) : ctx.assertFloatNear expected actual tolerance site s = (.ok (), s) := by
  simp [assertFloatNear, h]

/-- One failure is recorded of a float outside the accepted range. -/
theorem assertFloatNear_of_not_near {expected actual tolerance : Binary64}
    (h : expected.near actual tolerance = false) (ctx : TestContext κ) (site : String)
    (s : Scene κ) :
    ctx.assertFloatNear expected actual tolerance site s
      = (.ok (), ctx.record (floatFailure expected actual tolerance site) s) := by
  simp [assertFloatNear, h]

end TestContext

end TableFixture
