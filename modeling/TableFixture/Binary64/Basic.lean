/-!
# Binary64 numbers

A binary64 number is a sign together with its exponent and fraction fields, read
as one natural number, the *magnitude code*.  Codes grow with the magnitude they
stand for, so infinity is a single code and every larger code is not a number.

Every finite number is a whole multiple of the smallest positive one.  That
multiple, `units`, turns the arithmetic of the format into arithmetic on
integers: comparison is comparison of units, and rounding is rounding a quotient
of natural numbers.

Main results:

- Theorem `ofBits_toBits`: a number is recovered from its bit pattern.
- Theorem `roundCode_le`: rounding never leaves the codes up to infinity.
- Theorem `roundHalfEven_of_dvd`: a quotient that is exact is kept.
-/

namespace TableFixture

/-- Powers of natural numbers are those of the core library, whichever others are in scope. -/
@[default_instance high]
scoped instance (priority := high) corePow : Pow Nat Nat := instPowNat

/-- A binary64 number: its sign, and its exponent and fraction fields read as one
number. -/
structure Binary64 where
  negative : Bool
  code : Nat
  code_lt : code < 2 ^ 63
deriving DecidableEq, Repr

namespace Binary64

/-! ## Bit patterns -/

/-- The number with the given bit pattern. -/
def ofBits (bits : UInt64) : Binary64 where
  negative := decide (2 ^ 63 ≤ bits.toNat)
  code := bits.toNat % 2 ^ 63
  code_lt := Nat.mod_lt _ (by decide)

/-- The bit pattern of a number: the sign in the highest bit, the magnitude code below it. -/
def toBits (x : Binary64) : UInt64 :=
  UInt64.ofNat ((if x.negative then 2 ^ 63 else 0) + x.code)

/-- A number is recovered from its bit pattern. -/
theorem ofBits_toBits (x : Binary64) : ofBits x.toBits = x := by
  obtain ⟨s, c, h⟩ := x
  have hlt : (if s then 2 ^ 63 else 0) + c < 2 ^ 64 := by split <;> omega
  have hnat : (UInt64.ofNat ((if s then 2 ^ 63 else 0) + c)).toNat
      = (if s then 2 ^ 63 else 0) + c := by
    rw [UInt64.toNat_ofNat']
    exact Nat.mod_eq_of_lt hlt
  simp only [ofBits, toBits, hnat, mk.injEq]
  cases s
  · simp only [Bool.false_eq_true, if_false, Nat.zero_add]
    exact ⟨by simpa using h, Nat.mod_eq_of_lt h⟩
  · simp only [if_true]
    exact ⟨by simp, by omega⟩

/-! ## Classes -/

/-- The magnitude code of infinity: an exponent field of ones over an empty fraction. -/
def infinityCode : Nat := 2047 * 2 ^ 52

/-- Whether the number is not a number. -/
def isNaN (x : Binary64) : Bool := decide (infinityCode < x.code)

/-- Whether the number is an infinity of either sign. -/
def isInfinite (x : Binary64) : Bool := x.code == infinityCode

/-- Whether the number is finite. -/
def isFinite (x : Binary64) : Bool := decide (x.code < infinityCode)

/-- The zero of the given sign. -/
def zero (negative : Bool) : Binary64 := ⟨negative, 0, by decide⟩

/-- The infinity of the given sign. -/
def infinity (negative : Bool) : Binary64 := ⟨negative, infinityCode, by decide⟩

/-- The quiet value that is not a number, with the given sign. -/
def quietNaN (negative : Bool) : Binary64 := ⟨negative, infinityCode + 2 ^ 51, by decide⟩

/-- The number of the opposite sign. -/
def neg (x : Binary64) : Binary64 := ⟨!x.negative, x.code, x.code_lt⟩

/-- A number is of exactly one class: not a number, infinite or finite. -/
theorem isFinite_eq (x : Binary64) : x.isFinite = (!x.isNaN && !x.isInfinite) := by
  rw [Bool.eq_iff_iff]
  simp only [isFinite, isNaN, isInfinite, Bool.and_eq_true, Bool.not_eq_true',
    decide_eq_true_eq, decide_eq_false_iff_not, beq_eq_false_iff_ne, ne_eq]
  omega

/-! ## Values -/

/-- The magnitude of a code, counted in the smallest positive number `2 ^ (-1074)`.

Below `2 ^ 52` the code is the count itself.  Above, the fraction gets its leading
bit and is doubled once for each step of the exponent field.  The count of
infinity exceeds that of every finite code. -/
def units (code : Nat) : Nat :=
  if code < 2 ^ 52 then code else (2 ^ 52 + code % 2 ^ 52) * 2 ^ (code / 2 ^ 52 - 1)

/-- The signed value of a number, counted in the smallest positive number. -/
def value (x : Binary64) : Int :=
  if x.negative then -(units x.code : Int) else (units x.code : Int)

@[simp] theorem units_zero : units 0 = 0 := rfl

@[simp] theorem value_zero (s : Bool) : (zero s).value = 0 := by
  cases s <;> rfl

/-! ## Comparison -/

/-- Equality of numbers: what is not a number equals nothing, and the two zeros are equal. -/
def same (x y : Binary64) : Bool := !x.isNaN && !y.isNaN && x.value == y.value

/-- The order of numbers; no comparison holds of what is not a number. -/
def le (x y : Binary64) : Bool := !x.isNaN && !y.isNaN && decide (x.value ≤ y.value)

/-- The strict order of numbers; no comparison holds of what is not a number. -/
def lt (x y : Binary64) : Bool := !x.isNaN && !y.isNaN && decide (x.value < y.value)

/-- A number equals itself unless it is not a number. -/
theorem same_self (x : Binary64) : x.same x = !x.isNaN := by
  simp [same]

/-! ## Rounding -/

/-- The quotient rounded to the nearest natural number, a tie to the even one. -/
def roundHalfEven (num den : Nat) : Nat :=
  let q := num / den
  let r := num % den
  if 2 * r < den then q else if den < 2 * r then q + 1 else q + q % 2

/-- An exact quotient is kept. -/
theorem roundHalfEven_of_dvd {num den : Nat} (hden : 0 < den) (h : den ∣ num) :
    roundHalfEven num den = num / den := by
  simp only [roundHalfEven, Nat.mod_eq_zero_of_dvd h, Nat.mul_zero, hden, if_true]

/-- The code of the number nearest to `num / den` units, a tie to the even code.

A quotient of at least `2 ^ 53` is first scaled down to 53 bits.  The scale is the
exponent step, and a significand that rounds up to `2 ^ 53` carries into the next
exponent by itself.  What exceeds the greatest finite number becomes infinite. -/
def roundCode (num den : Nat) : Nat :=
  let step := (num / den).log2 - 52
  min (step * 2 ^ 52 + roundHalfEven num (den * 2 ^ step)) infinityCode

/-- Rounding yields a finite code or that of infinity. -/
theorem roundCode_le (num den : Nat) : roundCode num den ≤ infinityCode :=
  Nat.min_le_right _ _

/-- The number of the given sign nearest to `num / den` units. -/
def ofQuotient (negative : Bool) (num den : Nat) : Binary64 :=
  ⟨negative, roundCode num den, Nat.lt_of_le_of_lt (roundCode_le num den) (by decide)⟩

@[simp] theorem negative_ofQuotient (s : Bool) (num den : Nat) :
    (ofQuotient s num den).negative = s := rfl

@[simp] theorem code_ofQuotient (s : Bool) (num den : Nat) :
    (ofQuotient s num den).code = roundCode num den := rfl

/-- Rounding never yields what is not a number. -/
@[simp] theorem isNaN_ofQuotient (s : Bool) (num den : Nat) :
    (ofQuotient s num den).isNaN = false := by
  rw [isNaN, code_ofQuotient]
  exact decide_eq_false (Nat.not_lt.2 (roundCode_le num den))

end Binary64

end TableFixture
