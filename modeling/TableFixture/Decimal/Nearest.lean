import TableFixture.Binary64.Basic
import TableFixture.Decimal.Integer

/-!
# The binary64 number nearest to a decimal text

A decimal text is an optional sign, digits with at most one point among or around
them, and an optional power of ten.  It is read as the number nearest to its exact
value, a tie going to the even code; infinities and the value that is not a number
have names of their own, in any case of letters.

Main results:

- Theorem `nearestCode_zero`: a zero stays zero, whatever its power of ten.
- Theorem `nearestCode_le`: a decimal is never read as what is not a number.
-/

namespace TableFixture.Decimal

open Binary64 (infinityCode roundCode)

/-! ## Rounding a decimal -/

/-- The code of the number nearest to `n * 10 ^ e`.

A power of ten so large or so small that the answer is plain is never formed:
`10 ^ 400` exceeds every finite number, and what lies below `10 ^ (-400)` is nearer
to zero than to the smallest positive number. -/
def nearestCode (n : Nat) (e : Int) : Nat :=
  if n = 0 then 0
  else if 400 ≤ e then infinityCode
  else if e + n.log2 + 1 ≤ -400 then 0
  else roundCode (2 ^ 1074 * (n * 10 ^ e.toNat)) (10 ^ (-e).toNat)

/-- A zero stays zero, whatever its power of ten. -/
@[simp] theorem nearestCode_zero (e : Int) : nearestCode 0 e = 0 := rfl

/-- A decimal is never read as what is not a number. -/
theorem nearestCode_le (n : Nat) (e : Int) : nearestCode n e ≤ infinityCode := by
  unfold nearestCode
  split
  · exact Nat.zero_le _
  · split
    · exact Nat.le_refl _
    · split
      · exact Nat.zero_le _
      · exact Binary64.roundCode_le _ _

/-- The number of the given sign nearest to `n * 10 ^ e`. -/
def nearest (negative : Bool) (n : Nat) (e : Int) : Binary64 :=
  ⟨negative, nearestCode n e, Nat.lt_of_le_of_lt (nearestCode_le n e) (by decide)⟩

/-! ## Reading -/

/-- The power of ten after the digits: nothing, or the letter `e` and a signed number. -/
def readExponent : List Char → Option Int
  | [] => some 0
  | c :: cs => if c == 'e' || c == 'E' then readSigned cs else none

/-- Digits with an optional point and an optional power of ten, read as `n * 10 ^ e`.
At least one digit must stand before or after the point. -/
def readDecimal (cs : List Char) : Option (Nat × Int) :=
  let whole := cs.takeWhile Char.isDigit
  let afterWhole := cs.dropWhile Char.isDigit
  let (fraction, tail) := match afterWhole with
    | '.' :: rest => (rest.takeWhile Char.isDigit, rest.dropWhile Char.isDigit)
    | rest => ([], rest)
  if whole.isEmpty && fraction.isEmpty then none
  else (readExponent tail).map fun e =>
    (Nat.ofDigitChars 10 (whole ++ fraction) 0, e - fraction.length)

/-- The names of the values that no decimal denotes, in any case of letters. -/
def readName (negative : Bool) (cs : List Char) : Option Binary64 :=
  let name := cs.map Char.toLower
  if name = ['i', 'n', 'f'] || name = ['i', 'n', 'f', 'i', 'n', 'i', 't', 'y'] then
    some (.infinity negative)
  else if name = ['n', 'a', 'n'] then some (.quietNaN negative)
  else none

/-- A binary64 number: an optional sign, then a decimal or a name. -/
def readBinary64 (cs : List Char) : Option Binary64 :=
  let (negative, body) := readSign cs
  match readDecimal body with
  | some (n, e) => some (nearest negative n e)
  | none => readName negative body

end TableFixture.Decimal
