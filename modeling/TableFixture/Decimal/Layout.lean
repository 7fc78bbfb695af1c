import TableFixture.Decimal.Shortest

/-!
# Layouts of binary64 numbers

Three places write numbers: the cells of a table, the values of a JSON text, and
the messages of assertions.  All write the shortest digits that read back.  They
differ in when a power of ten is split off and how it is marked, in whether a
whole number keeps a point, and in how a tie between two shortest decimals goes.

Main results:

- Theorem `write_of_isNaN`, `write_of_isInfinite`: the texts of values without digits.
-/

namespace TableFixture.Decimal

/-- How a format writes a number. -/
structure Layout where
  /-- The preferred one of two equally near decimals. -/
  tie : Tie
  /-- The powers of ten of the leading digit, from the first up to but not including
  the second, at which no power is split off; at every power if there is none. -/
  window : Option (Int × Int)
  /-- Whether a whole number keeps a point and a zero. -/
  wholePoint : Bool
  /-- Whether a power of ten that is not negative carries a plus sign. -/
  plusSign : Bool
deriving DecidableEq, Repr

/-- Table cells write `20.0`, `1e16` and `1.5e-7`: a power of ten is split off below
`10 ^ (-4)` and from `10 ^ 16` on. -/
def Layout.cell : Layout := ⟨.up, some (-4, 16), true, false⟩

/-- JSON values write `20.0`, `1e+16` and `1.5e-7`: a power of ten is split off below
`10 ^ (-5)` and from `10 ^ 16` on. -/
def Layout.json : Layout := ⟨.even, some (-5, 16), true, true⟩

/-- Messages write `20`, `10000000000000000` and `0.00000015`, never a power of ten. -/
def Layout.message : Layout := ⟨.up, none, false, false⟩

/-- Whether a leading digit at this power of ten is written in its place. -/
def Layout.isPositional (layout : Layout) (power : Int) : Bool :=
  match layout.window with
  | none => true
  | some (low, high) => decide (low ≤ power) && decide (power < high)

/-! ## Digits in their places -/

/-- Digits followed by zeros up to the units, or with a point before the last places. -/
def writePositional (wholePoint : Bool) (digits : List Char) : Int → List Char
  | .ofNat zeros =>
    digits ++ List.replicate zeros '0' ++ (if wholePoint then ['.', '0'] else [])
  | .negSucc k =>
    if digits.length ≤ k + 1 then
      '0' :: '.' :: (List.replicate (k + 1 - digits.length) '0' ++ digits)
    else
      digits.take (digits.length - (k + 1)) ++ '.' :: digits.drop (digits.length - (k + 1))

/-- A leading digit, a point before the others if there are any, and the power of ten. -/
def writeScientific (plusSign : Bool) (digits : List Char) (power : Int) : List Char :=
  let mark := 'e' :: ((if plusSign && decide (0 ≤ power) then ['+'] else []) ++ writeInteger power)
  match digits with
  | [] => mark
  | [d] => d :: mark
  | d :: rest => d :: '.' :: (rest ++ mark)

/-- The power of ten of the leading digit. -/
def leadingPower (digits : List Char) (exponent : Int) : Int :=
  exponent + digits.length - 1

/-- The text of a finite magnitude. -/
def Layout.writeMagnitude (layout : Layout) (code : Nat) : List Char :=
  if code = 0 then writePositional layout.wholePoint ['0'] 0
  else
    let d := shortest layout.tie code
    let digits := Nat.toDigits 10 d.digits
    let power := leadingPower digits d.exponent
    if layout.isPositional power then writePositional layout.wholePoint digits d.exponent
    else writeScientific layout.plusSign digits power

/-- The text of a number: `NaN`, `inf`, or shortest digits, after a minus sign if the
sign is negative. -/
def Layout.write (layout : Layout) (x : Binary64) : List Char :=
  if x.isNaN then ['N', 'a', 'N']
  else
    let body := if x.isInfinite then ['i', 'n', 'f'] else layout.writeMagnitude x.code
    if x.negative then '-' :: body else body

/-- What is not a number has one text, whatever its sign. -/
theorem write_of_isNaN (layout : Layout) {x : Binary64} (h : x.isNaN = true) :
    layout.write x = ['N', 'a', 'N'] := by
  simp [Layout.write, h]

/-- The infinities have two texts. -/
theorem write_of_isInfinite (layout : Layout) {x : Binary64} (h : x.isInfinite = true) :
    layout.write x = if x.negative then ['-', 'i', 'n', 'f'] else ['i', 'n', 'f'] := by
  have hnan : x.isNaN = false := by
    simp only [Binary64.isInfinite, beq_iff_eq] at h
    simp [Binary64.isNaN, h]
  simp [Layout.write, hnan, h]

end TableFixture.Decimal
