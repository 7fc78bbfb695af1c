import TableFixture.Decimal.Nearest

/-!
# Shortest decimals that read back

A positive finite number has an exact decimal expansion with 1074 places.  Of the
decimals with fewer digits, only its two neighbours on each coarser grid of powers
of ten can read back as the same number, so the search walks from the coarsest
grid down and stops at the first with a neighbour that reads back.  Of two such
neighbours the nearer is taken; which one a tie prefers is left to the format.

Main results:

- Theorem `nearestCode_of_onGrid`: a neighbour found on a grid reads back.
- Theorem `nearestCode_shortestFrom`: what the search finds reads back as the number
  searched for, provided the exact expansion does.
-/

namespace TableFixture.Decimal

/-- A decimal without a sign: `digits * 10 ^ exponent`. -/
structure Unsigned where
  digits : Nat
  exponent : Int
deriving DecidableEq, Repr

/-- Which of two equally near decimals a format prefers. -/
inductive Tie where
  | up
  | even
deriving DecidableEq, Repr

/-- The exact decimal expansion of a code, counted in `10 ^ (-1074)`. -/
def expansion (code : Nat) : Nat := 5 ^ 1074 * Binary64.units code

/-- Of the neighbours `low` and `low + 1` on the grid of `step`, the nearer to
`low * step + rest`. -/
def nearer (tie : Tie) (low rest step : Nat) : Nat :=
  if 2 * rest < step then low
  else if step < 2 * rest then low + 1
  else match tie with
    | .up => low + 1
    | .even => low + low % 2

/-- The neighbour of a code on the grid of `10 ^ place` (counted in `10 ^ (-1074)`) that
reads back, the nearer one if both do. -/
def onGrid (tie : Tie) (code place : Nat) : Option Unsigned :=
  let step := 10 ^ place
  let exponent : Int := place - 1074
  let low := expansion code / step
  match nearestCode low exponent == code, nearestCode (low + 1) exponent == code with
  | true, true => some ⟨nearer tie low (expansion code % step) step, exponent⟩
  | true, false => some ⟨low, exponent⟩
  | false, true => some ⟨low + 1, exponent⟩
  | false, false => none

/-- The search on the grids of `10 ^ place`, `10 ^ (place - 1)`, …; the finest grid
holds the expansion itself. -/
def shortestFrom (tie : Tie) (code : Nat) : Nat → Unsigned
  | 0 => ⟨expansion code, -1074⟩
  | place + 1 => (onGrid tie code (place + 1)).getD (shortestFrom tie code place)

/-- The decimal with the fewest digits that reads back as the code, and of those
the nearest. -/
def shortest (tie : Tie) (code : Nat) : Unsigned :=
  shortestFrom tie code (Nat.toDigits 10 (expansion code)).length

/-- The nearer neighbour is one of the two. -/
theorem nearer_eq (tie : Tie) (low rest step : Nat) :
    nearer tie low rest step = low ∨ nearer tie low rest step = low + 1 := by
  unfold nearer
  split
  · exact .inl rfl
  · split
    · exact .inr rfl
    · cases tie
      · exact .inr rfl
      · rcases Nat.mod_two_eq_zero_or_one low with h | h <;> simp [h]

/-- A neighbour found on a grid reads back. -/
theorem nearestCode_of_onGrid {tie : Tie} {code place : Nat} {d : Unsigned}
    (h : onGrid tie code place = some d) : nearestCode d.digits d.exponent = code := by
  unfold onGrid at h
  dsimp only at h
  split at h
  next hlow hhigh =>
    obtain rfl := Option.some.inj h
    rcases nearer_eq tie (expansion code / 10 ^ place) (expansion code % 10 ^ place)
      (10 ^ place) with hn | hn
    · rw [hn]; exact eq_of_beq hlow
    · rw [hn]; exact eq_of_beq hhigh
  next hlow _ => obtain rfl := Option.some.inj h; exact eq_of_beq hlow
  next _ hhigh => obtain rfl := Option.some.inj h; exact eq_of_beq hhigh
  next => exact absurd h (by simp)

/-- What the search finds reads back as the number searched for, provided the
exact expansion does. -/
theorem nearestCode_shortestFrom (tie : Tie) {code : Nat}
    (hexact : nearestCode (expansion code) (-1074) = code) (place : Nat) :
    nearestCode (shortestFrom tie code place).digits (shortestFrom tie code place).exponent
      = code := by
  induction place with
  | zero => simpa only [shortestFrom] using hexact
  | succ place ih =>
    rw [shortestFrom]
    match h : onGrid tie code (place + 1) with
    | some d => exact nearestCode_of_onGrid h
    | none => exact ih

end TableFixture.Decimal
