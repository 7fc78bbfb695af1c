/-!
# Integers as decimal text

An integer is written as its digits after a minus sign if it is negative.  A
64-bit integer is read from an optional sign and one or more digits whose value
is in range; nothing else may stand in the text.

Main results:

- Theorem `readSigned_writeInteger`: written digits are read back with their sign.
- Theorem `readInt64_writeInteger`: a written 64-bit integer reads back as itself.
-/

namespace TableFixture.Decimal

/-! ## Writing -/

/-- The digits of an integer after its sign. -/
def writeInteger (n : Int) : List Char :=
  if n < 0 then '-' :: Nat.toDigits 10 n.natAbs else Nat.toDigits 10 n.natAbs

/-! ## Reading -/

/-- An optional sign: whether it is a minus, and the text after it. -/
def readSign : List Char → Bool × List Char
  | '-' :: cs => (true, cs)
  | '+' :: cs => (false, cs)
  | cs => (false, cs)

/-- A text of one or more digits and nothing else, read as a number. -/
def readDigits (cs : List Char) : Option Nat :=
  if cs.isEmpty || !cs.all Char.isDigit then none else some (Nat.ofDigitChars 10 cs 0)

/-- An optional sign and one or more digits, read as an integer. -/
def readSigned (cs : List Char) : Option Int :=
  let (negative, body) := readSign cs
  (readDigits body).map fun n => if negative then -(n : Int) else (n : Int)

/-- A 64-bit integer: an optional sign, one or more digits, and a value in range. -/
def readInt64 (cs : List Char) : Option Int64 :=
  (readSigned cs).bind fun n =>
    if Int64.minValue.toInt ≤ n ∧ n ≤ Int64.maxValue.toInt then some (Int64.ofInt n) else none

/-! ## Reading what was written -/

/-- The digits of a number read back as the number. -/
@[simp] theorem readDigits_toDigits (n : Nat) : readDigits (Nat.toDigits 10 n) = some n := by
  have hall : (Nat.toDigits 10 n).all Char.isDigit = true :=
    List.all_eq_true.2 fun c hc => Nat.isDigit_of_mem_toDigits (by decide) (by decide) hc
  have hne : (Nat.toDigits 10 n).isEmpty = false :=
    List.isEmpty_eq_false_iff.2 Nat.toDigits_ne_nil
  simp [readDigits, hall, hne, Nat.ofDigitChars_toDigits]

/-- A text that starts with a digit has no sign. -/
theorem readSign_of_isDigit {c : Char} {cs : List Char} (h : c.isDigit = true) :
    readSign (c :: cs) = (false, c :: cs) := by
  have hminus : c ≠ '-' := by rintro rfl; simp [Char.isDigit] at h
  have hplus : c ≠ '+' := by rintro rfl; simp [Char.isDigit] at h
  unfold readSign
  split
  · simp_all
  · simp_all
  · rfl

/-- The digits of a number have no sign. -/
@[simp] theorem readSign_toDigits (n : Nat) :
    readSign (Nat.toDigits 10 n) = (false, Nat.toDigits 10 n) := by
  match h : Nat.toDigits 10 n with
  | [] => exact absurd h Nat.toDigits_ne_nil
  | c :: cs =>
    exact readSign_of_isDigit
      (Nat.isDigit_of_mem_toDigits (b := 10) (n := n) (by decide) (by decide) (by simp [h]))

/-- Written digits are read back with their sign. -/
@[simp] theorem readSigned_writeInteger (n : Int) : readSigned (writeInteger n) = some n := by
  unfold writeInteger
  split
  next h =>
    have hread : readSigned ('-' :: Nat.toDigits 10 n.natAbs) = some (-(n.natAbs : Int)) := by
      simp [readSigned, readSign]
    rw [hread]
    exact congrArg some (by omega)
  next h =>
    have hread : readSigned (Nat.toDigits 10 n.natAbs) = some (n.natAbs : Int) := by
      simp [readSigned]
    rw [hread]
    exact congrArg some (by omega)

/-- A written 64-bit integer reads back as itself. -/
@[simp] theorem readInt64_writeInteger (n : Int64) : readInt64 (writeInteger n.toInt) = some n := by
  rw [readInt64, readSigned_writeInteger, Option.bind_some,
    if_pos ⟨Int64.minValue_le_toInt n, Int64.toInt_le n⟩, Int64.ofInt_toInt]

end TableFixture.Decimal
