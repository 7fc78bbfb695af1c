import TableFixture.Text.Utf8

/-!
# Texts from bytes that may be none

Bytes can be turned into a text whatever they are.  Where a character cannot be read, the first
byte and those after it with which a character could still begin are replaced, all together, by
one character that stands for what could not be read; reading goes on after them.

Main results:

- Theorem `decodeLossy_of_decode`: bytes that decode are read as what they decode to.
-/

namespace TableFixture.Text.Utf8

/-- The character that stands for bytes that belong to none. -/
def replacement : Char := '\uFFFD'

/-- Whether a byte can be one of a character after the first. -/
def isContinuation (b : UInt8) : Bool := decide (128 ≤ b.toNat) && decide (b.toNat < 192)

/-- Whether a first byte announces three or four bytes, and the second can follow it: overlong
forms, surrogates and what lies beyond all characters are told by the second byte. -/
def allowsSecond (lead second : UInt8) : Bool :=
  if lead = 0xE0 then decide (0xA0 ≤ second.toNat) && isContinuation second
  else if lead = 0xED then isContinuation second && decide (second.toNat < 0xA0)
  else if lead = 0xF0 then decide (0x90 ≤ second.toNat) && isContinuation second
  else if lead = 0xF4 then isContinuation second && decide (second.toNat < 0x90)
  else decide (0xE0 ≤ lead.toNat) && decide (lead.toNat < 0xF4) && isContinuation second

/-- The number of bytes that are replaced together, where no character can be read. -/
def brokenLength : List UInt8 → Nat
  | lead :: second :: rest =>
    if allowsSecond lead second then
      if 0xF0 ≤ lead.toNat ∧ (rest.head?.map isContinuation).getD false then 3 else 2
    else 1
  | _ => 1

theorem brokenLength_pos (bytes : List UInt8) : 0 < brokenLength bytes := by
  unfold brokenLength
  split
  · split
    · split <;> decide
    · decide
  · decide

/-- What cannot be read is no longer than what was given. -/
theorem length_decodeFrom_le (read : List Char) (bytes : List UInt8) :
    (decodeFrom read bytes).2.length ≤ bytes.length := by
  fun_induction decodeFrom read bytes with
  | case1 read bytes h ih =>
    rw [List.length_drop] at ih
    omega
  | case2 read bytes h => exact Nat.le_refl _

/-- The text that the bytes encode, with replacements for those that encode none. -/
def decodeLossy (bytes : List UInt8) : List Char :=
  let rest := (decodeFrom [] bytes).2
  if _h : rest = [] then (decodeFrom [] bytes).1
  else (decodeFrom [] bytes).1 ++ replacement :: decodeLossy (rest.drop (brokenLength rest))
termination_by bytes.length
decreasing_by
  have hle : rest.length ≤ bytes.length := length_decodeFrom_le [] bytes
  have hpos := brokenLength_pos rest
  have hne : 0 < rest.length := List.length_pos_iff.2 _h
  have hdrop : (rest.drop (brokenLength rest)).length = rest.length - brokenLength rest :=
    List.length_drop
  exact Nat.lt_of_le_of_lt (Nat.le_of_eq hdrop) (by omega)

/-- Bytes that decode are read as what they decode to. -/
theorem decodeLossy_of_decode {bytes : List UInt8} {cs : List Char} (h : decode bytes = .ok cs) :
    decodeLossy bytes = cs := by
  rw [decode] at h
  unfold decodeLossy
  rcases hread : decodeFrom [] bytes with ⟨ds, rest⟩
  rw [hread] at h
  cases rest with
  | nil => exact Except.ok.inj h
  | cons b rest => cases h

end TableFixture.Text.Utf8
