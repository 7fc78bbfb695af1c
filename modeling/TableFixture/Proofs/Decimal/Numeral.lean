import TableFixture.Proofs.Decimal.ReadBack
import TableFixture.Text.Blank

/-!
# The texts of numbers

Integers and numbers are written in few characters, none of which is a blank.  A layout
that keeps the point of whole numbers never writes what could be read as an integer,
while every text of an integer is also the text of a number.

Main results:

- Theorem `readInt64_write`: a number written with its point is no integer.
- Theorems `isSome_readBinary64_of_readSigned` and `readInt64_eq_none_of_outOfRange`: what
  reads as an integer reads as a number, out of range as a number only.
- Theorems `isDecimalPart_of_mem_writeInteger` and `isDecimalPart_of_mem_write`: the
  characters of integers and finite numbers.
- Theorem `isNumeral_of_mem_write`: the characters of all numbers.
-/

namespace TableFixture.Decimal

open Binary64 (infinityCode)

/-! ## Numbers that are no integers -/

/-- A text that holds something other than digits after its sign is no integer, in range or
not. -/
theorem readSigned_eq_none {cs : List Char} {c : Char} (hmem : c ∈ (readSign cs).2)
    (hc : c.isDigit = false) : readSigned cs = none := by
  have hall : (readSign cs).2.all Char.isDigit = false := by
    rw [List.all_eq_false]
    exact ⟨c, hmem, by simp [hc]⟩
  have hdigits : readDigits (readSign cs).2 = none := by simp [readDigits, hall]
  simp [readSigned, hdigits]

theorem readInt64_eq_none {cs : List Char} {c : Char} (hmem : c ∈ (readSign cs).2)
    (hc : c.isDigit = false) : readInt64 cs = none := by
  rw [readInt64, readSigned_eq_none hmem hc, Option.bind_none]

/-- Digits in their places show the point, if whole numbers keep it. -/
theorem point_mem_writePositional (digits : List Char) (exponent : Int) :
    '.' ∈ writePositional true digits exponent := by
  cases exponent with
  | ofNat zeros => simp [writePositional]
  | negSucc k =>
      rw [writePositional]
      split <;> simp

/-- The power of ten shows its letter. -/
theorem letter_mem_writeScientific (plusSign : Bool) (digits : List Char) (power : Int) :
    'e' ∈ writeScientific plusSign digits power := by
  match digits with
  | [] => simp [writeScientific]
  | [d] => simp [writeScientific]
  | d :: d' :: rest => simp [writeScientific]

/-- A magnitude that was written with the point of whole numbers shows that it is one. -/
theorem exists_mem_writeMagnitude {layout : Layout} (hpoint : layout.wholePoint = true)
    (code : Nat) : ∃ c ∈ layout.writeMagnitude code, c.isDigit = false := by
  unfold Layout.writeMagnitude
  rw [hpoint]
  split
  · exact ⟨'.', point_mem_writePositional _ _, by decide⟩
  · dsimp only
    split
    · exact ⟨'.', point_mem_writePositional _ _, by decide⟩
    · exact ⟨'e', letter_mem_writeScientific _ _ _, by decide⟩

/-- A number that was written with the point of whole numbers is no integer. -/
theorem readInt64_write {layout : Layout} (hpoint : layout.wholePoint = true) (x : Binary64) :
    readInt64 (layout.write x) = none := by
  rcases isNaN_or_isInfinite_or_lt x with hnan | hinf | hfinite
  · rw [write_of_isNaN layout hnan]
    decide
  · rw [write_of_isInfinite layout hinf]
    cases x.negative <;> decide
  · rcases roundsTo_writeMagnitude layout hfinite with ⟨n, e, hread, -⟩
    have hsign := readSign_signed (readSign_of_readDecimal hread) x.negative
    rcases exists_mem_writeMagnitude hpoint x.code with ⟨c, hmem, hc⟩
    rw [write_of_lt layout hfinite]
    exact readInt64_eq_none (by rw [hsign]; exact hmem) hc

/-- What reads as an integer, in range or not, reads as a number. -/
theorem isSome_readBinary64_of_readSigned {cs : List Char} {n : Int} (h : readSigned cs = some n) :
    (readBinary64 cs).isSome = true := by
  have hdigits : (readSign cs).2 ≠ [] ∧ ∀ c ∈ (readSign cs).2, c.isDigit = true := by
    constructor
    · intro hnil
      exact absurd h (by simp [readSigned, hnil, readDigits])
    · intro c hmem
      cases hc : c.isDigit with
      | true => rfl
      | false => exact absurd (readSigned_eq_none hmem hc) (by simp [h])
  have hread := readDecimal_append [] hdigits.1 hdigits.2 rfl
  rw [List.append_nil] at hread
  simp [readBinary64, hread]

/-- What reads as an integer in range reads as a number. -/
theorem isSome_readBinary64_of_readInt64 {cs : List Char} {n : Int64} (h : readInt64 cs = some n) :
    (readBinary64 cs).isSome = true := by
  rcases Option.bind_eq_some_iff.1 h with ⟨k, hsigned, -⟩
  exact isSome_readBinary64_of_readSigned hsigned

/-- An integer out of range reads as a number only. -/
theorem readInt64_eq_none_of_outOfRange {cs : List Char} {n : Int} (h : readSigned cs = some n)
    (hrange : n < Int64.minValue.toInt ∨ Int64.maxValue.toInt < n) : readInt64 cs = none := by
  rw [readInt64, h, Option.bind_some, if_neg]
  rintro ⟨hmin, hmax⟩
  rcases hrange with hlow | hhigh
  · exact absurd hmin (Int.not_le.2 hlow)
  · exact absurd hmax (Int.not_le.2 hhigh)

/-! ## The characters of numbers -/

/-- Whether a character may stand in a decimal. -/
def isDecimalPart (c : Char) : Bool := c.isDigit || ['-', '+', '.', 'e'].contains c

/-- Whether a character may stand in a number or in the name of a value that no decimal
denotes. -/
def isNumeral (c : Char) : Bool :=
  c.isDigit || ['-', '+', '.', 'e', 'i', 'n', 'f', 'N', 'a'].contains c

theorem isNumeral_of_isDecimalPart {c : Char} (h : isDecimalPart c = true) :
    isNumeral c = true := by
  simp only [isDecimalPart, isNumeral, Bool.or_eq_true, List.contains_iff_mem] at h ⊢
  refine h.imp_right fun hmem => ?_
  exact List.mem_append_left ['i', 'n', 'f', 'N', 'a'] hmem

/-- No character of a number is a blank. -/
theorem isBlank_of_isNumeral {c : Char} (h : isNumeral c = true) : Text.isBlank c = false := by
  rw [isNumeral, Bool.or_eq_true] at h
  rcases h with h | h
  · simp only [Char.isDigit, Bool.and_eq_true, decide_eq_true_eq, ge_iff_le, UInt32.le_iff_toNat_le]
      at h
    have hlow : 48 ≤ c.toNat := h.1
    have hhigh : c.toNat ≤ 57 := h.2
    simp [Text.isBlank, Text.blankRanges]
    omega
  · simp only [List.contains_eq_mem, List.mem_cons, List.not_mem_nil, or_false,
      decide_eq_true_eq] at h
    rcases h with rfl | rfl | rfl | rfl | rfl | rfl | rfl | rfl | rfl <;> decide

/-- A digit may stand in a decimal. -/
theorem isDecimalPart_of_isDigit {c : Char} (h : c.isDigit = true) : isDecimalPart c = true := by
  rw [isDecimalPart, h, Bool.true_or]

/-- Integers are written in characters of decimals. -/
theorem isDecimalPart_of_mem_writeInteger {n : Int} {c : Char} (h : c ∈ writeInteger n) :
    isDecimalPart c = true := by
  have hdigits {k : Nat} (hc : c ∈ Nat.toDigits 10 k) : isDecimalPart c = true :=
    isDecimalPart_of_isDigit (Nat.isDigit_of_mem_toDigits (by decide) (by decide) hc)
  unfold writeInteger at h
  split at h
  · rcases List.mem_cons.1 h with rfl | h
    · decide
    · exact hdigits h
  · exact hdigits h

/-- Digits in their places are characters of decimals. -/
theorem isDecimalPart_of_mem_writePositional {wholePoint : Bool} {digits : List Char}
    {exponent : Int} (hdigits : ∀ c ∈ digits, c.isDigit = true) {c : Char}
    (h : c ∈ writePositional wholePoint digits exponent) : isDecimalPart c = true := by
  have hcases : c ∈ digits ∨ c = '0' ∨ c = '.' := by
    cases exponent with
    | ofNat zeros =>
        simp only [writePositional, List.mem_append, List.mem_replicate] at h
        rcases h with (h | h) | h
        · exact .inl h
        · exact .inr (.inl h.2)
        · split at h
          · simp only [List.mem_cons, List.not_mem_nil, or_false] at h
            exact .inr h.symm
          · exact absurd h (by simp)
    | negSucc k =>
        rw [writePositional] at h
        split at h
        · simp only [List.mem_cons, List.mem_append, List.mem_replicate] at h
          rcases h with h | h | h | h
          · exact .inr (.inl h)
          · exact .inr (.inr h)
          · exact .inr (.inl h.2)
          · exact .inl h
        · simp only [List.mem_cons, List.mem_append] at h
          rcases h with h | h | h
          · exact .inl (List.mem_of_mem_take h)
          · exact .inr (.inr h)
          · exact .inl (List.mem_of_mem_drop h)
  rcases hcases with h | rfl | rfl
  · exact isDecimalPart_of_isDigit (hdigits c h)
  · decide
  · decide

/-- Digits with a power of ten are characters of decimals. -/
theorem isDecimalPart_of_mem_writeScientific {plusSign : Bool} {digits : List Char} {power : Int}
    (hdigits : ∀ c ∈ digits, c.isDigit = true) {c : Char}
    (h : c ∈ writeScientific plusSign digits power) : isDecimalPart c = true := by
  have hmark : c ∈ 'e' :: ((if plusSign && decide (0 ≤ power) then ['+'] else [])
      ++ writeInteger power) → isDecimalPart c = true := by
    intro hc
    rcases List.mem_cons.1 hc with rfl | hc
    · decide
    · rcases List.mem_append.1 hc with hc | hc
      · split at hc
        · rcases List.mem_singleton.1 hc with rfl
          decide
        · exact absurd hc (by simp)
      · exact isDecimalPart_of_mem_writeInteger hc
  match digits with
  | [] => exact hmark h
  | [d] =>
      rcases List.mem_cons.1 h with rfl | h
      · exact isDecimalPart_of_isDigit (hdigits _ (by simp))
      · exact hmark h
  | d :: d' :: rest =>
      rw [writeScientific, List.mem_cons, List.mem_cons, List.mem_append] at h
      rcases h with rfl | rfl | h | h
      · exact isDecimalPart_of_isDigit (hdigits _ (by simp))
      · decide
      · exact isDecimalPart_of_isDigit (hdigits c (List.mem_cons_of_mem d h))
      · exact hmark h
      · simp

/-- Magnitudes are written in characters of decimals. -/
theorem isDecimalPart_of_mem_writeMagnitude {layout : Layout} {code : Nat} {c : Char}
    (h : c ∈ layout.writeMagnitude code) : isDecimalPart c = true := by
  unfold Layout.writeMagnitude at h
  split at h
  · exact isDecimalPart_of_mem_writePositional isDigit_of_mem_zero h
  · have hdigits : ∀ d ∈ Nat.toDigits 10 (shortest layout.tie code).digits, d.isDigit = true :=
      fun d hd => Nat.isDigit_of_mem_toDigits (by decide) (by decide) hd
    dsimp only at h
    split at h
    · exact isDecimalPart_of_mem_writePositional hdigits h
    · exact isDecimalPart_of_mem_writeScientific hdigits h

/-- Finite numbers are written in characters of decimals. -/
theorem isDecimalPart_of_mem_write {layout : Layout} {x : Binary64} (hx : x.isFinite = true)
    {c : Char} (h : c ∈ layout.write x) : isDecimalPart c = true := by
  rw [write_of_lt layout (of_decide_eq_true hx)] at h
  split at h
  · rcases List.mem_cons.1 h with rfl | h
    · decide
    · exact isDecimalPart_of_mem_writeMagnitude h
  · exact isDecimalPart_of_mem_writeMagnitude h

theorem isNumeral_of_mem_writeInteger {n : Int} {c : Char} (h : c ∈ writeInteger n) :
    isNumeral c = true :=
  isNumeral_of_isDecimalPart (isDecimalPart_of_mem_writeInteger h)

/-- Numbers are written in characters of numbers. -/
theorem isNumeral_of_mem_write {layout : Layout} {x : Binary64} {c : Char}
    (h : c ∈ layout.write x) : isNumeral c = true := by
  have hnames : ∀ d ∈ ['N', 'a', 'N'] ++ ['-', 'i', 'n', 'f'], isNumeral d = true := by
    simp [isNumeral]
  rcases isNaN_or_isInfinite_or_lt x with hnan | hinf | hfinite
  · rw [write_of_isNaN layout hnan] at h
    exact hnames c (List.mem_append_left _ h)
  · rw [write_of_isInfinite layout hinf] at h
    apply hnames c (List.mem_append_right _ _)
    split at h
    · exact h
    · exact List.mem_cons_of_mem '-' h
  · exact isNumeral_of_isDecimalPart (isDecimalPart_of_mem_write (decide_eq_true hfinite) h)

end TableFixture.Decimal
