import TableFixture.Decimal.Layout
import TableFixture.Proofs.Decimal.Rounding

/-!
# Numbers that are read back

Every layout writes a number so that it reads back as itself: digits in their places or
with a power of ten are one decimal, and the shortest decimal rounds to the number it was
searched for.

Main results:

- Theorem `readDecimal_append_point`: digits around a point are one number.
- Theorems `roundsTo_writePositional` and `roundsTo_writeScientific`: both ways of laying
  out digits keep the decimal.
- Theorem `readBinary64_write`: a written number reads back as itself, up to which value
  that is not a number.
-/

namespace TableFixture.Decimal

open Binary64 (infinityCode)

/-! ## Reading the parts of a decimal -/

/-- An exponent neither begins with a digit nor with a point. -/
theorem head?_of_readExponent {tail : List Char} {e : Int} (h : readExponent tail = some e) :
    ∀ c ∈ tail.head?, c.isDigit = false ∧ c ≠ '.' := by
  intro c hc
  cases tail with
  | nil => exact absurd hc (by simp)
  | cons d ds =>
      rcases Option.some.inj hc with rfl
      rw [readExponent] at h
      split at h
      next hletter =>
        simp only [Bool.or_eq_true, beq_iff_eq] at hletter
        rcases hletter with rfl | rfl <;> decide
      next => exact absurd h (by simp)

/-- The digits at the start of a text end where the rest has none. -/
theorem takeWhile_isDigit_append {digits : List Char} (hdigits : ∀ c ∈ digits, c.isDigit = true)
    {tail : List Char} (htail : ∀ c ∈ tail.head?, c.isDigit = false) :
    (digits ++ tail).takeWhile Char.isDigit = digits
      ∧ (digits ++ tail).dropWhile Char.isDigit = tail := by
  rw [List.takeWhile_append_of_pos hdigits, List.dropWhile_append_of_pos hdigits]
  cases tail with
  | nil => simp
  | cons c cs =>
      have hc : c.isDigit = false := htail c rfl
      simp [hc]

/-- Digits and an exponent are read as the number of the digits and the exponent. -/
theorem readDecimal_append {digits : List Char} (tail : List Char) {e : Int} (hne : digits ≠ [])
    (hdigits : ∀ c ∈ digits, c.isDigit = true) (htail : readExponent tail = some e) :
    readDecimal (digits ++ tail) = some (Nat.ofDigitChars 10 digits 0, e) := by
  have hhead := head?_of_readExponent htail
  rcases takeWhile_isDigit_append hdigits (fun c hc => (hhead c hc).1) with ⟨htake, hdrop⟩
  have hempty : digits.isEmpty = false := List.isEmpty_eq_false_iff.2 hne
  simp only [readDecimal, htake, hdrop]
  split
  next rest => exact absurd rfl (hhead '.' rfl).2
  next => simp [hempty, htail]

/-- Digits around a point and an exponent are read as the number of all digits, the
exponent lowered by the places after the point. -/
theorem readDecimal_append_point (whole fraction tail : List Char) {e : Int} (hne : whole ≠ [])
    (hwhole : ∀ c ∈ whole, c.isDigit = true) (hfraction : ∀ c ∈ fraction, c.isDigit = true)
    (htail : readExponent tail = some e) :
    readDecimal (whole ++ '.' :: (fraction ++ tail))
      = some (Nat.ofDigitChars 10 (whole ++ fraction) 0, e - fraction.length) := by
  have hhead := head?_of_readExponent htail
  have hpoint : ∀ c ∈ ('.' :: (fraction ++ tail)).head?, c.isDigit = false := by
    intro c hc
    rcases Option.some.inj hc with rfl
    decide
  rcases takeWhile_isDigit_append hwhole hpoint with ⟨htake, hdrop⟩
  rcases takeWhile_isDigit_append hfraction (fun c hc => (hhead c hc).1) with ⟨htake', hdrop'⟩
  have hempty : whole.isEmpty = false := List.isEmpty_eq_false_iff.2 hne
  simp only [readDecimal, htake, hdrop, htake', hdrop', hempty, Bool.false_and,
    Bool.false_eq_true, if_false, htail, Option.map_some]

/-- A decimal has no sign. -/
theorem readSign_of_readDecimal {cs : List Char} {d : Nat × Int} (h : readDecimal cs = some d) :
    readSign cs = (false, cs) := by
  unfold readSign
  split
  next => exact absurd h (by simp [readDecimal])
  next => exact absurd h (by simp [readDecimal])
  next => rfl

/-! ## Digits in their places -/

/-- The text is a decimal, and the nearest number to it has the given code. -/
def RoundsTo (cs : List Char) (code : Nat) : Prop :=
  ∃ n e, readDecimal cs = some (n, e) ∧ nearestCode n e = code

/-- Zeros after the digits are factors of ten. -/
theorem ofDigitChars_append_zeros (digits : List Char) (zeros : Nat) :
    Nat.ofDigitChars 10 (digits ++ List.replicate zeros '0') 0
      = Nat.ofDigitChars 10 digits 0 * 10 ^ zeros := by
  rw [Nat.ofDigitChars_append, Nat.ofDigitChars_replicate_zero, Nat.mul_comm]

/-- Zeros before the digits do not count. -/
theorem ofDigitChars_zeros_append (digits : List Char) (zeros : Nat) :
    Nat.ofDigitChars 10 (List.replicate zeros '0' ++ digits) 0 = Nat.ofDigitChars 10 digits 0 := by
  rw [Nat.ofDigitChars_append, Nat.ofDigitChars_replicate_zero, Nat.mul_zero]

/-- A list of zeros is a list of digits. -/
theorem isDigit_of_mem_replicate_zero {zeros : Nat} {c : Char}
    (h : c ∈ List.replicate zeros '0') : c.isDigit = true := by
  rw [List.eq_of_mem_replicate h]
  decide

theorem isDigit_of_mem_zero : ∀ c ∈ ['0'], c.isDigit = true :=
  List.forall_mem_singleton.2 rfl

/-- Digits around a point round to all digits and the power of ten of the last place. -/
theorem roundsTo_point {whole fraction : List Char} (hne : whole ≠ [])
    (hwhole : ∀ c ∈ whole, c.isDigit = true) (hfraction : ∀ c ∈ fraction, c.isDigit = true) :
    RoundsTo (whole ++ '.' :: fraction)
      (nearestCode (Nat.ofDigitChars 10 (whole ++ fraction) 0) (-(fraction.length : Int))) := by
  have hread := readDecimal_append_point whole fraction [] hne hwhole hfraction rfl
  rw [List.append_nil] at hread
  refine ⟨_, _, hread, ?_⟩
  rw [Int.zero_sub]

/-- Digits and zeros up to the units, perhaps with a point and one more zero. -/
theorem roundsTo_zeros (wholePoint : Bool) {digits : List Char} (hne : digits ≠ [])
    (hdigits : ∀ c ∈ digits, c.isDigit = true) (zeros : Nat) :
    RoundsTo (digits ++ List.replicate zeros '0' ++ (if wholePoint then ['.', '0'] else []))
      (nearestCode (Nat.ofDigitChars 10 digits 0) zeros) := by
  have hwhole : ∀ c ∈ digits ++ List.replicate zeros '0', c.isDigit = true := by
    intro c hc
    rcases List.mem_append.1 hc with hc | hc
    · exact hdigits c hc
    · exact isDigit_of_mem_replicate_zero hc
  have hwhole_ne : digits ++ List.replicate zeros '0' ≠ [] := by simp [hne]
  cases wholePoint with
  | true =>
      rcases roundsTo_point hwhole_ne hwhole isDigit_of_mem_zero with
        ⟨n, e, hread, hcode⟩
      refine ⟨n, e, hread, ?_⟩
      have hzero : ['0'] = List.replicate 1 '0' := rfl
      rw [hcode, hzero, List.append_assoc, List.replicate_append_replicate,
        ofDigitChars_append_zeros, nearestCode_mul_pow]
      congr 1
      simp only [List.length_replicate]
      omega
  | false =>
      have hread := readDecimal_append [] hwhole_ne hwhole rfl
      refine ⟨_, _, hread, ?_⟩
      rw [ofDigitChars_append_zeros, nearestCode_mul_pow, Int.zero_add]

/-- Digits in their places round to what the digits and the power of ten round to. -/
theorem roundsTo_writePositional (wholePoint : Bool) {digits : List Char} (hne : digits ≠ [])
    (hdigits : ∀ c ∈ digits, c.isDigit = true) (exponent : Int) :
    RoundsTo (writePositional wholePoint digits exponent)
      (nearestCode (Nat.ofDigitChars 10 digits 0) exponent) := by
  cases exponent with
  | ofNat zeros => exact roundsTo_zeros wholePoint hne hdigits zeros
  | negSucc k =>
      rw [writePositional]
      split
      next hlength =>
        -- all digits stand after the point, behind zeros
        have hfraction : ∀ c ∈ List.replicate (k + 1 - digits.length) '0' ++ digits,
            c.isDigit = true := by
          intro c hc
          rcases List.mem_append.1 hc with hc | hc
          · exact isDigit_of_mem_replicate_zero hc
          · exact hdigits c hc
        rcases roundsTo_point (by simp) isDigit_of_mem_zero hfraction with
          ⟨n, e, hread, hcode⟩
        refine ⟨n, e, hread, ?_⟩
        have hzero : ['0'] = List.replicate 1 '0' := rfl
        rw [hcode, hzero, ofDigitChars_zeros_append, ofDigitChars_zeros_append]
        congr 1
        simp only [List.length_append, List.length_replicate]
        omega
      next hlength =>
        -- the point stands between two digits
        have hwhole : ∀ c ∈ digits.take (digits.length - (k + 1)), c.isDigit = true :=
          fun c hc => hdigits c (List.mem_of_mem_take hc)
        have hfraction : ∀ c ∈ digits.drop (digits.length - (k + 1)), c.isDigit = true :=
          fun c hc => hdigits c (List.mem_of_mem_drop hc)
        have hwhole_ne : digits.take (digits.length - (k + 1)) ≠ [] := by
          intro hnil
          rcases List.take_eq_nil_iff.1 hnil with hnil | hnil
          · omega
          · exact hne hnil
        rcases roundsTo_point hwhole_ne hwhole hfraction with ⟨n, e, hread, hcode⟩
        refine ⟨n, e, hread, ?_⟩
        rw [hcode, List.take_append_drop]
        congr 1
        rw [List.length_drop]
        omega

/-! ## Digits with a power of ten -/

/-- A power of ten that was marked reads back as the power. -/
theorem readExponent_mark (plusSign : Bool) (power : Int) :
    readExponent ('e' :: ((if plusSign && decide (0 ≤ power) then ['+'] else [])
      ++ writeInteger power)) = some power := by
  have hletter (cs : List Char) : readExponent ('e' :: cs) = readSigned cs := rfl
  rw [hletter]
  split
  next hplus =>
    simp only [Bool.and_eq_true, decide_eq_true_eq] at hplus
    have hdigits : writeInteger power = Nat.toDigits 10 power.natAbs := by
      rw [writeInteger, if_neg (by omega)]
    have hread : readSigned ('+' :: Nat.toDigits 10 power.natAbs) = some (power.natAbs : Int) := by
      simp [readSigned, readSign]
    rw [hdigits, List.singleton_append, hread]
    exact congrArg some (by omega)
  next => exact readSigned_writeInteger power

/-- A leading digit with a power of ten rounds to what the digits with the power of their
last one round to. -/
theorem roundsTo_writeScientific (plusSign : Bool) {digits : List Char} (hne : digits ≠ [])
    (hdigits : ∀ c ∈ digits, c.isDigit = true) (exponent : Int) :
    RoundsTo (writeScientific plusSign digits (leadingPower digits exponent))
      (nearestCode (Nat.ofDigitChars 10 digits 0) exponent) := by
  have hmark := readExponent_mark plusSign (leadingPower digits exponent)
  match digits, hne, hdigits with
  | [d], hne, hdigits =>
      refine ⟨_, _, readDecimal_append _ hne hdigits hmark, ?_⟩
      congr 1
      simp [leadingPower]
  | d :: d' :: rest, _, hdigits =>
      have hfirst : ∀ c ∈ [d], c.isDigit = true := by
        intro c hc
        exact hdigits c (List.mem_cons.2 (.inl (List.mem_singleton.1 hc)))
      have hrest : ∀ c ∈ d' :: rest, c.isDigit = true := fun c hc =>
        hdigits c (List.mem_cons_of_mem d hc)
      refine ⟨_, _, readDecimal_append_point [d] (d' :: rest) _ (by simp) hfirst hrest hmark, ?_⟩
      rw [List.singleton_append]
      congr 1
      simp only [leadingPower, List.length_cons]
      omega

/-! ## Numbers -/

/-- The text of a finite magnitude rounds to it. -/
theorem roundsTo_writeMagnitude (layout : Layout) {code : Nat} (h : code < infinityCode) :
    RoundsTo (layout.writeMagnitude code) code := by
  have hshortest := nearestCode_shortest layout.tie h
  unfold Layout.writeMagnitude
  split
  next hzero =>
    have hread : RoundsTo (writePositional layout.wholePoint ['0'] 0) _ :=
      roundsTo_writePositional layout.wholePoint (by simp) isDigit_of_mem_zero 0
    rw [hzero]
    exact hread
  next =>
    have hne : Nat.toDigits 10 (shortest layout.tie code).digits ≠ [] := Nat.toDigits_ne_nil
    have hdigits : ∀ c ∈ Nat.toDigits 10 (shortest layout.tie code).digits, c.isDigit = true :=
      fun c hc => Nat.isDigit_of_mem_toDigits (by decide) (by decide) hc
    have hvalue : nearestCode
        (Nat.ofDigitChars 10 (Nat.toDigits 10 (shortest layout.tie code).digits) 0)
        (shortest layout.tie code).exponent = code := by
      rw [Nat.ofDigitChars_ten_toDigits, hshortest]
    dsimp only
    split
    · have hread := roundsTo_writePositional layout.wholePoint hne hdigits
        (shortest layout.tie code).exponent
      rwa [hvalue] at hread
    · have hread := roundsTo_writeScientific layout.plusSign hne hdigits
        (shortest layout.tie code).exponent
      rwa [hvalue] at hread

/-- A minus sign before a text without a sign is found again. -/
theorem readSign_signed {cs : List Char} (h : readSign cs = (false, cs)) (negative : Bool) :
    readSign (if negative then '-' :: cs else cs) = (negative, cs) := by
  cases negative with
  | true => rfl
  | false => exact h

/-- A decimal is read as the number of its code, whatever its sign. -/
theorem readBinary64_of_roundsTo {cs : List Char} {x : Binary64} (h : RoundsTo cs x.code) :
    readBinary64 (if x.negative then '-' :: cs else cs) = some x := by
  rcases h with ⟨n, e, hread, hcode⟩
  have hnumber : nearest x.negative n e = x := by
    rcases x with ⟨negative, code, hlt⟩
    simp only [nearest, hcode]
  simp only [readBinary64, readSign_signed (readSign_of_readDecimal hread), hread, hnumber]

/-- A number is not a number, infinite, or of a finite code. -/
theorem isNaN_or_isInfinite_or_lt (x : Binary64) :
    x.isNaN = true ∨ x.isInfinite = true ∨ x.code < infinityCode := by
  simp only [Binary64.isNaN, Binary64.isInfinite, decide_eq_true_eq, beq_iff_eq]
  omega

/-- A finite number is its magnitude after its sign. -/
theorem write_of_lt (layout : Layout) {x : Binary64} (h : x.code < infinityCode) :
    layout.write x = if x.negative then '-' :: layout.writeMagnitude x.code
      else layout.writeMagnitude x.code := by
  have hnan : x.isNaN = false := decide_eq_false (by omega)
  have hinf : x.isInfinite = false := beq_false_of_ne (by omega)
  simp only [Layout.write, hnan, hinf, Bool.false_eq_true, if_false]

/-- A number that was written reads back as itself; what is not a number reads back as the
quiet value of positive sign. -/
theorem readBinary64_write (layout : Layout) (x : Binary64) :
    readBinary64 (layout.write x) = some (if x.isNaN then .quietNaN false else x) := by
  rcases isNaN_or_isInfinite_or_lt x with hnan | hinf | hfinite
  · rw [write_of_isNaN layout hnan, if_pos hnan]
    rfl
  · rw [write_of_isInfinite layout hinf]
    rcases x with ⟨negative, code, hlt⟩
    have hcode : code = infinityCode := by simpa [Binary64.isInfinite] using hinf
    subst hcode
    cases negative <;> rfl
  · have hnan : x.isNaN = false := decide_eq_false (by omega)
    rw [write_of_lt layout hfinite, hnan, if_neg Bool.false_ne_true]
    exact readBinary64_of_roundsTo (roundsTo_writeMagnitude layout hfinite)

/-- A finite number reads back as itself. -/
theorem readBinary64_write_of_isFinite (layout : Layout) {x : Binary64}
    (h : x.isFinite = true) : readBinary64 (layout.write x) = some x := by
  rw [Binary64.isFinite_eq, Bool.and_eq_true, Bool.not_eq_true'] at h
  rw [readBinary64_write, h.1, if_neg Bool.false_ne_true]

end TableFixture.Decimal
