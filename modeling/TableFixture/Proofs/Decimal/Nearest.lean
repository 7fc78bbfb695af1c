import Mathlib.Data.Rat.Cast.Order
import Mathlib.Data.Int.Cast.Lemmas
import TableFixture.Proofs.Decimal.Order
import TableFixture.Proofs.Decimal.ReadBack

/-!
# Correct rounding of decimals

A decimal text is read as the number nearest to its exact value, and as one of even code if two
are equally near.  Rounding looks at one grid only, that of the 53 bits of the quotient.  All
numbers from the first one of that exponent on lie on the grid, and the smaller ones lie below
that first one, which the quotient has reached.

Main results:

- Theorem `roundHalfEven_nearest`: the nearest whole number, a tie to the even one.
- Theorem `roundCode_nearest`: the nearest magnitude, a tie to the even code.
- Theorem `isNearest_nearestCode`: the code that a decimal is read as is the nearest.
- Theorem `readBinary64_of_decimalOf?`: what a text is read as is nearest to its decimal.
-/

namespace TableFixture

namespace Binary64

/-! ## Whole numbers -/

/-- Multiples other than the two around a number are a step or more away from them. -/
theorem multiple_cases (k q den : Nat) :
    k * den + den ≤ q * den ∨ k = q ∨ k = q + 1 ∨ q * den + 2 * den ≤ k * den := by
  rcases Nat.lt_trichotomy k q with hlt | heq | hgt
  · left
    rw [← Nat.succ_mul]
    exact Nat.mul_le_mul_right den hlt
  · exact .inr (.inl heq)
  · rcases Nat.lt_or_eq_of_le hgt with hgt | heq
    · right; right; right
      rw [← Nat.add_mul]
      exact Nat.mul_le_mul_right den hgt
    · exact .inr (.inr (.inl heq.symm))

/-- No whole number is nearer to a quotient than the rounded one, which is even if another one
is as near. -/
theorem roundHalfEven_nearest (num : Nat) {den : Nat} (hden : 0 < den) (k : Nat) :
    ((num : Int) - (roundHalfEven num den * den : Nat)).natAbs
        ≤ ((num : Int) - (k * den : Nat)).natAbs ∧
      (((num : Int) - (roundHalfEven num den * den : Nat)).natAbs
          = ((num : Int) - (k * den : Nat)).natAbs →
        k ≠ roundHalfEven num den → roundHalfEven num den % 2 = 0) := by
  have hsplit := Nat.div_add_mod' num den
  have hrest := Nat.mod_lt num hden
  have hmultiple := multiple_cases k (num / den) den
  have hnext : (num / den + 1) * den = num / den * den + den := Nat.succ_mul _ _
  unfold roundHalfEven
  dsimp only
  generalize num / den = q at *
  generalize num % den = r at *
  split
  next hdown =>
    rcases hmultiple with h | rfl | rfl | h <;> omega
  next hdown =>
    split
    next hup =>
      rcases hmultiple with h | rfl | rfl | h <;> omega
    next hup =>
      rcases Nat.mod_two_eq_zero_or_one q with heven | hodd
      · rw [heven, Nat.add_zero]
        rcases hmultiple with h | rfl | rfl | h <;> omega
      · rw [hodd]
        rcases hmultiple with h | rfl | rfl | h <;> omega

/-! ## Magnitudes -/

/-- The magnitude of a significand of 53 bits, or of a smaller one in the first exponent. -/
theorem units_of_significand {step significand : Nat} (hle : significand ≤ 2 ^ 53)
    (hlow : 0 < step → 2 ^ 52 ≤ significand) :
    units (step * 2 ^ 52 + significand) = significand * 2 ^ step := by
  by_cases hsmall : significand < 2 ^ 52
  · have hstep : step = 0 := by omega
    rw [hstep, Nat.zero_mul, Nat.zero_add, units, if_pos hsmall, Nat.pow_zero, Nat.mul_one]
  · rw [units, if_neg (by omega)]
    by_cases hcarry : significand = 2 ^ 53
    · have hexponent : (step * 2 ^ 52 + significand) / 2 ^ 52 - 1 = step + 1 := by omega
      have hfraction : (step * 2 ^ 52 + significand) % 2 ^ 52 = 0 := by omega
      rw [hexponent, hfraction, hcarry, Nat.pow_succ 2 step]
      omega
    · have hexponent : (step * 2 ^ 52 + significand) / 2 ^ 52 - 1 = step := by omega
      have hfraction : 2 ^ 52 + (step * 2 ^ 52 + significand) % 2 ^ 52 = significand := by omega
      rw [hexponent, hfraction]

/-- A magnitude lies on the grid of an exponent or below its first significand. -/
theorem units_cases (code step : Nat) :
    2 ^ step ∣ units code ∨ 0 < step ∧ units code < 2 ^ 52 * 2 ^ step := by
  by_cases hgrid : step ≤ code / 2 ^ 52 - 1
  · left
    rw [units]
    split
    next hsmall =>
      have hstep : step = 0 := by omega
      rw [hstep, Nat.pow_zero]
      exact Nat.one_dvd code
    next => exact Nat.dvd_mul_left_of_dvd (Nat.pow_dvd_pow 2 hgrid) _
  · refine .inr ⟨by omega, ?_⟩
    rw [units]
    split
    next hsmall => exact Nat.lt_of_lt_of_le hsmall (Nat.le_mul_of_pos_right _ (Nat.two_pow_pos _))
    next =>
      calc
        (2 ^ 52 + code % 2 ^ 52) * 2 ^ (code / 2 ^ 52 - 1)
            < 2 ^ 53 * 2 ^ (code / 2 ^ 52 - 1) :=
          Nat.mul_lt_mul_of_pos_right (by omega) (Nat.two_pow_pos _)
        _ = 2 ^ 52 * 2 ^ (code / 2 ^ 52 - 1 + 1) := by
          rw [Nat.pow_succ 2 (code / 2 ^ 52 - 1)]
          omega
        _ ≤ 2 ^ 52 * 2 ^ step := Nat.mul_le_mul_left _ (Nat.pow_le_pow_right (by decide) (by omega))

/-- No magnitude is nearer to a quotient than the rounded one, whose code is even if another one
is as near. -/
theorem roundCode_nearest {num den : Nat} (hden : 0 < den) (h : roundCode num den < infinityCode)
    (code : Nat) :
    ((num : Int) - (units (roundCode num den) * den : Nat)).natAbs
        ≤ ((num : Int) - (units code * den : Nat)).natAbs ∧
      (((num : Int) - (units (roundCode num den) * den : Nat)).natAbs
          = ((num : Int) - (units code * den : Nat)).natAbs →
        units code ≠ units (roundCode num den) → roundCode num den % 2 = 0) := by
  have hle := significand_le num hden
  have hlow := le_significand num hden
  have hfirst := first_significand_le num hden
  have hstep_pos := Nat.mul_pos hden (Nat.two_pow_pos ((num / den).log2 - 52))
  have hcode : roundCode num den = ((num / den).log2 - 52) * 2 ^ 52
      + roundHalfEven num (den * 2 ^ ((num / den).log2 - 52)) := by
    unfold roundCode at h ⊢
    dsimp only at h ⊢
    omega
  generalize (num / den).log2 - 52 = step at *
  have hnearest := roundHalfEven_nearest num hstep_pos
  generalize roundHalfEven num (den * 2 ^ step) = significand at *
  rw [hcode, units_of_significand hle hlow, Nat.mul_assoc, Nat.mul_comm (2 ^ step)]
  rcases units_cases code step with ⟨k, hk⟩ | ⟨hstep, hbelow⟩
  · -- both magnitudes are multiples of one step
    have hscaled : units code * den = k * (den * 2 ^ step) := by
      rw [hk, Nat.mul_comm (2 ^ step), Nat.mul_assoc, Nat.mul_comm (2 ^ step)]
    rw [hscaled]
    refine ⟨(hnearest k).1, fun heq hne => ?_⟩
    have heven := (hnearest k).2 heq (by rintro rfl; exact hne (by rw [hk, Nat.mul_comm]))
    omega
  · -- the first significand of the exponent is nearer than what is below it
    have hscaled : units code * den < 2 ^ 52 * (den * 2 ^ step) := by
      rw [Nat.mul_comm den, ← Nat.mul_assoc]
      exact Nat.mul_lt_mul_of_pos_right hbelow hden
    have hfirst_le := hfirst hstep
    have hfirst_nearest := (hnearest (2 ^ 52)).1
    omega

end Binary64

namespace Decimal

open Binary64 (infinityCode roundCode units)

/-! ## Decimals -/

/-- The distance of a decimal from a code, as that of the quotient that is rounded for it. -/
theorem distance_eq (d : Unsigned) (code : Nat) :
    d.distance code
      = (((2 ^ 1074 * (d.digits * 10 ^ d.exponent.toNat) : Nat) : Int)
          - (units code * 10 ^ (-d.exponent).toNat : Nat)).natAbs
        / ((2 ^ 1074 * 10 ^ (-d.exponent).toNat : Nat) : ℚ) := by
  rw [Unsigned.distance, Unsigned.exact, magnitude, ten_zpow_eq]
  generalize 10 ^ d.exponent.toNat = num
  have hden : 0 < 10 ^ (-d.exponent).toNat := Nat.pow_pos (by decide)
  generalize 10 ^ (-d.exponent).toNat = den at hden ⊢
  have hpos (p : Nat) : 0 < 2 ^ p := Nat.two_pow_pos p
  have hunit := hpos 1074
  have hcast (p : Nat) : (2 : ℚ) ^ p = (2 ^ p : Nat) := by push_cast; rfl
  rw [hcast 1074]
  generalize 2 ^ 1074 = unit at hunit ⊢
  have hden' : (0 : ℚ) < den := Nat.cast_pos.2 hden
  have hunit' : (0 : ℚ) < unit := Nat.cast_pos.2 hunit
  have hquotient : (d.digits : ℚ) * (num / den) - units code / unit
      = (unit * (d.digits * num) - units code * den) / (unit * den) := by
    field_simp
  rw [hquotient, abs_div, abs_of_pos (mul_pos hunit' hden'), Nat.cast_natAbs]
  push_cast
  rfl

/-- No finite code is nearer to the decimal, and if another one is as near, this one is even. -/
def IsNearest (d : Unsigned) (code : Nat) : Prop :=
  ∀ other < infinityCode, d.distance code ≤ d.distance other ∧
    (d.distance code = d.distance other → other ≠ code → code % 2 = 0)

/-- A decimal is read as the nearest code. -/
theorem isNearest_nearestCode (d : Unsigned)
    (h : nearestCode d.digits d.exponent < infinityCode) :
    IsNearest d (nearestCode d.digits d.exponent) := by
  intro other hother
  have hden : 0 < 10 ^ (-d.exponent).toNat := Nat.pow_pos (by decide)
  have hpos (p : Nat) : 0 < 2 ^ p := Nat.two_pow_pos p
  have hscale : (0 : ℚ) < (2 ^ 1074 * 10 ^ (-d.exponent).toNat : Nat) :=
    Nat.cast_pos.2 (Nat.mul_pos (hpos 1074) hden)
  rw [nearestCode_eq] at h ⊢
  rcases Binary64.roundCode_nearest hden h other with ⟨hle, htie⟩
  rw [distance_eq, distance_eq, div_le_div_iff_of_pos_right hscale, Nat.cast_le,
    div_left_inj' (ne_of_gt hscale), Nat.cast_inj]
  refine ⟨hle, fun heq hne => htie heq fun hunits => hne ?_⟩
  exact Nat.le_antisymm
    ((Binary64.units_le_units_iff (Nat.le_of_lt hother) (Nat.le_of_lt h)).1 (Nat.le_of_eq hunits))
    ((Binary64.units_le_units_iff (Nat.le_of_lt h) (Nat.le_of_lt hother)).1
      (Nat.le_of_eq hunits.symm))

/-! ## Texts -/

/-- The decimal of a text, and whether there is a minus sign before it. -/
def decimalOf? (cs : List Char) : Option (Bool × Unsigned) :=
  (readDecimal (readSign cs).2).map fun (n, e) => ((readSign cs).1, ⟨n, e⟩)

/-- A decimal text is read as a number of its sign whose code is the nearest, unless that is too
great. -/
theorem readBinary64_of_decimalOf? {cs : List Char} {negative : Bool} {d : Unsigned}
    (h : decimalOf? cs = some (negative, d)) :
    ∃ x, readBinary64 cs = some x ∧ x.negative = negative ∧
      (x.isFinite = true → IsNearest d x.code) := by
  rcases Option.map_eq_some_iff.1 h with ⟨⟨n, e⟩, hread, heq⟩
  obtain ⟨rfl, rfl⟩ := Prod.mk.inj heq
  refine ⟨nearest (readSign cs).1 n e, ?_, rfl, fun hfinite => ?_⟩
  · simp only [readBinary64, hread]
  · exact isNearest_nearestCode ⟨n, e⟩ (of_decide_eq_true hfinite)

/-- A finite number is written as a decimal after its sign. -/
theorem exists_decimalOf?_write (layout : Layout) {x : Binary64} (h : x.isFinite = true) :
    ∃ d, decimalOf? (layout.write x) = some (x.negative, d) := by
  have hcode : x.code < infinityCode := of_decide_eq_true h
  rcases roundsTo_writeMagnitude layout hcode with ⟨n, e, hread, -⟩
  have hsign := readSign_signed (readSign_of_readDecimal hread) x.negative
  refine ⟨⟨n, e⟩, ?_⟩
  rw [decimalOf?, write_of_lt layout hcode, hsign, hread]
  rfl

end Decimal

end TableFixture
