import TableFixture.Decimal.Shortest

/-!
# Rounding exact decimals

Rounding a quotient depends on its value alone, not on how numerator and denominator are
chosen, and every finite magnitude is its own rounding.  Hence the digits of a decimal may
be moved across its power of ten, and a number reads back from its exact expansion and
from the shortest decimal that was searched for.

Main results:

- Theorem `roundCode_congr`: equal quotients are rounded to equal codes.
- Theorem `roundCode_units`: a finite magnitude is its own rounding.
- Theorem `nearestCode_eq`: the clamped powers of ten are rounded like all others.
- Theorem `nearestCode_mul_pow`: zeros at the end of the digits count as powers of ten.
- Theorem `nearestCode_shortest`: the shortest decimal of a finite code reads back as it.
-/

namespace TableFixture

namespace Binary64

/-! ## Quotients -/

/-- A common factor does not change a rounded quotient. -/
theorem roundHalfEven_mul_right {k : Nat} (hk : 0 < k) (num den : Nat) :
    roundHalfEven (num * k) (den * k) = roundHalfEven num den := by
  have hdown : 2 * (num % den * k) < den * k ↔ 2 * (num % den) < den := by
    rw [← Nat.mul_assoc]
    exact Nat.mul_lt_mul_right hk
  have hup : den * k < 2 * (num % den * k) ↔ den < 2 * (num % den) := by
    rw [← Nat.mul_assoc]
    exact Nat.mul_lt_mul_right hk
  simp only [roundHalfEven, Nat.mul_div_mul_right _ _ hk, Nat.mul_mod_mul_right, hdown, hup]

/-- A common factor does not change the code of a quotient. -/
theorem roundCode_mul_right {k : Nat} (hk : 0 < k) (num den : Nat) :
    roundCode (num * k) (den * k) = roundCode num den := by
  simp only [roundCode, Nat.mul_div_mul_right _ _ hk]
  rw [Nat.mul_right_comm, roundHalfEven_mul_right hk]

/-- Equal quotients are rounded to equal codes. -/
theorem roundCode_congr {num den num' den' : Nat} (hden : 0 < den) (hden' : 0 < den')
    (h : num * den' = num' * den) : roundCode num den = roundCode num' den' := by
  calc
    roundCode num den = roundCode (num * den') (den * den') := (roundCode_mul_right hden' ..).symm
    _ = roundCode (num' * den) (den' * den) := by rw [h, Nat.mul_comm den den']
    _ = roundCode num' den' := roundCode_mul_right hden ..

/-- A quotient below one half is rounded to zero. -/
theorem roundCode_of_small {num den : Nat} (h : 2 * num < den) : roundCode num den = 0 := by
  have hdiv : num / den = 0 := Nat.div_eq_of_lt (by omega)
  have hmod : num % den = num := Nat.mod_eq_of_lt (by omega)
  simp [roundCode, roundHalfEven, hdiv, hmod, h]

/-- A number of few bits over a larger power is rounded to zero. -/
theorem roundCode_of_log2 {a n den : Nat} (h : 2 ^ (a + (n.log2 + 1) + 1) ≤ den) :
    roundCode (2 ^ a * n) den = 0 := by
  apply roundCode_of_small
  calc
    2 * (2 ^ a * n) < 2 * (2 ^ a * 2 ^ (n.log2 + 1)) :=
      Nat.mul_lt_mul_of_pos_left
        (Nat.mul_lt_mul_of_pos_left Nat.lt_log2_self (Nat.two_pow_pos _)) (by decide)
    _ = 2 ^ (a + (n.log2 + 1) + 1) := by rw [← Nat.pow_add, Nat.pow_succ, Nat.mul_comm]
    _ ≤ den := h

/-- A number beyond the exponents of the format is rounded to infinity. -/
theorem roundCode_of_large {a b x : Nat} (hexponent : 2100 ≤ a + b) (hx : 2 ^ b ≤ x) :
    roundCode (2 ^ a * x) 1 = infinityCode := by
  have hlarge : 2 ^ (a + b) ≤ 2 ^ a * x := by
    rw [Nat.pow_add]
    exact Nat.mul_le_mul_left _ hx
  have hne : 2 ^ a * x ≠ 0 := by
    have hpos := Nat.two_pow_pos (a + b)
    omega
  have hlog : a + b ≤ (2 ^ a * x).log2 := (Nat.le_log2 hne).2 hlarge
  have hstep : infinityCode ≤ ((2 ^ a * x).log2 - 52) * 2 ^ 52 := by
    rw [infinityCode]
    exact Nat.mul_le_mul_right _ (by omega)
  rw [roundCode, Nat.div_one]
  exact Nat.min_eq_right (Nat.le_trans hstep (Nat.le_add_right _ _))

/-! ## Magnitudes -/

/-- The exponent of a significand of 53 bits. -/
theorem log2_mul_two_pow {m : Nat} (hlow : 2 ^ 52 ≤ m) (hhigh : m < 2 ^ 53) (k : Nat) :
    (m * 2 ^ k).log2 = 52 + k := by
  have hpos := Nat.two_pow_pos k
  have hne : m * 2 ^ k ≠ 0 := Nat.mul_ne_zero (by omega) (by omega)
  rw [Nat.log2_eq_iff hne]
  constructor
  · rw [Nat.pow_add]
    exact Nat.mul_le_mul_right _ hlow
  · rw [Nat.add_right_comm, Nat.pow_add]
    exact (Nat.mul_lt_mul_right hpos).2 hhigh

/-- A finite magnitude is its own rounding. -/
theorem roundCode_units {code : Nat} (h : code < infinityCode) : roundCode (units code) 1 = code := by
  by_cases hsmall : code < 2 ^ 52
  · have hlog : code.log2 - 52 = 0 := by
      by_cases hzero : code = 0
      · simp [hzero]
      · have hlt := (Nat.log2_lt hzero).2 hsmall
        omega
    simp only [roundCode, units, if_pos hsmall, Nat.div_one, hlog]
    rw [roundHalfEven_of_dvd (by decide) (by simp)]
    simp only [Nat.zero_mul, Nat.zero_add, Nat.pow_zero, Nat.mul_one, Nat.div_one]
    exact Nat.min_eq_left (Nat.le_of_lt h)
  · have hlow : 2 ^ 52 ≤ 2 ^ 52 + code % 2 ^ 52 := Nat.le_add_right _ _
    have hhigh : 2 ^ 52 + code % 2 ^ 52 < 2 ^ 53 := by omega
    have hstep : 52 + (code / 2 ^ 52 - 1) - 52 = code / 2 ^ 52 - 1 := by omega
    simp only [roundCode, units, if_neg hsmall, Nat.div_one, log2_mul_two_pow hlow hhigh, hstep]
    rw [Nat.one_mul, roundHalfEven_of_dvd (Nat.two_pow_pos _) (Nat.dvd_mul_left _ _),
      Nat.mul_div_cancel _ (Nat.two_pow_pos _)]
    -- the leading bit of the significand is the last exponent step
    have hcode : (code / 2 ^ 52 - 1) * 2 ^ 52 + (2 ^ 52 + code % 2 ^ 52) = code := by omega
    rw [hcode]
    exact Nat.min_eq_left (Nat.le_of_lt h)

end Binary64

namespace Decimal

open Binary64 (infinityCode roundCode units)

/-! ## Decimals -/

/-- A power of ten exceeds that of eight. -/
theorem two_pow_three_mul_le (n : Nat) : 2 ^ (3 * n) ≤ 10 ^ n := by
  rw [Nat.pow_mul]
  exact Nat.pow_le_pow_left (by decide) n

/-- The clamped powers of ten are rounded like all others. -/
theorem nearestCode_eq (n : Nat) (e : Int) :
    nearestCode n e = roundCode (2 ^ 1074 * (n * 10 ^ e.toNat)) (10 ^ (-e).toNat) := by
  unfold nearestCode
  split
  next hn =>
    subst hn
    simp only [Nat.zero_mul, Nat.mul_zero]
    exact (Binary64.roundCode_of_small (Nat.pow_pos (by decide))).symm
  next hn =>
    split
    next hlarge =>
      have hzero : (-e).toNat = 0 := by omega
      have hten : 2 ^ (3 * e.toNat) ≤ n * 10 ^ e.toNat :=
        Nat.le_trans (two_pow_three_mul_le _) (Nat.le_mul_of_pos_left _ (Nat.pos_of_ne_zero hn))
      rw [hzero, Nat.pow_zero]
      exact (Binary64.roundCode_of_large (a := 1074) (x := n * 10 ^ e.toNat) (by omega) hten).symm
    next hlarge =>
      split
      next hsmall =>
        have hzero : e.toNat = 0 := by omega
        have hten : 2 ^ (1074 + (n.log2 + 1) + 1) ≤ 10 ^ (-e).toNat :=
          calc
            2 ^ (1074 + (n.log2 + 1) + 1) ≤ 2 ^ (3 * (-e).toNat) :=
              Nat.pow_le_pow_right (by decide) (by omega)
            _ ≤ 10 ^ (-e).toNat := two_pow_three_mul_le _
        rw [hzero, Nat.pow_zero, Nat.mul_one]
        exact (Binary64.roundCode_of_log2 (a := 1074) (n := n) hten).symm
      next => rfl

/-- Zeros at the end of the digits count as powers of ten. -/
theorem nearestCode_mul_pow (n k : Nat) (e : Int) :
    nearestCode (n * 10 ^ k) e = nearestCode n (e + k) := by
  have hten (j : Nat) : 0 < 10 ^ j := Nat.pow_pos (by decide)
  rw [nearestCode_eq, nearestCode_eq]
  apply Binary64.roundCode_congr (hten _) (hten _)
  have hpowers : 10 ^ k * 10 ^ e.toNat * 10 ^ (-(e + k)).toNat
      = 10 ^ (e + k).toNat * 10 ^ (-e).toNat := by
    rw [← Nat.pow_add, ← Nat.pow_add, ← Nat.pow_add]
    congr 1
    omega
  calc
    2 ^ 1074 * (n * 10 ^ k * 10 ^ e.toNat) * 10 ^ (-(e + k)).toNat
        = 2 ^ 1074 * n * (10 ^ k * 10 ^ e.toNat * 10 ^ (-(e + k)).toNat) := by
          simp only [Nat.mul_assoc]
    _ = 2 ^ 1074 * n * (10 ^ (e + k).toNat * 10 ^ (-e).toNat) := by rw [hpowers]
    _ = 2 ^ 1074 * (n * 10 ^ (e + k).toNat) * 10 ^ (-e).toNat := by
          simp only [Nat.mul_assoc]

/-- A whole number of units, written in places of ten, is the same quotient. -/
theorem roundCode_places (p u : Nat) :
    roundCode (2 ^ p * (5 ^ p * u)) (10 ^ p) = roundCode u 1 := by
  have hten : 10 ^ p = 2 ^ p * 5 ^ p := Nat.mul_pow 2 5 p
  apply Binary64.roundCode_congr (Nat.pow_pos (by decide)) (by decide)
  rw [Nat.mul_one, hten, Nat.mul_comm u, Nat.mul_assoc]

/-- The exact expansion of a finite code reads back as it. -/
theorem nearestCode_expansion {code : Nat} (h : code < infinityCode) :
    nearestCode (expansion code) (-1074) = code := by
  have hdigits : expansion code * 10 ^ (-1074 : Int).toNat = 5 ^ 1074 * units code := by
    have hzero : (-1074 : Int).toNat = 0 := rfl
    rw [hzero, Nat.pow_zero, Nat.mul_one, expansion]
  have hplaces : (-(-1074) : Int).toNat = 1074 := rfl
  rw [nearestCode_eq, hdigits, hplaces, roundCode_places 1074 (units code),
    Binary64.roundCode_units h]

/-- The shortest decimal of a finite code reads back as it. -/
theorem nearestCode_shortest (tie : Tie) {code : Nat} (h : code < infinityCode) :
    nearestCode (shortest tie code).digits (shortest tie code).exponent = code :=
  nearestCode_shortestFrom tie (nearestCode_expansion h) _

end Decimal

end TableFixture
