import Mathlib.Algebra.Order.Field.Power
import Mathlib.Algebra.Order.Field.Rat
import Mathlib.Algebra.Order.Group.Abs
import Mathlib.Data.Nat.Cast.Order.Field
import Mathlib.Tactic.FieldSimp
import Mathlib.Tactic.Linarith
import Mathlib.Tactic.Positivity
import Mathlib.Tactic.Ring
import TableFixture.Proofs.Binary64.Order

/-!
# The order of decimals

A decimal of greater value is never read as a smaller code.  So the decimals that are read as
one code lie together: what is between two of them is one of them.  The exact value of the code
is among them, and those beyond the value of another code are not.

Neighbouring codes lie the closer together the greater they are: the value of the next code
exceeds that of a code from `k` on by at most its `k`-th part.

Main results:

- Theorem `units_succ_le`: how far the next magnitude is.
- Theorem `nearestCode_mono`: reading keeps the order of decimals.
- Theorem `nearestCode_of_between`: what lies between decimals of one code is read as it.
- Theorems `nearestCode_le_of_le_magnitude` and `le_nearestCode_of_magnitude_le`: the codes on
  either side of an exact value.
-/

namespace TableFixture

namespace Binary64

/-- A greater quotient is not rounded to a smaller code. -/
theorem roundCode_mono_of_mul_le {num den num' den' : Nat} (hden : 0 < den) (hden' : 0 < den')
    (h : num * den' ≤ num' * den) : roundCode num den ≤ roundCode num' den' := by
  calc
    roundCode num den = roundCode (num * den') (den * den') := (roundCode_mul_right hden' ..).symm
    _ ≤ roundCode (num' * den) (den * den') := roundCode_mono (Nat.mul_pos hden hden') h
    _ = roundCode (num' * den) (den' * den) := by rw [Nat.mul_comm den den']
    _ = roundCode num' den' := roundCode_mul_right hden ..

/-- The next magnitude is one unit in the last place away. -/
theorem units_succ (code : Nat) : units (code + 1) = units code + 2 ^ (code / 2 ^ 52 - 1) := by
  by_cases hsmall : code + 1 < 2 ^ 52
  · have hstep : code / 2 ^ 52 - 1 = 0 := by omega
    rw [units, units, if_pos hsmall, if_pos (by omega), hstep, Nat.pow_zero]
  · by_cases hfirst : code + 1 = 2 ^ 52
    · have hcode : code = 2 ^ 52 - 1 := by omega
      subst hcode
      decide +kernel
    · rw [units, units, if_neg hsmall, if_neg (by omega)]
      by_cases hcarry : code % 2 ^ 52 + 1 = 2 ^ 52
      · -- the last significand of an exponent is followed by the first one of the next
        have hexponent : (code + 1) / 2 ^ 52 - 1 = code / 2 ^ 52 - 1 + 1 := by omega
        have hfraction : (code + 1) % 2 ^ 52 = 0 := by omega
        have hlast : code % 2 ^ 52 = 2 ^ 52 - 1 := by omega
        rw [hexponent, hfraction, hlast, Nat.pow_succ]
        omega
      · have hexponent : (code + 1) / 2 ^ 52 - 1 = code / 2 ^ 52 - 1 := by omega
        have hfraction : (code + 1) % 2 ^ 52 = code % 2 ^ 52 + 1 := by omega
        rw [hexponent, hfraction, ← Nat.add_assoc, Nat.succ_mul]

/-- The next magnitude is greater by at most the `k`-th part, from the code `k` on. -/
theorem units_succ_le {k code : Nat} (hk : k ≤ 2 ^ 52) (h : k ≤ code) :
    k * units (code + 1) ≤ (k + 1) * units code := by
  have hlast : k * 2 ^ (code / 2 ^ 52 - 1) ≤ units code := by
    rw [units]
    split
    next hsmall =>
      have hstep : code / 2 ^ 52 - 1 = 0 := by omega
      rw [hstep, Nat.pow_zero, Nat.mul_one]
      exact h
    next => exact Nat.mul_le_mul_right _ (by omega)
  rw [units_succ, Nat.mul_add, Nat.succ_mul]
  exact Nat.add_le_add_left hlast _

end Binary64

namespace Decimal

open Binary64 (infinityCode units)

/-! ## Reading and order -/

/-- A power of ten as a quotient of natural numbers. -/
theorem ten_zpow_eq (e : Int) :
    (10 : ℚ) ^ e = ((10 ^ e.toNat : Nat) : ℚ) / ((10 ^ (-e).toNat : Nat) : ℚ) := by
  rcases Int.eq_nat_or_neg e with ⟨k, rfl | rfl⟩
  · simp
  · simp

theorem ten_zpow_pos (e : Int) : (0 : ℚ) < 10 ^ e := zpow_pos (by norm_num) e

/-- A decimal of greater value is not read as a smaller code. -/
theorem nearestCode_mono {m n : Nat} {d e : Int} (h : (m : ℚ) * 10 ^ d ≤ n * 10 ^ e) :
    nearestCode m d ≤ nearestCode n e := by
  have hpos (k : Nat) : 0 < 10 ^ k := Nat.pow_pos (by decide)
  have hpos' (k : Nat) : (0 : ℚ) < ((10 ^ k : Nat) : ℚ) := Nat.cast_pos.2 (hpos k)
  rw [ten_zpow_eq d, ten_zpow_eq e, ← mul_div_assoc, ← mul_div_assoc,
    div_le_div_iff₀ (hpos' _) (hpos' _)] at h
  have hscaled : m * 10 ^ d.toNat * 10 ^ (-e).toNat ≤ n * 10 ^ e.toNat * 10 ^ (-d).toNat := by
    exact_mod_cast h
  rw [nearestCode_eq, nearestCode_eq]
  apply Binary64.roundCode_mono_of_mul_le (hpos _) (hpos _)
  rw [Nat.mul_assoc (2 ^ 1074), Nat.mul_assoc (2 ^ 1074)]
  exact Nat.mul_le_mul_left _ hscaled

/-- What lies between decimals of one code is read as that code. -/
theorem nearestCode_of_between {code m n k : Nat} {d e f : Int} (hlow : nearestCode m d = code)
    (hhigh : nearestCode n e = code) (hle : (m : ℚ) * 10 ^ d ≤ k * 10 ^ f)
    (hge : (k : ℚ) * 10 ^ f ≤ n * 10 ^ e) : nearestCode k f = code := by
  apply Nat.le_antisymm
  · rw [← hhigh]
    exact nearestCode_mono hge
  · rw [← hlow]
    exact nearestCode_mono hle

/-! ## Exact values -/

/-- The exact value of a finite code. -/
def magnitude (code : Nat) : ℚ := units code / 2 ^ 1074

namespace Unsigned

/-- The exact value of a decimal. -/
def exact (d : Unsigned) : ℚ := d.digits * 10 ^ d.exponent

/-- The distance of a decimal from the exact value of a code. -/
def distance (d : Unsigned) (code : Nat) : ℚ := |d.exact - magnitude code|

end Unsigned

/-- A whole number of units is a decimal with that many more places. -/
theorem cast_places (p u : Nat) : ((5 ^ p * u : Nat) : ℚ) * 10 ^ (-(p : Int)) = u / 2 ^ p := by
  have hten : (10 : ℚ) ^ p = 2 ^ p * 5 ^ p := by rw [← mul_pow]; norm_num
  rw [zpow_neg, zpow_natCast, hten]
  push_cast
  field_simp

/-- The expansion of a code is its exact value. -/
theorem exact_expansion (code : Nat) :
    (expansion code : ℚ) * 10 ^ (-1074 : Int) = magnitude code := by
  have hplaces : (-1074 : Int) = -((1074 : Nat) : Int) := rfl
  rw [hplaces, expansion, cast_places, magnitude]

/-- The expansion of infinity is read as infinity, too. -/
theorem nearestCode_expansion_of_le {code : Nat} (h : code ≤ infinityCode) :
    nearestCode (expansion code) (-1074) = code := by
  rcases Nat.lt_or_eq_of_le h with hlt | rfl
  · exact nearestCode_expansion hlt
  · decide +kernel

/-- A decimal up to an exact value is read as a code up to that one. -/
theorem nearestCode_le_of_le_magnitude {code n : Nat} {e : Int} (hcode : code ≤ infinityCode)
    (h : (n : ℚ) * 10 ^ e ≤ magnitude code) : nearestCode n e ≤ code := by
  rw [← exact_expansion] at h
  calc
    nearestCode n e ≤ nearestCode (expansion code) (-1074) := nearestCode_mono h
    _ = code := nearestCode_expansion_of_le hcode

/-- A decimal from an exact value on is read as a code from that one on. -/
theorem le_nearestCode_of_magnitude_le {code n : Nat} {e : Int} (hcode : code ≤ infinityCode)
    (h : magnitude code ≤ (n : ℚ) * 10 ^ e) : code ≤ nearestCode n e := by
  rw [← exact_expansion] at h
  calc
    code = nearestCode (expansion code) (-1074) := (nearestCode_expansion_of_le hcode).symm
    _ ≤ nearestCode n e := nearestCode_mono h

end Decimal

end TableFixture
