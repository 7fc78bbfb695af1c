import TableFixture.Binary64.Arithmetic
import TableFixture.Proofs.Decimal.Rounding

/-!
# Rounding and the order of numbers

Codes grow with the magnitudes they stand for, and a greater quotient is never rounded to a
smaller code.  So the sum with a greater term is never smaller, even where one sum is rounded to
an infinity and the other is not; and as a finite number is its own rounding, a sum lies on the
same side of it as the exact sum does.

Main results:

- Theorem `roundCode_mono`: rounding keeps the order of quotients.
- Theorem `units_le_units_iff`: codes are ordered like the magnitudes they stand for.
- Theorem `value_add_mono`, `value_sub_anti`: sums grow with a term, differences shrink.
- Theorem `value_ofUnits_value`: a finite number is its own rounding.
-/

namespace TableFixture.Binary64

/-! ## Quotients -/

section

variable {num num' den : Nat}

theorem roundHalfEven_bounds (num den : Nat) :
    num / den ≤ roundHalfEven num den ∧ roundHalfEven num den ≤ num / den + 1 := by
  unfold roundHalfEven
  dsimp only
  split
  · omega
  · split <;> omega

/-- A greater numerator is not rounded to a smaller number. -/
theorem roundHalfEven_mono (h : num ≤ num') (den : Nat) :
    roundHalfEven num den ≤ roundHalfEven num' den := by
  have hdiv : num / den ≤ num' / den := Nat.div_le_div_right h
  by_cases hlt : num / den < num' / den
  · calc
      roundHalfEven num den ≤ num / den + 1 := (roundHalfEven_bounds num den).2
      _ ≤ num' / den := hlt
      _ ≤ roundHalfEven num' den := (roundHalfEven_bounds num' den).1
  · -- between the same neighbours the remainders decide
    have heq : num' / den = num / den := Nat.le_antisymm (Nat.le_of_not_lt hlt) hdiv
    have hrest : num % den ≤ num' % den := by
      have hnum := Nat.div_add_mod num den
      have hnum' := Nat.div_add_mod num' den
      rw [heq] at hnum'
      omega
    by_cases hdown : 2 * (num % den) < den
    · have hself : roundHalfEven num den = num / den := by simp only [roundHalfEven, if_pos hdown]
      rw [hself, ← heq]
      exact (roundHalfEven_bounds num' den).1
    · have hdown' : ¬ 2 * (num' % den) < den := by omega
      simp only [roundHalfEven, heq, if_neg hdown, if_neg hdown']
      by_cases hup : den < 2 * (num % den)
      · exact Nat.le_of_eq (by rw [if_pos hup, if_pos (by omega)])
      · rw [if_neg hup]
        split <;> omega

theorem log2_mono {m n : Nat} (h : m ≤ n) : m.log2 ≤ n.log2 := by
  by_cases hm : m = 0
  · rw [hm]
    exact Nat.zero_le _
  · exact (Nat.le_log2 (by omega)).2 (Nat.le_trans (Nat.log2_self_le hm) h)

/-- A significand has at most 53 bits, or is rounded up to `2 ^ 53`. -/
theorem significand_le (num : Nat) (hden : 0 < den) :
    roundHalfEven num (den * 2 ^ ((num / den).log2 - 52)) ≤ 2 ^ 53 := by
  have hpos : 0 < den * 2 ^ ((num / den).log2 - 52) := Nat.mul_pos hden (Nat.two_pow_pos _)
  have hquotient : num / den < 2 ^ 53 * 2 ^ ((num / den).log2 - 52) := by
    rw [← Nat.pow_add]
    exact Nat.lt_of_lt_of_le Nat.lt_log2_self (Nat.pow_le_pow_right (by decide) (by omega))
  have hnum : num ≤ 2 ^ 53 * (den * 2 ^ ((num / den).log2 - 52)) := by
    rw [Nat.mul_left_comm, Nat.mul_comm den]
    exact Nat.le_of_lt ((Nat.div_lt_iff_lt_mul hden).1 hquotient)
  have hexact := roundHalfEven_mono hnum (den * 2 ^ ((num / den).log2 - 52))
  rwa [roundHalfEven_of_dvd hpos (Nat.dvd_mul_left _ _), Nat.mul_div_cancel _ hpos] at hexact

/-- A quotient that is scaled has reached the first significand of its exponent. -/
theorem first_significand_le (num : Nat) (hden : 0 < den)
    (hstep : 0 < (num / den).log2 - 52) :
    2 ^ 52 * (den * 2 ^ ((num / den).log2 - 52)) ≤ num := by
  have hne : num / den ≠ 0 := by
    intro h
    rw [h] at hstep
    exact absurd hstep (by decide)
  have hquotient : 2 ^ 52 * 2 ^ ((num / den).log2 - 52) ≤ num / den := by
    rw [← Nat.pow_add]
    exact Nat.le_trans (Nat.pow_le_pow_right (by decide) (by omega)) (Nat.log2_self_le hne)
  rw [Nat.mul_left_comm, Nat.mul_comm den]
  exact (Nat.le_div_iff_mul_le hden).1 hquotient

/-- A significand that is scaled has its leading bit. -/
theorem le_significand (num : Nat) (hden : 0 < den)
    (hstep : 0 < (num / den).log2 - 52) :
    2 ^ 52 ≤ roundHalfEven num (den * 2 ^ ((num / den).log2 - 52)) := by
  have hpos : 0 < den * 2 ^ ((num / den).log2 - 52) := Nat.mul_pos hden (Nat.two_pow_pos _)
  have hexact := roundHalfEven_mono (first_significand_le num hden hstep)
    (den * 2 ^ ((num / den).log2 - 52))
  rwa [roundHalfEven_of_dvd hpos (Nat.dvd_mul_left _ _), Nat.mul_div_cancel _ hpos] at hexact

/-- A greater numerator is not rounded to a smaller code. -/
theorem roundCode_mono (hden : 0 < den) (h : num ≤ num') :
    roundCode num den ≤ roundCode num' den := by
  have hlog : (num / den).log2 ≤ (num' / den).log2 := log2_mono (Nat.div_le_div_right h)
  unfold roundCode
  dsimp only
  apply Nat.le_min.2 ⟨Nat.le_trans (Nat.min_le_left _ _) ?_, Nat.min_le_right _ _⟩
  by_cases hstep : (num / den).log2 - 52 = (num' / den).log2 - 52
  · rw [hstep]
    exact Nat.add_le_add_left (roundHalfEven_mono h _) _
  · -- the carry of a significand that is rounded up reaches the next exponent, not beyond it
    have hlow := significand_le num hden
    have hhigh := le_significand num' hden (by omega)
    omega

end

/-! ## Codes and magnitudes -/

/-- Every code up to that of infinity is the rounding of the magnitude it stands for. -/
theorem roundCode_units_of_le {code : Nat} (h : code ≤ infinityCode) :
    roundCode (units code) 1 = code := by
  rcases Nat.lt_or_eq_of_le h with hlt | rfl
  · exact roundCode_units hlt
  · decide +kernel

/-- Codes are ordered like the magnitudes they stand for. -/
theorem units_le_units_iff {c d : Nat} (hc : c ≤ infinityCode) (hd : d ≤ infinityCode) :
    units c ≤ units d ↔ c ≤ d := by
  have hmono {c d : Nat} (hc : c ≤ infinityCode) (hd : d ≤ infinityCode)
      (h : units c ≤ units d) : c ≤ d := by
    rw [← roundCode_units_of_le hc, ← roundCode_units_of_le hd]
    exact roundCode_mono (by decide) h
  refine ⟨hmono hc hd, fun h => ?_⟩
  rcases Nat.le_total (units c) (units d) with hle | hle
  · exact hle
  · exact Nat.le_of_eq (congrArg units (Nat.le_antisymm h (hmono hd hc hle)))

/-! ## Whole numbers of units -/

/-- The value of a rounded number of units. -/
theorem value_ofUnits (zeroNegative : Bool) (n : Int) :
    (ofUnits zeroNegative n).value
      = if n < 0 then -(units (roundCode n.natAbs 1) : Int) else units (roundCode n.natAbs 1) := by
  unfold ofUnits
  by_cases hzero : n = 0
  · rw [if_pos hzero, value_zero, hzero]
    decide
  · rw [if_neg hzero, value, negative_ofQuotient, code_ofQuotient]
    simp only [decide_eq_true_eq]

/-- More units are not rounded to a smaller number. -/
theorem value_ofUnits_mono (s s' : Bool) {m n : Int} (h : m ≤ n) :
    (ofUnits s m).value ≤ (ofUnits s' n).value := by
  have hround {a b : Nat} (hab : a ≤ b) : units (roundCode a 1) ≤ units (roundCode b 1) :=
    (units_le_units_iff (roundCode_le a 1) (roundCode_le b 1)).2 (roundCode_mono (by decide) hab)
  rw [value_ofUnits, value_ofUnits]
  by_cases hn : n < 0
  · have hle := hround (show n.natAbs ≤ m.natAbs by omega)
    rw [if_pos (by omega), if_pos hn]
    omega
  · rw [if_neg hn]
    by_cases hm : m < 0
    · rw [if_pos hm]
      omega
    · have hle := hround (show m.natAbs ≤ n.natAbs by omega)
      rw [if_neg hm]
      omega

/-- A finite number is its own rounding. -/
theorem value_ofUnits_value {x : Binary64} (h : x.isFinite = true) (s : Bool) :
    (ofUnits s x.value).value = x.value := by
  have hcode : x.code ≤ infinityCode := Nat.le_of_lt (of_decide_eq_true h)
  have habs : x.value.natAbs = units x.code := by
    unfold value
    split <;> omega
  rw [value_ofUnits, habs, roundCode_units_of_le hcode]
  unfold value
  cases x.negative <;> simp only [Bool.false_eq_true, if_true, if_false] <;> split <;> omega

/-! ## Sums and differences -/

section

variable {x y z : Binary64}

theorem le_iff (x y : Binary64) :
    x.le y = true ↔ x.isNaN = false ∧ y.isNaN = false ∧ x.value ≤ y.value := by
  simp [le, and_assoc]

theorem code_le_of_isNaN (h : x.isNaN = false) : x.code ≤ infinityCode :=
  Nat.le_of_not_lt (of_decide_eq_false h)

/-- No number is beyond the infinities, and only they are where they are. -/
theorem natAbs_value_le (h : x.isNaN = false) :
    x.value.natAbs ≤ units infinityCode ∧
      (x.value.natAbs = units infinityCode → x.isInfinite = true) := by
  have hcode := code_le_of_isNaN h
  have habs : x.value.natAbs = units x.code := by
    unfold value
    split <;> omega
  rw [habs]
  refine ⟨(units_le_units_iff hcode (Nat.le_refl _)).2 hcode, fun heq => ?_⟩
  have hle := (units_le_units_iff (Nat.le_refl _) hcode).1 (Nat.le_of_eq heq.symm)
  exact beq_iff_eq.2 (Nat.le_antisymm hcode hle)

theorem value_of_isInfinite (h : x.isInfinite = true) :
    x.value = if x.negative then -(units infinityCode : Int) else units infinityCode := by
  rw [value, beq_iff_eq.1 h]

theorem isFinite_of_not (hnan : x.isNaN = false) (hinf : ¬ x.isInfinite = true) :
    x.isFinite = true := by
  rw [isFinite_eq, hnan, Bool.eq_false_iff.2 hinf]
  rfl

theorem isNaN_of_isFinite (h : x.isFinite = true) : x.isNaN = false := by
  rw [isFinite_eq, Bool.and_eq_true] at h
  simpa using h.1

/-- An infinite term absorbs a finite one. -/
theorem add_of_isInfinite_right (hx : x.isFinite = true) (hy : y.isInfinite = true) :
    x.add y = y := by
  have hxnan := isNaN_of_isFinite hx
  rw [isFinite_eq, Bool.and_eq_true, Bool.not_eq_true', Bool.not_eq_true'] at hx
  have hynan : y.isNaN = false := by
    rw [isNaN, beq_iff_eq.1 hy]
    decide
  simp [add, hxnan, hynan, hx.2, hy]

/-- A number and a finite one have a sum. -/
theorem isNaN_add (hx : x.isFinite = true) (hy : y.isNaN = false) : (x.add y).isNaN = false := by
  by_cases hinf : y.isInfinite = true
  · rw [add_of_isInfinite_right hx hinf, hy]
  · rw [add_of_isFinite hx (isFinite_of_not hy hinf), ofUnits]
    split
    · cases (x.negative && y.negative) <;> decide
    · exact isNaN_ofQuotient _ _ _

theorem isNaN_of_isNaN_add (h : (x.add y).isNaN = false) : y.isNaN = false := by
  cases hy : y.isNaN with
  | true => exact absurd (add_of_isNaN_right x hy) (by rw [h]; decide)
  | false => rfl

/-- A sum with zero is the other term, up to the sign of a zero. -/
theorem value_add_zero (hx : x.isFinite = true) : (x.add (zero false)).value = x.value := by
  rw [add_of_isFinite hx (by decide), value_zero, Int.add_zero, value_ofUnits_value hx]

/-- A sum grows with its second term. -/
theorem value_add_mono (hx : x.isFinite = true) (hy : y.isNaN = false) (hz : z.isNaN = false)
    (h : y.value ≤ z.value) : (x.add y).value ≤ (x.add z).value := by
  have hboundy := natAbs_value_le hy
  have hboundz := natAbs_value_le hz
  by_cases hyinf : y.isInfinite = true
  · have hvalue := value_of_isInfinite hyinf
    rw [add_of_isInfinite_right hx hyinf]
    cases hneg : y.negative with
    | true =>
        have hbound := natAbs_value_le (isNaN_add hx hz)
        rw [hneg, if_pos rfl] at hvalue
        omega
    | false =>
        rw [hneg, if_neg (by decide)] at hvalue
        rwa [add_of_isInfinite_right hx (hboundz.2 (by omega))]
  · by_cases hzinf : z.isInfinite = true
    · have hvalue := value_of_isInfinite hzinf
      rw [add_of_isInfinite_right hx hzinf]
      cases hneg : z.negative with
      | true =>
          rw [hneg, if_pos rfl] at hvalue
          exact absurd (hboundy.2 (by omega)) hyinf
      | false =>
          have hbound := natAbs_value_le (isNaN_add hx hy)
          rw [hneg, if_neg (by decide)] at hvalue
          omega
    · rw [add_of_isFinite hx (isFinite_of_not hy hyinf),
        add_of_isFinite hx (isFinite_of_not hz hzinf)]
      exact value_ofUnits_mono _ _ (by omega)

/-- An infinity is every sum with it that is a number. -/
theorem add_of_isInfinite_left (hx : x.isInfinite = true) (h : (x.add y).isNaN = false) :
    x.add y = x := by
  unfold add at h ⊢
  by_cases hnan : (x.isNaN || y.isNaN) = true
  · rw [if_pos hnan, isNaN_quietNaN] at h
    exact absurd h (by decide)
  · rw [if_neg hnan, if_pos hx] at h ⊢
    by_cases hopposite : (y.isInfinite && x.negative != y.negative) = true
    · rw [if_pos hopposite, isNaN_quietNaN] at h
      exact absurd h (by decide)
    · rw [if_neg hopposite]

/-- A term that is not negative makes no sum smaller than the other term. -/
theorem le_value_add (hx : x.isNaN = false) (h : (x.add y).isNaN = false) (hy : 0 ≤ y.value) :
    x.value ≤ (x.add y).value := by
  by_cases hinf : x.isInfinite = true
  · exact Int.le_of_eq (by rw [add_of_isInfinite_left hinf h])
  · have hfinite := isFinite_of_not hx hinf
    rw [← value_add_zero hfinite]
    refine value_add_mono hfinite (by decide) (isNaN_of_isNaN_add h) ?_
    rwa [value_zero]

/-- A term that is not positive makes no sum greater than the other term. -/
theorem value_add_le (hx : x.isNaN = false) (h : (x.add y).isNaN = false) (hy : y.value ≤ 0) :
    (x.add y).value ≤ x.value := by
  by_cases hinf : x.isInfinite = true
  · exact Int.le_of_eq (by rw [add_of_isInfinite_left hinf h])
  · have hfinite := isFinite_of_not hx hinf
    rw [← value_add_zero hfinite]
    refine value_add_mono hfinite (isNaN_of_isNaN_add h) (by decide) ?_
    rwa [value_zero]

/-- A difference shrinks as its second term grows. -/
theorem value_sub_anti (hx : x.isFinite = true) (hy : y.isNaN = false) (hz : z.isNaN = false)
    (h : y.value ≤ z.value) : (x.sub z).value ≤ (x.sub y).value := by
  refine value_add_mono hx (by rwa [isNaN_neg]) (by rwa [isNaN_neg]) ?_
  rw [value_neg, value_neg]
  omega

end

end TableFixture.Binary64
