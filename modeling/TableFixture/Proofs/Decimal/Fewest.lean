import TableFixture.Proofs.Decimal.Order

/-!
# Fewest digits

The search for the shortest decimal of a code tries only two decimals on each grid, the
neighbours of the exact value, and starts with a grid that is coarser than the value.  That is
enough: if any decimal of a grid is read as the code, so is one of the neighbours.  So no
decimal on a coarser grid is read as the code, and one on a finer grid that has no more digits
would leave room for a power of ten, which lies on a coarser grid.

One case needs the numbers themselves.  A single digit may be found just above the value, and
then a single digit of the next finer grid may be read as the code, too.  This happens for one
code, and there the first digit is the nearer one.

Main definitions:

- `IsShortest`: the fewest digits that are read as a code, of these the nearest to it, and of
  two equally near ones the one that the format prefers.

Main results:

- Theorem `nearestOnGrid_of_onGrid`: what is found on a grid is the nearest of the grid.
- Theorem `not_readsAs_of_coarser`: nothing on a coarser grid is read as the code.
- Theorem `count_shortest_le`: nothing with fewer digits is read as the code.
- Theorem `isShortest_shortest`: the search finds the shortest decimal.
- Theorem `IsShortest.unique`: there is only one, if ties go up.
-/

namespace TableFixture

namespace Decimal

open Binary64 (infinityCode units)

/-! ## Decimals of one code -/

namespace Unsigned

/-- The number of digits. -/
def count (d : Unsigned) : Nat := (Nat.toDigits 10 d.digits).length

/-- Whether the decimal is read as the code. -/
def ReadsAs (d : Unsigned) (code : Nat) : Prop := nearestCode d.digits d.exponent = code

end Unsigned

/-- Whether a format takes the first of two equally near decimals. -/
def Tie.Prefers : Tie → Unsigned → Unsigned → Prop
  | .up, d, d' => d'.exact < d.exact
  | .even, d, _ => d.digits % 2 = 0

/-- The first decimal is nearer to the code, or as near and of the same value or preferred. -/
def Closer (tie : Tie) (code : Nat) (d d' : Unsigned) : Prop :=
  d.distance code < d'.distance code ∨
    d.distance code = d'.distance code ∧ (d.exact = d'.exact ∨ tie.Prefers d d')

/-- The decimal has the fewest digits that are read as the code, and no other with as few is
closer. -/
structure IsShortest (tie : Tie) (code : Nat) (d : Unsigned) : Prop where
  reads : d.ReadsAs code
  fewest : ∀ d' : Unsigned, d'.ReadsAs code → d.count ≤ d'.count
  closest : ∀ d' : Unsigned, d'.ReadsAs code → d'.count = d.count → Closer tie code d d'

variable {tie : Tie} {code : Nat} {d d' : Unsigned}

theorem Unsigned.count_pos (d : Unsigned) : 0 < d.count := Nat.length_toDigits_pos

theorem Unsigned.count_le_iff {k : Nat} (hk : 0 < k) : d.count ≤ k ↔ d.digits < 10 ^ k :=
  Nat.length_toDigits_le_iff (by decide) hk

theorem Unsigned.digits_lt (d : Unsigned) : d.digits < 10 ^ d.count :=
  (d.count_le_iff d.count_pos).1 (Nat.le_refl _)

theorem Unsigned.ten_pow_le_digits {k : Nat} (hpos : 0 < d.digits) (hk : k < d.count) :
    10 ^ k ≤ d.digits := by
  rcases Nat.eq_zero_or_pos k with rfl | hkpos
  · exact hpos
  · exact Nat.le_of_not_lt fun hlt => Nat.not_le.2 hk ((d.count_le_iff hkpos).2 hlt)

theorem Unsigned.ReadsAs.digits_pos (h : d.ReadsAs code) (hcode : 0 < code) : 0 < d.digits := by
  apply Nat.pos_of_ne_zero
  intro hzero
  rw [ReadsAs, hzero, nearestCode_zero] at h
  omega

/-! ## Distances -/

theorem Unsigned.distance_of_le (h : d.exact ≤ magnitude code) :
    d.distance code = magnitude code - d.exact := by
  rw [distance, abs_of_nonpos (by linarith)]
  ring

theorem Unsigned.distance_of_ge (h : magnitude code ≤ d.exact) :
    d.distance code = d.exact - magnitude code :=
  abs_of_nonneg (by linarith)

/-- Of two decimals below the exact value the greater is the nearer. -/
theorem Unsigned.distance_lt_of_lt_of_le (hlt : d'.exact < d.exact)
    (hle : d.exact ≤ magnitude code) : d.distance code < d'.distance code := by
  rw [distance_of_le hle, distance_of_le (by linarith)]
  linarith

/-- Of two decimals above the exact value the smaller is the nearer. -/
theorem Unsigned.distance_lt_of_le_of_lt (hle : magnitude code ≤ d.exact)
    (hlt : d.exact < d'.exact) : d.distance code < d'.distance code := by
  rw [distance_of_ge hle, distance_of_ge (by linarith)]
  linarith

/-! ## Grids -/

theorem exact_lt_exact_iff {m n : Nat} (e : Int) :
    (⟨m, e⟩ : Unsigned).exact < (⟨n, e⟩ : Unsigned).exact ↔ m < n := by
  rw [Unsigned.exact, Unsigned.exact, mul_lt_mul_iff_left₀ (ten_zpow_pos e), Nat.cast_lt]

theorem exact_le_exact_iff {m n : Nat} (e : Int) :
    (⟨m, e⟩ : Unsigned).exact ≤ (⟨n, e⟩ : Unsigned).exact ↔ m ≤ n := by
  rw [Unsigned.exact, Unsigned.exact, mul_le_mul_iff_left₀ (ten_zpow_pos e), Nat.cast_le]

/-- Nothing on the grid of the decimal that is read as the code is closer. -/
def NearestOnGrid (tie : Tie) (code : Nat) (d : Unsigned) : Prop :=
  ∀ n : Nat, (⟨n, d.exponent⟩ : Unsigned).ReadsAs code → Closer tie code d ⟨n, d.exponent⟩

theorem Closer.refl (tie : Tie) (code : Nat) (d : Unsigned) : Closer tie code d d :=
  .inr ⟨rfl, .inl rfl⟩

theorem Closer.distance_le (h : Closer tie code d d') : d.distance code ≤ d'.distance code :=
  h.elim le_of_lt fun h => le_of_eq h.1

/-- A step of a grid, in the last place of the expansion. -/
theorem ten_zpow_place (place : Nat) :
    (10 : ℚ) ^ ((place : Int) - 1074) = (10 ^ place : Nat) * 10 ^ (-1074 : Int) := by
  have hten : (10 : ℚ) ≠ 0 := by norm_num
  rw [Nat.cast_pow, Nat.cast_ofNat, ← zpow_natCast (10 : ℚ) place, ← zpow_add₀ hten,
    sub_eq_add_neg]

/-- A step of a grid is ten steps of the next finer one. -/
theorem ten_zpow_eq_mul_ten (e : Int) : (10 : ℚ) ^ e = 10 ^ (e - 1) * 10 := by
  rw [← zpow_add_one₀ (by norm_num), Int.sub_add_cancel]

section

variable {place n : Nat}

/-- The neighbour of the exact value below it on a grid. -/
def lowOnGrid (code place : Nat) : Unsigned := ⟨expansion code / 10 ^ place, place - 1074⟩

/-- The neighbour of the exact value above it on a grid. -/
def highOnGrid (code place : Nat) : Unsigned := ⟨expansion code / 10 ^ place + 1, place - 1074⟩

theorem magnitude_eq_low_add (code place : Nat) :
    magnitude code = (lowOnGrid code place).exact
      + (expansion code % 10 ^ place : Nat) * 10 ^ (-1074 : Int) := by
  have hsplit : ((expansion code / 10 ^ place : Nat) : ℚ) * (10 ^ place : Nat)
      + (expansion code % 10 ^ place : Nat) = (expansion code : ℚ) := by
    exact_mod_cast Nat.div_add_mod' (expansion code) (10 ^ place)
  rw [← exact_expansion, ← hsplit, lowOnGrid, Unsigned.exact, ten_zpow_place]
  ring

theorem high_eq_low_add (code place : Nat) :
    (highOnGrid code place).exact
      = (lowOnGrid code place).exact + (10 ^ place : Nat) * 10 ^ (-1074 : Int) := by
  simp only [highOnGrid, lowOnGrid, Unsigned.exact]
  rw [Nat.cast_succ, add_one_mul, ← ten_zpow_place]

theorem low_le (code place : Nat) : (lowOnGrid code place).exact ≤ magnitude code := by
  rw [magnitude_eq_low_add code place]
  exact le_add_of_nonneg_right (mul_nonneg (Nat.cast_nonneg _) (le_of_lt (ten_zpow_pos _)))

theorem lt_high (code place : Nat) : magnitude code < (highOnGrid code place).exact := by
  rw [high_eq_low_add, magnitude_eq_low_add code place]
  have hrest : expansion code % 10 ^ place < 10 ^ place := Nat.mod_lt _ (Nat.pow_pos (by decide))
  exact add_lt_add_right (mul_lt_mul_of_pos_right (Nat.cast_lt.2 hrest) (ten_zpow_pos _)) _

/-- A decimal between the exact value and one above it that is read as the code is read as it,
too. -/
theorem readsAs_of_above (hcode : code < infinityCode) (h : d'.ReadsAs code)
    (hlow : magnitude code ≤ d.exact) (hhigh : d.exact ≤ d'.exact) : d.ReadsAs code := by
  rw [← exact_expansion] at hlow
  exact nearestCode_of_between (nearestCode_expansion hcode) h hlow hhigh

theorem readsAs_of_below (hcode : code < infinityCode) (h : d'.ReadsAs code)
    (hlow : d'.exact ≤ d.exact) (hhigh : d.exact ≤ magnitude code) : d.ReadsAs code := by
  rw [← exact_expansion] at hhigh
  exact nearestCode_of_between h (nearestCode_expansion hcode) hlow hhigh

/-- If a decimal of a grid up to the lower neighbour is read as the code, so is that. -/
theorem low_readsAs (hcode : code < infinityCode)
    (h : (⟨n, place - 1074⟩ : Unsigned).ReadsAs code) (hle : n ≤ expansion code / 10 ^ place) :
    (lowOnGrid code place).ReadsAs code :=
  readsAs_of_below hcode h ((exact_le_exact_iff _).2 hle) (low_le code place)

theorem high_readsAs (hcode : code < infinityCode)
    (h : (⟨n, place - 1074⟩ : Unsigned).ReadsAs code) (hlt : expansion code / 10 ^ place < n) :
    (highOnGrid code place).ReadsAs code :=
  readsAs_of_above hcode h (le_of_lt (lt_high code place)) ((exact_le_exact_iff _).2 hlt)

theorem distance_low (code place : Nat) :
    (lowOnGrid code place).distance code
      = (expansion code % 10 ^ place : Nat) * 10 ^ (-1074 : Int) := by
  rw [Unsigned.distance_of_le (low_le code place), magnitude_eq_low_add code place,
    add_sub_cancel_left]

theorem distance_high (code place : Nat) :
    (highOnGrid code place).distance code
      = ((10 ^ place : Nat) - (expansion code % 10 ^ place : Nat)) * 10 ^ (-1074 : Int) := by
  rw [Unsigned.distance_of_ge (le_of_lt (lt_high code place)), high_eq_low_add,
    magnitude_eq_low_add code place, add_sub_add_left_eq_sub, sub_mul]

/-- The lower neighbour is the nearer one in the lower half of a step. -/
theorem distance_low_lt_iff (code place : Nat) :
    (lowOnGrid code place).distance code < (highOnGrid code place).distance code ↔
      2 * (expansion code % 10 ^ place) < 10 ^ place := by
  rw [distance_low, distance_high, mul_lt_mul_iff_left₀ (ten_zpow_pos _), lt_sub_iff_add_lt,
    ← Nat.cast_add, Nat.cast_lt, Nat.two_mul]

theorem distance_high_lt_iff (code place : Nat) :
    (highOnGrid code place).distance code < (lowOnGrid code place).distance code ↔
      10 ^ place < 2 * (expansion code % 10 ^ place) := by
  rw [distance_low, distance_high, mul_lt_mul_iff_left₀ (ten_zpow_pos _), sub_lt_iff_lt_add,
    ← Nat.cast_add, Nat.cast_lt, Nat.two_mul]

/-- What is taken of two neighbours that are both read as the code. -/
theorem closer_nearer (tie : Tie) (code place : Nat) :
    Closer tie code ⟨nearer tie (expansion code / 10 ^ place) (expansion code % 10 ^ place)
      (10 ^ place), place - 1074⟩ (lowOnGrid code place) ∧
    Closer tie code ⟨nearer tie (expansion code / 10 ^ place) (expansion code % 10 ^ place)
      (10 ^ place), place - 1074⟩ (highOnGrid code place) := by
  have hlow := distance_low_lt_iff code place
  have hhigh := distance_high_lt_iff code place
  unfold nearer
  split
  next hdown => exact ⟨Closer.refl tie code _, .inl (hlow.2 hdown)⟩
  next hdown =>
    split
    next hup => exact ⟨.inl (hhigh.2 hup), Closer.refl tie code _⟩
    next hup =>
      -- the exact value lies in the middle, and the format decides
      have heq : (lowOnGrid code place).distance code = (highOnGrid code place).distance code :=
        le_antisymm (not_lt.1 fun h => hup (hhigh.1 h)) (not_lt.1 fun h => hdown (hlow.1 h))
      cases tie with
      | up =>
          have hexact : (lowOnGrid code place).exact < (highOnGrid code place).exact :=
            (exact_lt_exact_iff _).2 (Nat.lt_succ_self _)
          exact ⟨.inr ⟨heq.symm, .inr hexact⟩, Closer.refl _ code _⟩
      | even =>
          rcases Nat.mod_two_eq_zero_or_one (expansion code / 10 ^ place) with heven | hodd
          · rw [heven]
            exact ⟨Closer.refl _ code _, .inr ⟨heq, .inr heven⟩⟩
          · rw [hodd]
            exact ⟨.inr ⟨heq.symm, .inr (by simp only [Tie.Prefers]; omega)⟩, Closer.refl _ code _⟩

/-- What is closer than the neighbours that are read as the code is closer than all others of
their grid. -/
theorem nearestOnGrid_of_neighbours (hcode : code < infinityCode)
    (hexponent : d.exponent = place - 1074)
    (hlow : (lowOnGrid code place).ReadsAs code → Closer tie code d (lowOnGrid code place))
    (hhigh : (highOnGrid code place).ReadsAs code → Closer tie code d (highOnGrid code place)) :
    NearestOnGrid tie code d := by
  intro n hread
  rw [hexponent] at hread ⊢
  by_cases hside : n ≤ expansion code / 10 ^ place
  · have hcloser := hlow (low_readsAs hcode hread hside)
    by_cases heq : n = expansion code / 10 ^ place
    · rw [heq]
      exact hcloser
    · exact .inl (lt_of_le_of_lt hcloser.distance_le (Unsigned.distance_lt_of_lt_of_le
        ((exact_lt_exact_iff _).2 (Nat.lt_of_le_of_ne hside heq)) (low_le code place)))
  · have hcloser := hhigh (high_readsAs hcode hread (Nat.lt_of_not_le hside))
    by_cases heq : n = expansion code / 10 ^ place + 1
    · rw [heq]
      exact hcloser
    · exact .inl (lt_of_le_of_lt hcloser.distance_le (Unsigned.distance_lt_of_le_of_lt
        (le_of_lt (lt_high code place)) ((exact_lt_exact_iff _).2 (by omega))))

/-- What is found on a grid lies on it, and is the nearest of those that do. -/
theorem nearestOnGrid_of_onGrid (hcode : code < infinityCode)
    (h : onGrid tie code place = some d) :
    d.exponent = place - 1074 ∧ NearestOnGrid tie code d := by
  have hnearer := closer_nearer tie code place
  unfold onGrid at h
  dsimp only at h
  split at h
  next =>
    obtain rfl := Option.some.inj h
    exact ⟨rfl, nearestOnGrid_of_neighbours hcode rfl (fun _ => hnearer.1) fun _ => hnearer.2⟩
  next hhigh =>
    obtain rfl := Option.some.inj h
    exact ⟨rfl, nearestOnGrid_of_neighbours hcode rfl (fun _ => Closer.refl tie code _)
      fun hread => absurd hread (ne_of_beq_false hhigh)⟩
  next hlow _ =>
    obtain rfl := Option.some.inj h
    exact ⟨rfl, nearestOnGrid_of_neighbours hcode rfl
      (fun hread => absurd hread (ne_of_beq_false hlow)) fun _ => Closer.refl tie code _⟩
  next => exact absurd h (by simp)

/-- A grid on which nothing is found has no decimal that is read as the code. -/
theorem not_readsAs_of_onGrid (hcode : code < infinityCode) (h : onGrid tie code place = none)
    (n : Nat) : ¬ (⟨n, place - 1074⟩ : Unsigned).ReadsAs code := by
  intro hread
  have hneighbour : (lowOnGrid code place).ReadsAs code ∨ (highOnGrid code place).ReadsAs code :=
    (Nat.lt_or_ge (expansion code / 10 ^ place) n).symm.imp
      (low_readsAs hcode hread) (high_readsAs hcode hread)
  unfold onGrid at h
  dsimp only at h
  split at h
  next => exact absurd h (by simp)
  next => exact absurd h (by simp)
  next => exact absurd h (by simp)
  next hlow hhigh =>
    exact hneighbour.elim (ne_of_beq_false hlow) (ne_of_beq_false hhigh)

end

/-! ## The search -/

/-- The search ends on a grid with the nearest decimal there, having found nothing on the
coarser grids that it tried. -/
theorem shortestFrom_spec (tie : Tie) (hcode : code < infinityCode) (places : Nat) :
    ∃ place : Nat, (shortestFrom tie code places).exponent = place - 1074 ∧
      NearestOnGrid tie code (shortestFrom tie code places) ∧
      ∀ coarser, place < coarser → coarser ≤ places → onGrid tie code coarser = none := by
  induction places with
  | zero =>
      -- the finest grid holds the exact value
      have hlow : lowOnGrid code 0 = shortestFrom tie code 0 := by
        simp [lowOnGrid, shortestFrom]
      have hstrict := (distance_low_lt_iff code 0).2 (by omega)
      rw [hlow] at hstrict
      refine ⟨0, rfl, nearestOnGrid_of_neighbours hcode rfl (fun _ => ?_) fun _ => .inl hstrict,
        fun coarser hlt hle => by omega⟩
      rw [hlow]
      exact Closer.refl tie code _
  | succ places ih =>
      rw [shortestFrom]
      cases h : onGrid tie code (places + 1) with
      | some d =>
          rcases nearestOnGrid_of_onGrid hcode h with ⟨hexponent, hnearest⟩
          exact ⟨places + 1, hexponent, hnearest, fun coarser hlt hle => by omega⟩
      | none =>
          rcases ih with ⟨place, hexponent, hnearest, hnone⟩
          refine ⟨place, hexponent, hnearest, fun coarser hlt hle => ?_⟩
          rcases Nat.lt_or_eq_of_le hle with hlt' | rfl
          · exact hnone coarser hlt (by omega)
          · exact h

/-- The next exact value is at most twice as great. -/
theorem magnitude_succ_le (hpos : 0 < code) : magnitude (code + 1) ≤ 2 * magnitude code := by
  have hunits := Binary64.units_succ_le (k := 1) (by decide) hpos
  rw [Nat.one_mul] at hunits
  have hcast : (units (code + 1) : ℚ) ≤ 2 * units code := by exact_mod_cast hunits
  rw [magnitude, magnitude, ← mul_div_assoc]
  exact div_le_div_of_nonneg_right hcast (by positivity)

/-- A decimal of ten times the value or more is not read as the code. -/
theorem not_readsAs_of_ten_mul_le (hpos : 0 < code) (hcode : code < infinityCode)
    (h : 10 * magnitude code ≤ d.exact) : ¬ d.ReadsAs code := by
  intro hread
  have hvalue : 0 ≤ magnitude code := by rw [magnitude]; positivity
  have hnext := magnitude_succ_le hpos
  have hle : code + 1 ≤ nearestCode d.digits d.exponent :=
    le_nearestCode_of_magnitude_le hcode (le_trans (by linarith) h)
  rw [hread] at hle
  omega

/-- The grids that the search leaves out have steps of ten times the value or more. -/
theorem ten_mul_magnitude_le {place : Nat}
    (h : (Nat.toDigits 10 (expansion code)).length < place) :
    10 * magnitude code ≤ 10 ^ ((place : Int) - 1074) := by
  have hdigits : expansion code < 10 ^ (Nat.toDigits 10 (expansion code)).length :=
    (Nat.length_toDigits_le_iff (by decide) Nat.length_toDigits_pos).1 (Nat.le_refl _)
  have hvalue : 10 * expansion code ≤ 10 ^ place := by
    calc
      10 * expansion code ≤ 10 * 10 ^ (Nat.toDigits 10 (expansion code)).length :=
        Nat.mul_le_mul_left _ (Nat.le_of_lt hdigits)
      _ = 10 ^ ((Nat.toDigits 10 (expansion code)).length + 1) := (Nat.pow_succ').symm
      _ ≤ 10 ^ place := Nat.pow_le_pow_right (by decide) h
  have hcast : (10 : ℚ) * expansion code ≤ (10 ^ place : Nat) := by exact_mod_cast hvalue
  rw [ten_zpow_place, ← exact_expansion, ← mul_assoc]
  exact mul_le_mul_of_nonneg_right hcast (le_of_lt (ten_zpow_pos _))

/-- Nothing on a coarser grid is read as the code. -/
theorem not_readsAs_of_coarser (tie : Tie) (hpos : 0 < code) (hcode : code < infinityCode)
    (h : (shortest tie code).exponent < d.exponent) : ¬ d.ReadsAs code := by
  intro hread
  rcases shortestFrom_spec tie hcode (Nat.toDigits 10 (expansion code)).length with
    ⟨place, hexponent, -, hnone⟩
  rw [← shortest] at hexponent
  rcases Int.eq_ofNat_of_zero_le (show 0 ≤ d.exponent + 1074 by omega) with ⟨coarser, hcoarser⟩
  have hgrid : d.exponent = coarser - 1074 := by omega
  by_cases htried : coarser ≤ (Nat.toDigits 10 (expansion code)).length
  · apply not_readsAs_of_onGrid hcode (hnone coarser (by omega) htried) d.digits
    rw [← hgrid]
    exact hread
  · refine not_readsAs_of_ten_mul_le hpos hcode ?_ hread
    have hdigits : (1 : ℚ) ≤ d.digits := by exact_mod_cast hread.digits_pos hpos
    calc
      10 * magnitude code ≤ 10 ^ d.exponent := by
        rw [hgrid]
        exact ten_mul_magnitude_le (Nat.lt_of_not_le htried)
      _ ≤ d.exact := le_mul_of_one_le_left (le_of_lt (ten_zpow_pos _)) hdigits

/-! ## Finer grids -/

/-- Zeros at the end of the digits are a coarser grid. -/
theorem exact_mul_ten_pow (n k : Nat) (e : Int) :
    (⟨n * 10 ^ k, e⟩ : Unsigned).exact = (⟨n, e + k⟩ : Unsigned).exact := by
  have hten : (10 : ℚ) ≠ 0 := by norm_num
  rw [Unsigned.exact, Unsigned.exact, zpow_add₀ hten, zpow_natCast]
  push_cast
  ring

/-- A power of ten that lies between the shortest decimal and another one of the code is on the
grid of the shortest one. -/
theorem eq_zero_of_ten_pow_between (tie : Tie) (hpos : 0 < code) (hcode : code < infinityCode)
    (hread : d.ReadsAs code) {k : Nat}
    (hlow : d.exact ≤ (⟨10 ^ k, (shortest tie code).exponent⟩ : Unsigned).exact)
    (hhigh : 10 ^ k ≤ (shortest tie code).digits) : k = 0 := by
  have hshortest : (shortest tie code).ReadsAs code := nearestCode_shortest tie hcode
  have hbetween : nearestCode (10 ^ k) (shortest tie code).exponent = code :=
    nearestCode_of_between hread hshortest hlow ((exact_le_exact_iff _).2 hhigh)
  rw [← Nat.one_mul (10 ^ k), nearestCode_mul_pow] at hbetween
  by_contra hk
  exact not_readsAs_of_coarser (d := ⟨1, (shortest tie code).exponent + k⟩) tie hpos hcode
    (show _ < _ + (k : Int) by omega) hbetween

/-- Few digits on a finer grid stay below the power of ten of a coarser one. -/
theorem exact_le_ten_pow {k : Nat} {e : Int} (hdigits : d.digits ≤ 10 ^ k)
    (he : d.exponent ≤ e) : d.exact ≤ (⟨10 ^ k, e⟩ : Unsigned).exact :=
  mul_le_mul (Nat.cast_le.2 hdigits) (zpow_le_zpow_right₀ (by norm_num) he)
    (le_of_lt (ten_zpow_pos _)) (Nat.cast_nonneg _)

/-- A decimal stays below the power of ten that has as many digits on a coarser grid. -/
theorem exact_lt_ten_pow {e : Int} (hfiner : d.exponent < e) :
    d.exact < (⟨10 ^ (d.count - 1), e⟩ : Unsigned).exact := by
  have hdigits : 10 ^ d.count = 10 ^ (d.count - 1) * 10 ^ 1 := by
    rw [← Nat.pow_add, Nat.sub_add_cancel d.count_pos]
  calc
    d.exact < (⟨10 ^ d.count, d.exponent⟩ : Unsigned).exact := (exact_lt_exact_iff _).2 d.digits_lt
    _ ≤ (⟨10 ^ d.count, e - 1⟩ : Unsigned).exact :=
      exact_le_ten_pow (Nat.le_refl _) (Int.le_sub_one_of_lt hfiner)
    _ = (⟨10 ^ (d.count - 1), e⟩ : Unsigned).exact := by
      rw [hdigits, exact_mul_ten_pow, Nat.cast_one, Int.sub_add_cancel]

/-- No decimal with fewer digits is read as the code. -/
theorem count_shortest_le (tie : Tie) (hpos : 0 < code) (hcode : code < infinityCode)
    (hread : d.ReadsAs code) : (shortest tie code).count ≤ d.count := by
  have hshortest : (shortest tie code).ReadsAs code := nearestCode_shortest tie hcode
  by_contra hfewer
  have hexponent : d.exponent ≤ (shortest tie code).exponent :=
    Int.not_lt.1 fun hcoarser => not_readsAs_of_coarser tie hpos hcode hcoarser hread
  have hzero := eq_zero_of_ten_pow_between tie hpos hcode hread
    (exact_le_ten_pow (Nat.le_of_lt d.digits_lt) hexponent)
    (Unsigned.ten_pow_le_digits (hshortest.digits_pos hpos) (Nat.lt_of_not_le hfewer))
  have hcount := d.count_pos
  omega

/-! ## Single digits -/

/-- Only small codes are wide enough for a power of ten and nine tenths of it. -/
theorem code_le_of_ten_and_nine (hcode : code < infinityCode) {e : Int}
    (hten : (⟨1, e⟩ : Unsigned).ReadsAs code)
    (hnine : (⟨9, e - 1⟩ : Unsigned).ReadsAs code) : code ≤ 19 := by
  by_contra hlarge
  -- both stay between the values of the neighbouring codes
  have hhigh : (10 : ℚ) ^ e < magnitude (code + 1) := by
    by_contra hbeyond
    have hle : code + 1 ≤ nearestCode 1 e :=
      le_nearestCode_of_magnitude_le hcode (by simpa using hbeyond)
    rw [hten] at hle
    omega
  have hlow : magnitude (code - 1) < 9 * (10 : ℚ) ^ (e - 1) := by
    by_contra hbeyond
    have hle : nearestCode 9 (e - 1) ≤ code - 1 :=
      nearestCode_le_of_le_magnitude (by omega) (by simpa using hbeyond)
    rw [hnine] at hle
    omega
  -- but these are not as far from each other
  have hunits : 361 * units (code + 1) ≤ 400 * units (code - 1) := by
    have hnext := Binary64.units_succ_le (by decide) (show 19 ≤ code by omega)
    have hself := Binary64.units_succ_le (by decide) (show 19 ≤ code - 1 by omega)
    rw [Nat.sub_add_cancel (by omega)] at hself
    omega
  have hstep := ten_zpow_eq_mul_ten e
  have hwide : 10 * magnitude (code - 1) < 9 * magnitude (code + 1) := by linarith
  rw [magnitude, magnitude, ← mul_div_assoc, ← mul_div_assoc,
    div_lt_div_iff_of_pos_right (by positivity)] at hwide
  have hwide_units : 10 * units (code - 1) < 9 * units (code + 1) := by exact_mod_cast hwide
  omega

/-- A greater power of ten is not read as a smaller code. -/
theorem nearestCode_one_mono {e e' : Int} (h : e ≤ e') : nearestCode 1 e ≤ nearestCode 1 e' :=
  nearestCode_mono (mul_le_mul_of_nonneg_left (zpow_le_zpow_right₀ (by norm_num) h)
    (Nat.cast_nonneg _))

/-- Where a power of ten and nine tenths of it are read as one code, the code is nearer to the
power of ten. -/
theorem nineteen_lt_of_ten_and_nine (hpos : 0 < code) (hcode : code < infinityCode) {e : Int}
    (hten : (⟨1, e⟩ : Unsigned).ReadsAs code)
    (hnine : (⟨9, e - 1⟩ : Unsigned).ReadsAs code) :
    19 * (10 : ℚ) ^ (e - 1) < 2 * magnitude code := by
  have hsmall := code_le_of_ten_and_nine hcode hten hnine
  -- this leaves one power of ten
  have hhigh : e < -322 := by
    by_contra hge
    have hle := nearestCode_one_mono (Int.not_lt.1 hge)
    rw [hten, show nearestCode 1 (-322) = 20 by decide +kernel] at hle
    omega
  have hlow : -324 < e := by
    by_contra hge
    have hle := nearestCode_one_mono (Int.not_lt.1 hge)
    rw [hten, show nearestCode 1 (-324) = 0 by decide +kernel] at hle
    omega
  obtain rfl : e = -323 := by omega
  obtain rfl : code = 2 := by
    rw [← hten]
    decide +kernel
  have hexpansion : 19 * 10 ^ 750 < 2 * expansion 2 := by decide +kernel
  have hcast : (19 : ℚ) * (10 ^ 750 : Nat) < 2 * expansion 2 := by exact_mod_cast hexpansion
  have hplace : (-323 - 1 : Int) = ((750 : Nat) : Int) - 1074 := rfl
  rw [← exact_expansion, hplace, ten_zpow_place, ← mul_assoc, ← mul_assoc]
  exact mul_lt_mul_of_pos_right hcast (ten_zpow_pos _)

theorem exact_one (e : Int) : (⟨1, e⟩ : Unsigned).exact = 10 ^ e := by
  rw [Unsigned.exact, Nat.cast_one, one_mul]

theorem exact_nine (e : Int) : (⟨9, e⟩ : Unsigned).exact = 9 * 10 ^ e := rfl

theorem exact_nine_lt (e : Int) : (⟨9, e - 1⟩ : Unsigned).exact < (⟨1, e⟩ : Unsigned).exact := by
  have hstep := ten_zpow_eq_mul_ten e
  have hpos := ten_zpow_pos (e - 1)
  rw [exact_nine, exact_one]
  linarith

/-- A single digit of a finer grid is at most nine tenths of a step. -/
theorem exact_le_nine (hdigit : d.digits ≤ 9) {e : Int} (hfiner : d.exponent < e) :
    d.exact ≤ (⟨9, e - 1⟩ : Unsigned).exact :=
  mul_le_mul (Nat.cast_le.2 hdigit) (zpow_le_zpow_right₀ (by norm_num) (Int.le_sub_one_of_lt hfiner))
    (le_of_lt (ten_zpow_pos _)) (Nat.cast_nonneg _)

/-- If a power of ten and something up to nine tenths of it are read as one code, the power of
ten is the nearer one. -/
theorem distance_ten_lt (hpos : 0 < code) (hcode : code < infinityCode) {e : Int}
    (hten : (⟨1, e⟩ : Unsigned).ReadsAs code) (hread : d.ReadsAs code)
    (hle : d.exact ≤ (⟨9, e - 1⟩ : Unsigned).exact) :
    (⟨1, e⟩ : Unsigned).distance code < d.distance code := by
  have hlt := lt_of_le_of_lt hle (exact_nine_lt e)
  rcases le_total (⟨1, e⟩ : Unsigned).exact (magnitude code) with hbelow | habove
  · exact Unsigned.distance_lt_of_lt_of_le hlt hbelow
  · have hnine : (⟨9, e - 1⟩ : Unsigned).ReadsAs code :=
      nearestCode_of_between hread hten hle (le_of_lt (exact_nine_lt e))
    have hnearer := nineteen_lt_of_ten_and_nine hpos hcode hten hnine
    have hstep := ten_zpow_eq_mul_ten e
    have hpos_step := ten_zpow_pos (e - 1)
    rw [exact_nine] at hle
    rw [Unsigned.distance_of_ge habove, Unsigned.distance_of_le (by linarith), exact_one]
    linarith

/-! ## The shortest decimal -/

/-- What the search finds is the nearest of its grid. -/
theorem nearestOnGrid_shortest (tie : Tie) (hcode : code < infinityCode) :
    NearestOnGrid tie code (shortest tie code) := by
  rcases shortestFrom_spec tie hcode (Nat.toDigits 10 (expansion code)).length with
    ⟨_, _, hnearest, _⟩
  exact hnearest

/-- On a finer grid a decimal of the code with no more digits has one digit, and the power of ten
above it is read as the code, too. -/
theorem single_of_finer (tie : Tie) (hpos : 0 < code) (hcode : code < infinityCode)
    (hread : d.ReadsAs code) (hcount : d.count ≤ (shortest tie code).count)
    (hfiner : d.exponent < (shortest tie code).exponent) :
    d.digits ≤ 9 ∧ (⟨1, (shortest tie code).exponent⟩ : Unsigned).ReadsAs code := by
  have hshortest : (shortest tie code).ReadsAs code := nearestCode_shortest tie hcode
  have hdigits_pos := hshortest.digits_pos hpos
  have hcount_pos := d.count_pos
  have hlt := exact_lt_ten_pow hfiner
  have hsingle := eq_zero_of_ten_pow_between tie hpos hcode hread (le_of_lt hlt)
    (Unsigned.ten_pow_le_digits hdigits_pos (by omega))
  have hdigit := (d.count_le_iff (by decide)).1 (Nat.le_of_sub_eq_zero hsingle)
  rw [hsingle, Nat.pow_zero] at hlt
  exact ⟨Nat.le_of_lt_succ hdigit,
    nearestCode_of_between hread hshortest (le_of_lt hlt) ((exact_le_exact_iff _).2 hdigits_pos)⟩

/-- Of the decimals with as few digits what the search finds is the nearest. -/
theorem closer_shortest (tie : Tie) (hpos : 0 < code) (hcode : code < infinityCode)
    (hread : d.ReadsAs code) (hcount : d.count = (shortest tie code).count) :
    Closer tie code (shortest tie code) d := by
  have hgrid := nearestOnGrid_shortest tie hcode
  have hexponent : d.exponent ≤ (shortest tie code).exponent :=
    Int.not_lt.1 fun hcoarser => not_readsAs_of_coarser tie hpos hcode hcoarser hread
  rcases Int.lt_or_eq_of_le hexponent with hfiner | hsame
  · rcases single_of_finer tie hpos hcode hread (Nat.le_of_eq hcount) hfiner with ⟨hdigit, hone⟩
    exact .inl (lt_of_le_of_lt (hgrid 1 hone).distance_le
      (distance_ten_lt hpos hcode hone hread (exact_le_nine hdigit hfiner)))
  · have hcloser := hgrid d.digits
    rw [← hsame] at hcloser
    exact hcloser hread

/-- The search finds the shortest decimal. -/
theorem isShortest_shortest (tie : Tie) (hpos : 0 < code) (hcode : code < infinityCode) :
    IsShortest tie code (shortest tie code) where
  reads := nearestCode_shortest tie hcode
  fewest _ hread := count_shortest_le tie hpos hcode hread
  closest _ hread hcount := closer_shortest tie hpos hcode hread hcount

/-- Decimals with equally many digits are on one grid if they have one value. -/
theorem exponent_le_of_exact_eq (hdigits : 0 < d'.digits) (hcount : d.count = d'.count)
    (hexact : d.exact = d'.exact) : d'.exponent ≤ d.exponent := by
  by_contra hfiner
  have hlt := exact_lt_ten_pow (Int.lt_of_not_ge hfiner)
  have hle : (⟨10 ^ (d.count - 1), d'.exponent⟩ : Unsigned).exact ≤ d'.exact :=
    (exact_le_exact_iff _).2 (Unsigned.ten_pow_le_digits hdigits (by have := d.count_pos; omega))
  linarith

/-- There is only one shortest decimal, if ties go up. -/
theorem IsShortest.unique (hpos : 0 < code) (h : IsShortest .up code d)
    (h' : IsShortest .up code d') : d = d' := by
  have hcount : d.count = d'.count :=
    Nat.le_antisymm (h.fewest d' h'.reads) (h'.fewest d h.reads)
  have hexact : d.exact = d'.exact := by
    rcases h.closest d' h'.reads hcount.symm with hlt | ⟨heq, hexact | hprefers⟩
    · exact absurd (h'.closest d h.reads hcount).distance_le (not_le.2 hlt)
    · exact hexact
    · rcases h'.closest d h.reads hcount with hlt | ⟨-, hexact | hprefers'⟩
      · exact absurd heq (ne_of_gt hlt)
      · exact hexact.symm
      · exact absurd hprefers (not_lt.2 (le_of_lt hprefers'))
  have hexponent : d.exponent = d'.exponent :=
    Int.le_antisymm (exponent_le_of_exact_eq (h.reads.digits_pos hpos) hcount.symm hexact.symm)
      (exponent_le_of_exact_eq (h'.reads.digits_pos hpos) hcount hexact)
  rcases d with ⟨n, e⟩
  rcases d' with ⟨n', e'⟩
  obtain rfl : e = e' := hexponent
  have hdigits := Nat.le_antisymm ((exact_le_exact_iff e).1 (le_of_eq hexact))
    ((exact_le_exact_iff e).1 (le_of_eq hexact.symm))
  rw [hdigits]

end Decimal

end TableFixture
