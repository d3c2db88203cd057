import Mathlib.Data.Nat.Log
import Mathlib.Tactic.Ring
import VaultQuery.Number.Decimal

/-! # Rounding to the nearest double

    Division rounds to a whole number of steps, and the size of a step is a power of two that
    fits the quotient. So rounding keeps the order of what it rounds, and adds at most half a
    step.

    * `Double.divideToEven_cases`: the quotient, or the next number when the rest is at least
      half a divisor;
    * `Double.lt_fittingScale`, `Double.le_of_fittingScale_pos`: the steps fit;
    * `Double.fittingScale_split`: the size of a step, evaluated in few steps;
    * `Double.le_roundedMagnitude`, `Double.roundedMagnitude_le`: rounding keeps the order;
    * `Double.units_nearest`: the value of a rounded number;
    * `Double.units_ofNat_le`: a natural number grows by no more than one part in `2 ^ 53`. -/

namespace VaultQuery

theorem exponentWeight_eq : exponentWeight = 2 ^ 52 := rfl

/-- One is this power of two in units. -/
def oneScale : Nat := 1074

theorem unitsPerOne_eq : unitsPerOne = 2 ^ oneScale :=
  (Nat.shiftLeft_eq 1 oneScale).trans (Nat.one_mul _)

theorem unitsPerOne_pos : 0 < unitsPerOne := by
  rw [unitsPerOne_eq]
  exact Nat.two_pow_pos _

namespace Double

variable {num den k m t : Nat}

/-! ## Division -/

/-- Division takes the quotient, or the next number when the rest is at least half. -/
theorem divideToEven_cases (num den : Nat) :
    (divideToEven num den = num / den ∧ 2 * (num % den) ≤ den) ∨
      (divideToEven num den = num / den + 1 ∧ den ≤ 2 * (num % den)) := by
  simp only [divideToEven]
  split
  · exact Or.inl ⟨rfl, by omega⟩
  · split
    · exact Or.inr ⟨rfl, by omega⟩
    · split
      · exact Or.inl ⟨rfl, by omega⟩
      · exact Or.inr ⟨rfl, by omega⟩

theorem le_divideToEven (hden : 0 < den) (h : k * den ≤ num) : k ≤ divideToEven num den := by
  have hquotient : k ≤ num / den := (Nat.le_div_iff_mul_le hden).mpr h
  rcases divideToEven_cases num den with ⟨heq, -⟩ | ⟨heq, -⟩
  · rw [heq]
    exact hquotient
  · rw [heq]
    exact Nat.le_succ_of_le hquotient

theorem divideToEven_le (hden : 0 < den) (h : num ≤ k * den) : divideToEven num den ≤ k := by
  rcases divideToEven_cases num den with ⟨heq, -⟩ | ⟨heq, hrest⟩
  · rw [heq]
    exact Nat.div_le_of_le_mul (Nat.mul_comm k den ▸ h)
  · -- something is left over, so the quotient falls short of the bound
    have hsplit := Nat.div_add_mod num den
    have hlt : den * (num / den) < den * k := by
      rw [Nat.mul_comm den k]
      omega
    rw [heq]
    exact Nat.lt_of_mul_lt_mul_left hlt

/-- Rounding adds at most half a step. -/
theorem two_mul_divideToEven_le (num den : Nat) :
    2 * (divideToEven num den * den) ≤ 2 * num + den := by
  have hsplit := Nat.div_add_mod num den
  have hcomm : num / den * den = den * (num / den) := Nat.mul_comm _ _
  rcases divideToEven_cases num den with ⟨heq, -⟩ | ⟨heq, hrest⟩
  · rw [heq]
    omega
  · rw [heq, Nat.add_mul]
    omega

/-! ## Steps that fit -/

theorem lt_fittingScale (hden : 0 < den) :
    num * unitsPerOne < 2 ^ (fittingScale num den + 53) * den := by
  have hlog : num * unitsPerOne / den < 2 ^ ((num * unitsPerOne / den).log2 + 1) :=
    Nat.lt_log2_self
  have hpow : 2 ^ ((num * unitsPerOne / den).log2 + 1) ≤ 2 ^ (fittingScale num den + 53) :=
    Nat.pow_le_pow_right (by decide) (by rw [fittingScale]; omega)
  exact (Nat.div_lt_iff_lt_mul hden).mp (Nat.lt_of_lt_of_le hlog hpow)

theorem le_of_fittingScale_pos (h : 0 < fittingScale num den) :
    2 ^ (fittingScale num den + 52) * den ≤ num * unitsPerOne := by
  have hlog : (num * unitsPerOne / den).log2 = fittingScale num den + 52 := by
    rw [fittingScale] at h ⊢
    omega
  have hquotient : num * unitsPerOne / den ≠ 0 := by
    intro hzero
    rw [hzero, Nat.log2_zero] at hlog
    omega
  have hle := Nat.log2_self_le hquotient
  rw [hlog] at hle
  exact Nat.mul_le_of_le_div _ _ _ hle

/-- The scale of a number, its binary logarithm counted from `k` up when it is that large. So
    evaluated, a number of thousands of binary digits costs few steps. -/
theorem fittingScale_split (k num den : Nat) :
    fittingScale num den =
      (if 1 <<< k ≤ num * unitsPerOne / den then
          k + ((num * unitsPerOne / den) >>> k).log2
        else (num * unitsPerOne / den).log2) - 52 := by
  rw [fittingScale]
  split
  · rename_i hle
    rw [Nat.one_shiftLeft] at hle
    have hlog : k ≤ Nat.log 2 (num * unitsPerOne / den) :=
      Nat.le_log_of_pow_le Nat.one_lt_two hle
    rw [Nat.log2_eq_log_two, Nat.log2_eq_log_two, Nat.shiftRight_eq_div_pow,
      Nat.log_div_base_pow, Nat.add_sub_cancel' hlog]
  · rfl

/-- The steps of a number. -/
def roundedSteps (num den : Nat) : Nat :=
  divideToEven (num * unitsPerOne) (den <<< fittingScale num den)

/-- The magnitude of a rounded number, as if there were no largest double. -/
def roundedMagnitude (num den : Nat) : Nat :=
  fittingScale num den * exponentWeight + roundedSteps num den

theorem nearestMagnitude_eq (num den : Nat) :
    nearestMagnitude num den = min infinityMagnitude (roundedMagnitude num den) := rfl

theorem shiftLeft_fittingScale (num den : Nat) :
    den <<< fittingScale num den = 2 ^ fittingScale num den * den := by
  rw [Nat.shiftLeft_eq, Nat.mul_comm]

theorem shiftLeft_pos (hden : 0 < den) : 0 < den <<< fittingScale num den := by
  rw [shiftLeft_fittingScale]
  exact Nat.mul_pos (Nat.two_pow_pos _) hden

/-- No more than 53 binary digits before the point. -/
theorem roundedSteps_le (hden : 0 < den) : roundedSteps num den ≤ 2 * exponentWeight := by
  refine divideToEven_le (shiftLeft_pos hden) (Nat.le_of_lt ?_)
  have hfits : num * unitsPerOne < 2 ^ (fittingScale num den + 53) * den := lt_fittingScale hden
  rw [shiftLeft_fittingScale, exponentWeight_eq, ← Nat.mul_assoc, ← Nat.pow_succ',
    ← Nat.pow_add, Nat.add_comm 53]
  exact hfits

/-- Exactly 53 of them, unless the least step is taken. -/
theorem le_roundedSteps (hden : 0 < den) (h : 0 < fittingScale num den) :
    exponentWeight ≤ roundedSteps num den := by
  refine le_divideToEven (shiftLeft_pos hden) ?_
  have hfits := le_of_fittingScale_pos h
  rw [shiftLeft_fittingScale, exponentWeight_eq, ← Nat.mul_assoc, ← Nat.pow_add, Nat.add_comm 52]
  exact hfits

/-! ## Rounding keeps the order -/

/-- What is at least `m` steps of `2 ^ t` units is rounded to no less. -/
theorem le_roundedMagnitude (hden : 0 < den) (hleast : exponentWeight ≤ m)
    (hmost : m ≤ 2 * exponentWeight) (h : m * 2 ^ t * den ≤ num * unitsPerOne) :
    t * exponentWeight + m ≤ roundedMagnitude num den := by
  have hfits := Nat.lt_of_le_of_lt h (lt_fittingScale hden)
  have hscale : t ≤ fittingScale num den := by
    have hlt : m * 2 ^ t < 2 ^ (fittingScale num den + 53) := Nat.lt_of_mul_lt_mul_right hfits
    have hpow : 2 ^ (52 + t) ≤ m * 2 ^ t := by
      rw [Nat.pow_add]
      exact Nat.mul_le_mul_right _ hleast
    have hexponent : 52 + t < fittingScale num den + 53 :=
      (Nat.pow_lt_pow_iff_right (by decide)).mp (Nat.lt_of_le_of_lt hpow hlt)
    omega
  rw [roundedMagnitude]
  rcases Nat.eq_or_lt_of_le hscale with heq | hlt
  · have hsteps : m ≤ roundedSteps num den := by
      refine le_divideToEven (shiftLeft_pos hden) ?_
      rw [shiftLeft_fittingScale, ← heq, ← Nat.mul_assoc]
      exact h
    rw [← heq]
    omega
  -- a larger step: there are at least half as many of them
  · have hsteps := le_roundedSteps hden (Nat.lt_of_le_of_lt (Nat.zero_le t) hlt)
    have hmul : (t + 1) * exponentWeight ≤ fittingScale num den * exponentWeight :=
      Nat.mul_le_mul_right _ hlt
    rw [Nat.add_mul] at hmul
    omega

/-- What is at most `m` steps of `2 ^ t` units is rounded to no more. -/
theorem roundedMagnitude_le (hden : 0 < den) (hleast : exponentWeight ≤ m)
    (hmost : m < 2 * exponentWeight) (h : num * unitsPerOne ≤ m * 2 ^ t * den) :
    roundedMagnitude num den ≤ t * exponentWeight + m := by
  rw [roundedMagnitude]
  rcases Nat.lt_trichotomy (fittingScale num den) t with hlt | heq | hgt
  -- a smaller step: there are at most twice as many of them
  · have hsteps : roundedSteps num den ≤ 2 * exponentWeight := roundedSteps_le hden
    have hmul : (fittingScale num den + 1) * exponentWeight ≤ t * exponentWeight :=
      Nat.mul_le_mul_right _ hlt
    rw [Nat.add_mul] at hmul
    omega
  · have hsteps : roundedSteps num den ≤ m := by
      refine divideToEven_le (shiftLeft_pos hden) ?_
      rw [shiftLeft_fittingScale, heq, ← Nat.mul_assoc]
      exact h
    rw [heq]
    omega
  · exfalso
    have hfits := Nat.le_trans (le_of_fittingScale_pos (Nat.lt_of_le_of_lt (Nat.zero_le t) hgt)) h
    have hle : 2 ^ (fittingScale num den + 52) ≤ m * 2 ^ t := Nat.le_of_mul_le_mul_right hfits hden
    have hpow : m * 2 ^ t < 2 ^ (53 + t) := by
      rw [Nat.pow_add]
      exact Nat.mul_lt_mul_of_pos_right hmost (Nat.two_pow_pos t)
    have hexponent : fittingScale num den + 52 < 53 + t :=
      (Nat.pow_lt_pow_iff_right (by decide)).mp (Nat.lt_of_le_of_lt hle hpow)
    omega

/-! ## The value of a rounded number -/

/-- A magnitude of `a + 1` exponent bits and the fraction `b` has the leading one and `b` as
    steps of `2 ^ a` units. -/
theorem units_of_magnitude_eq {d : Double} {a b : Nat} (hb : b < exponentWeight)
    (h : d.magnitude = (a + 1) * exponentWeight + b) :
    d.units = (exponentWeight + b) * 2 ^ a := by
  have hweight : 0 < exponentWeight := by decide
  have hbits : d.exponentBits = a + 1 := by
    rw [exponentBits, h, Nat.add_comm, Nat.add_mul_div_right _ _ hweight, Nat.div_eq_of_lt hb,
      Nat.zero_add]
  have hfraction : d.magnitude % exponentWeight = b := by
    rw [h, Nat.add_comm, Nat.add_mul_mod_self_right, Nat.mod_eq_of_lt hb]
  rw [units, significand, scale, hbits, if_neg (Nat.succ_ne_zero a), hfraction, Nat.shiftLeft_eq]
  rfl

/-- Without exponent bits the magnitude is the number of units. -/
theorem units_of_magnitude_lt {d : Double} (h : d.magnitude < exponentWeight) :
    d.units = d.magnitude := by
  have hbits : d.exponentBits = 0 := Nat.div_eq_of_lt h
  rw [units, significand, scale, hbits, if_pos rfl]
  rfl

/-- Either there are no exponent bits and the units are the fraction, or a leading bit stands in
    front of it. -/
theorem units_cases (d : Double) :
    d.magnitude < exponentWeight ∧ d.units = d.magnitude ∨
      ∃ a b, b < exponentWeight ∧ d.magnitude = (a + 1) * exponentWeight + b ∧
        d.units = (exponentWeight + b) * 2 ^ a := by
  have hsplit := Nat.div_add_mod d.magnitude exponentWeight
  have hfraction : d.magnitude % exponentWeight < exponentWeight := Nat.mod_lt _ (by decide)
  cases hbits : d.magnitude / exponentWeight with
  | zero =>
      have hsmall : d.magnitude < exponentWeight := by
        rw [hbits] at hsplit
        omega
      exact Or.inl ⟨hsmall, units_of_magnitude_lt hsmall⟩
  | succ a =>
      rw [hbits, Nat.mul_comm] at hsplit
      exact Or.inr ⟨a, _, hfraction, hsplit.symm, units_of_magnitude_eq hfraction hsplit.symm⟩

/-- A rounded number has as many units as its steps have. -/
theorem units_nearest {negative : Bool} (hden : 0 < den)
    (h : roundedMagnitude num den < infinityMagnitude) :
    (nearest negative num den).units = roundedSteps num den * 2 ^ fittingScale num den := by
  have hmagnitude : (nearest negative num den).magnitude
      = fittingScale num den * exponentWeight + roundedSteps num den := by
    show nearestMagnitude num den = _
    rw [nearestMagnitude_eq, Nat.min_eq_right (Nat.le_of_lt h), roundedMagnitude]
  have hmost : roundedSteps num den ≤ 2 * exponentWeight := roundedSteps_le hden
  by_cases hsmall : roundedSteps num den < exponentWeight
  -- so few steps are of the least size
  · have hzero : fittingScale num den = 0 := by
      refine Decidable.of_not_not fun hne => ?_
      have hleast := le_roundedSteps hden (Nat.pos_of_ne_zero hne)
      omega
    rw [hzero, Nat.zero_mul, Nat.zero_add] at hmagnitude
    rw [units_of_magnitude_lt (hmagnitude ▸ hsmall), hmagnitude, hzero, Nat.pow_zero, Nat.mul_one]
  · rcases Nat.eq_or_lt_of_le hmost with heq | hlt
    -- rounded up to the next power of two
    · have hsplit : (nearest negative num den).magnitude
          = (fittingScale num den + 1 + 1) * exponentWeight + 0 := by
        rw [hmagnitude, heq, Nat.add_mul, Nat.add_mul]
        omega
      rw [units_of_magnitude_eq (by decide) hsplit, heq]
      ring
    · have hsplit : (nearest negative num den).magnitude = (fittingScale num den + 1)
          * exponentWeight + (roundedSteps num den - exponentWeight) := by
        rw [hmagnitude, Nat.add_mul]
        omega
      have hleading : exponentWeight + (roundedSteps num den - exponentWeight)
          = roundedSteps num den := by omega
      rw [units_of_magnitude_eq (by omega) hsplit, hleading]

/-- **A natural number grows by no more than one part in `2 ^ 53`** when it is rounded. -/
theorem units_ofNat_le {n : Nat} (h : roundedMagnitude n 1 < infinityMagnitude) :
    (ofNat n).units * (2 * exponentWeight) ≤ n * unitsPerOne * (2 * exponentWeight + 1) := by
  have hsteps := two_mul_divideToEven_le (n * unitsPerOne) (1 <<< fittingScale n 1)
  rw [shiftLeft_fittingScale, Nat.mul_one] at hsteps
  have hunits : (ofNat n).units = divideToEven (n * unitsPerOne) (2 ^ fittingScale n 1)
      * 2 ^ fittingScale n 1 := by
    rw [ofNat, units_nearest Nat.one_pos h, roundedSteps, shiftLeft_fittingScale, Nat.mul_one]
  rw [← hunits] at hsteps
  by_cases hn : n = 0
  · have hzero : divideToEven (n * unitsPerOne) (2 ^ fittingScale n 1) = 0 := by
      refine Nat.le_zero.mp (divideToEven_le (Nat.two_pow_pos _) ?_)
      rw [hn, Nat.zero_mul]
      exact Nat.zero_le _
    rw [hunits, hzero, Nat.zero_mul, Nat.zero_mul]
    exact Nat.zero_le _
  -- one step is no more than one part of the number
  have hstep : 2 ^ fittingScale n 1 * exponentWeight ≤ n * unitsPerOne := by
    by_cases hscale : 0 < fittingScale n 1
    · have hfits := le_of_fittingScale_pos hscale
      rw [Nat.mul_one, Nat.pow_add] at hfits
      exact hfits
    · have hzero : fittingScale n 1 = 0 := by omega
      have hunit : exponentWeight ≤ unitsPerOne := by
        rw [exponentWeight_eq, unitsPerOne_eq]
        exact Nat.pow_le_pow_right (by decide) (by decide)
      rw [hzero, Nat.pow_zero, Nat.one_mul]
      exact Nat.le_trans hunit (Nat.le_mul_of_pos_left _ (Nat.pos_of_ne_zero hn))
  have hscaled : 2 * (ofNat n).units * exponentWeight
      ≤ (2 * (n * unitsPerOne) + 2 ^ fittingScale n 1) * exponentWeight :=
    Nat.mul_le_mul_right _ hsteps
  rw [Nat.add_mul] at hscaled
  calc (ofNat n).units * (2 * exponentWeight)
      = 2 * (ofNat n).units * exponentWeight := by ring
    _ ≤ 2 * (n * unitsPerOne) * exponentWeight + n * unitsPerOne := by omega
    _ = n * unitsPerOne * (2 * exponentWeight + 1) := by ring

/-! ## The largest doubles -/

/-- The power of two, in units, that is the step of the largest doubles, and the same power
    counted in ones. -/
def topScale : Nat := 2045

def topExponent : Nat := topScale - oneScale

theorem two_pow_topScale : 2 ^ topScale = 2 ^ topExponent * unitsPerOne := by
  have hsum : topScale = topExponent + oneScale := rfl
  rw [unitsPerOne_eq, ← Nat.pow_add, ← hsum]

/-- The third largest double. -/
def thirdLargest : Nat := (2 * exponentWeight - 3) * 2 ^ topExponent

theorem thirdLargest_pos : 0 < thirdLargest := Nat.mul_pos (by decide) (Nat.two_pow_pos _)

/-- What is rounded to less than the third largest double is less. -/
theorem lt_of_nearestMagnitude_lt (hden : 0 < den)
    (h : nearestMagnitude num den < infinityMagnitude - 3) : num < thirdLargest * den := by
  refine Nat.lt_of_not_le fun hle => ?_
  have hunits : (2 * exponentWeight - 3) * 2 ^ topScale * den ≤ num * unitsPerOne := by
    calc (2 * exponentWeight - 3) * 2 ^ topScale * den
        = thirdLargest * den * unitsPerOne := by
          rw [two_pow_topScale, thirdLargest]
          ring
      _ ≤ num * unitsPerOne := Nat.mul_le_mul_right _ hle
  have hrounded := le_roundedMagnitude hden (by decide) (by decide) hunits
  have htop : topScale * exponentWeight + (2 * exponentWeight - 3) = infinityMagnitude - 3 := rfl
  rw [nearestMagnitude_eq] at h
  omega

/-- What is no more than the largest double is rounded to a double. -/
theorem roundedMagnitude_lt (hden : 0 < den)
    (h : num * unitsPerOne ≤ (2 * exponentWeight - 1) * 2 ^ topScale * den) :
    roundedMagnitude num den < infinityMagnitude := by
  have hrounded := roundedMagnitude_le hden (by decide) (by decide) h
  have htop : topScale * exponentWeight + (2 * exponentWeight - 1) = infinityMagnitude - 1 := rfl
  rw [htop] at hrounded
  exact Nat.lt_of_le_of_lt hrounded (by decide)

theorem roundedMagnitude_lt_of_le_largestFinite {n : Nat} (h : n ≤ largestFinite) :
    roundedMagnitude n 1 < infinityMagnitude := by
  refine roundedMagnitude_lt Nat.one_pos ?_
  have hlargest : largestFinite = (2 * exponentWeight - 1) * 2 ^ topExponent := by
    rw [← Nat.shiftLeft_eq]
    decide +kernel
  calc n * unitsPerOne
      ≤ largestFinite * unitsPerOne := Nat.mul_le_mul_right _ h
    _ = (2 * exponentWeight - 1) * 2 ^ topScale * 1 := by
        rw [hlargest, two_pow_topScale]
        ring

theorem isFinite_nearest_of_lt {negative : Bool}
    (h : roundedMagnitude num den < infinityMagnitude) :
    (nearest negative num den).isFinite = true := by
  have hlt : nearestMagnitude num den < infinityMagnitude := by
    rw [nearestMagnitude_eq, Nat.min_eq_right (Nat.le_of_lt h)]
    exact h
  exact decide_eq_true hlt

theorem isFinite_ofNat {n : Nat} (h : n ≤ largestFinite) : (ofNat n).isFinite = true :=
  isFinite_nearest_of_lt (roundedMagnitude_lt_of_le_largestFinite h)

/-- A double of no more magnitude has no more units. -/
theorem units_le_of_magnitude_le {d : Double} {a b : Nat} (hb : b < exponentWeight)
    (h : d.magnitude ≤ (a + 1) * exponentWeight + b) :
    d.units ≤ (exponentWeight + b) * 2 ^ a := by
  rcases d.units_cases with ⟨hsmall, hunits⟩ | ⟨c, e, he, hmagnitude, hunits⟩
  · rw [hunits]
    exact Nat.le_trans (Nat.le_add_right_of_le (Nat.le_of_lt hsmall))
      (Nat.le_mul_of_pos_right _ (Nat.two_pow_pos a))
  · rw [hmagnitude] at h
    rw [hunits]
    have hle : c ≤ a := by
      have hlt : (c + 1) * exponentWeight < (a + 1 + 1) * exponentWeight := by
        rw [Nat.add_mul (a + 1)]
        omega
      have hless := Nat.lt_of_mul_lt_mul_right hlt
      omega
    rcases Nat.eq_or_lt_of_le hle with heq | hlt
    -- steps of one size: the fraction decides
    · rw [heq] at h ⊢
      exact Nat.mul_le_mul_right _ (by omega)
    · have hpow : 2 ^ (c + 1) ≤ 2 ^ a := Nat.pow_le_pow_right (by decide) hlt
      calc (exponentWeight + e) * 2 ^ c
          ≤ 2 * exponentWeight * 2 ^ c := Nat.mul_le_mul_right _ (by omega)
        _ = exponentWeight * 2 ^ (c + 1) := by ring
        _ ≤ (exponentWeight + b) * 2 ^ a := Nat.mul_le_mul (Nat.le_add_right _ _) hpow

/-- No double has more units than the largest. -/
theorem units_le {d : Double} (h : d.isFinite = true) :
    d.units ≤ (2 * exponentWeight - 1) * 2 ^ topScale := by
  have hlt : d.magnitude < infinityMagnitude := of_decide_eq_true h
  have htop : infinityMagnitude = (topScale + 1) * exponentWeight + (exponentWeight - 1) + 1 := rfl
  have hfraction : 2 * exponentWeight - 1 = exponentWeight + (exponentWeight - 1) := by decide
  have hle : d.magnitude ≤ (topScale + 1) * exponentWeight + (exponentWeight - 1) := by omega
  rw [hfraction]
  exact units_le_of_magnitude_le (by decide) hle

/-- A double below the third largest has fewer units. -/
theorem units_lt_of_magnitude_lt {d : Double} (h : d.magnitude < infinityMagnitude - 3) :
    d.units < thirdLargest * unitsPerOne := by
  have hunits : thirdLargest * unitsPerOne = (2 * exponentWeight - 3) * 2 ^ topScale := by
    rw [two_pow_topScale, thirdLargest]
    ring
  have htop : infinityMagnitude - 3 = (topScale + 1) * exponentWeight + (exponentWeight - 4) + 1 :=
    rfl
  have hle : d.magnitude ≤ (topScale + 1) * exponentWeight + (exponentWeight - 4) := by omega
  have hfraction : exponentWeight + (exponentWeight - 4) < 2 * exponentWeight - 3 := by decide
  rw [hunits]
  calc d.units
      ≤ (exponentWeight + (exponentWeight - 4)) * 2 ^ topScale :=
        units_le_of_magnitude_le (by decide) hle
    _ < (2 * exponentWeight - 3) * 2 ^ topScale :=
        Nat.mul_lt_mul_of_pos_right hfraction (Nat.two_pow_pos topScale)

/-- **Rounding twice leaves a product finite** that is less than the third largest double: both
    factors and the product grow too little to reach the largest. -/
theorem isInfinite_mul_ofNat {m p : Nat} (hm : m ≤ largestFinite) (hp : p ≤ largestFinite)
    (h : m * p ≤ thirdLargest) : ((ofNat m).mul (ofNat p)).isInfinite = false := by
  have hmunits := units_ofNat_le (roundedMagnitude_lt_of_le_largestFinite hm)
  have hpunits := units_ofNat_le (roundedMagnitude_lt_of_le_largestFinite hp)
  have hweight : 0 < 2 * exponentWeight * (2 * exponentWeight) := by decide
  have hgrowth : (2 * exponentWeight - 3) * ((2 * exponentWeight + 1) * (2 * exponentWeight + 1))
      ≤ (2 * exponentWeight - 1) * (2 * exponentWeight * (2 * exponentWeight)) := by decide
  have hproduct : (ofNat m).units * (ofNat p).units
      ≤ (2 * exponentWeight - 1) * 2 ^ topExponent * (unitsPerOne * unitsPerOne) := by
    refine Nat.le_of_mul_le_mul_right ?_ hweight
    calc (ofNat m).units * (ofNat p).units * (2 * exponentWeight * (2 * exponentWeight))
        = (ofNat m).units * (2 * exponentWeight) * ((ofNat p).units * (2 * exponentWeight)) := by
          ring
      _ ≤ m * unitsPerOne * (2 * exponentWeight + 1)
            * (p * unitsPerOne * (2 * exponentWeight + 1)) := Nat.mul_le_mul hmunits hpunits
      _ = m * p * ((2 * exponentWeight + 1) * (2 * exponentWeight + 1)
            * (unitsPerOne * unitsPerOne)) := by ring
      _ ≤ thirdLargest * ((2 * exponentWeight + 1) * (2 * exponentWeight + 1)
            * (unitsPerOne * unitsPerOne)) := Nat.mul_le_mul_right _ h
      _ = (2 * exponentWeight - 3) * ((2 * exponentWeight + 1) * (2 * exponentWeight + 1))
            * (2 ^ topExponent * (unitsPerOne * unitsPerOne)) := by
          rw [thirdLargest]
          ring
      _ ≤ (2 * exponentWeight - 1) * (2 * exponentWeight * (2 * exponentWeight))
            * (2 ^ topExponent * (unitsPerOne * unitsPerOne)) := Nat.mul_le_mul_right _ hgrowth
      _ = (2 * exponentWeight - 1) * 2 ^ topExponent * (unitsPerOne * unitsPerOne)
            * (2 * exponentWeight * (2 * exponentWeight)) := by ring
  have hrounded : roundedMagnitude ((ofNat m).units * (ofNat p).units)
      (unitsPerOne * unitsPerOne) < infinityMagnitude := by
    refine roundedMagnitude_lt (Nat.mul_pos unitsPerOne_pos unitsPerOne_pos) ?_
    calc (ofNat m).units * (ofNat p).units * unitsPerOne
        ≤ (2 * exponentWeight - 1) * 2 ^ topExponent * (unitsPerOne * unitsPerOne)
            * unitsPerOne := Nat.mul_le_mul_right _ hproduct
      _ = (2 * exponentWeight - 1) * 2 ^ topScale * (unitsPerOne * unitsPerOne) := by
          rw [two_pow_topScale]
          ring
  exact isInfinite_eq_false_of_isFinite (isFinite_nearest_of_lt hrounded)

/-! ## Far from all doubles -/

/-- What is at least two to the power 1024 is rounded to infinity. -/
theorem nearest_eq_infinity (negative : Bool) (hden : 0 < den)
    (h : 2 * exponentWeight * 2 ^ topExponent * den ≤ num) :
    nearest negative num den = infinity negative := by
  have hunits : 2 * exponentWeight * 2 ^ topScale * den ≤ num * unitsPerOne := by
    calc 2 * exponentWeight * 2 ^ topScale * den
        = 2 * exponentWeight * 2 ^ topExponent * den * unitsPerOne := by
          rw [two_pow_topScale]
          ring
      _ ≤ num * unitsPerOne := Nat.mul_le_mul_right _ h
  have hrounded := le_roundedMagnitude hden (by decide) (Nat.le_refl _) hunits
  have htop : topScale * exponentWeight + 2 * exponentWeight = infinityMagnitude := rfl
  have hmagnitude : nearestMagnitude num den = infinityMagnitude := by
    rw [nearestMagnitude_eq]
    omega
  simp only [nearest, infinity, hmagnitude]

/-- What is less than half a unit is rounded to zero. -/
theorem nearest_eq_zero (negative : Bool) (h : 2 * (num * unitsPerOne) < den) :
    nearest negative num den = zero negative := by
  have hquotient : num * unitsPerOne / den = 0 := Nat.div_eq_of_lt (by omega)
  have hrest : num * unitsPerOne % den = num * unitsPerOne := Nat.mod_eq_of_lt (by omega)
  have hscale : fittingScale num den = 0 := by
    rw [fittingScale, hquotient]
    rfl
  have hsteps : roundedSteps num den = 0 := by
    simp only [roundedSteps, hscale, Nat.shiftLeft_zero, divideToEven, hquotient, hrest, if_pos h]
  have hmagnitude : nearestMagnitude num den = 0 := by
    rw [nearestMagnitude_eq, roundedMagnitude, hscale, hsteps]
    rfl
  simp only [nearest, zero, hmagnitude]

end Double

/-! ## Decimals -/

theorem powerOfTen_pos (n : Nat) : 0 < powerOfTen n := Nat.pow_pos (by decide)

theorem powerOfTen_le {n m : Nat} (h : n ≤ m) : powerOfTen n ≤ powerOfTen m :=
  Nat.pow_le_pow_right (by decide) h

theorem powerOfTen_add (n m : Nat) : powerOfTen (n + m) = powerOfTen n * powerOfTen m :=
  Nat.pow_add 10 n m

namespace Decimal

variable {c : Decimal} {n : Nat}

/-- The quotient that a decimal is, without its sign. -/
def quotient (c : Decimal) : Nat × Nat :=
  if 0 ≤ c.exponent then (c.digits * powerOfTen c.exponent.toNat, 1)
  else (c.digits, powerOfTen c.exponent.natAbs)

theorem quotient_pos (c : Decimal) : 0 < c.quotient.2 := by
  rw [quotient]
  split
  · exact Nat.one_pos
  · exact powerOfTen_pos _

theorem digits_lt (c : Decimal) : c.digits < powerOfTen (Nat.toDigits 10 c.digits).length :=
  (Nat.length_toDigits_le_iff (by decide) Nat.length_toDigits_pos).mp (Nat.le_refl _)

theorem le_digits (h : c.digits ≠ 0) :
    powerOfTen ((Nat.toDigits 10 c.digits).length - 1) ≤ c.digits := by
  refine Nat.le_of_not_lt fun hlt => ?_
  have hpos : 0 < (Nat.toDigits 10 c.digits).length := Nat.length_toDigits_pos
  by_cases hone : (Nat.toDigits 10 c.digits).length - 1 = 0
  · rw [hone] at hlt
    exact h (Nat.lt_one_iff.mp hlt)
  · have hle := (Nat.length_toDigits_le_iff (by decide) (Nat.pos_of_ne_zero hone)).mpr hlt
    omega

/-- The point stands after more than `n` digits of a quotient that is at least `10 ^ n`. -/
theorem le_quotient (hdigits : c.digits ≠ 0) (h : (n : Int) < c.pointPosition) :
    powerOfTen n * c.quotient.2 ≤ c.quotient.1 := by
  have hle := le_digits hdigits
  have hposition : c.pointPosition = (Nat.toDigits 10 c.digits).length + c.exponent := rfl
  rw [quotient]
  split
  · rename_i hwhole
    calc powerOfTen n * 1
        ≤ powerOfTen ((Nat.toDigits 10 c.digits).length - 1 + c.exponent.toNat) := by
          rw [Nat.mul_one]
          exact powerOfTen_le (by omega)
      _ ≤ c.digits * powerOfTen c.exponent.toNat := by
          rw [powerOfTen_add]
          exact Nat.mul_le_mul_right _ hle
  · rename_i hwhole
    calc powerOfTen n * powerOfTen c.exponent.natAbs
        = powerOfTen (n + c.exponent.natAbs) := (powerOfTen_add _ _).symm
      _ ≤ powerOfTen ((Nat.toDigits 10 c.digits).length - 1) := powerOfTen_le (by omega)
      _ ≤ c.digits := hle

/-- It stands before `n` zeros of a quotient that is less than `10 ^ -n`. -/
theorem quotient_lt (h : c.pointPosition ≤ -(n : Int)) :
    c.quotient.1 * powerOfTen n < c.quotient.2 := by
  have hlt := c.digits_lt
  have hpos : 0 < (Nat.toDigits 10 c.digits).length := Nat.length_toDigits_pos
  have hposition : c.pointPosition = (Nat.toDigits 10 c.digits).length + c.exponent := rfl
  have hnegative : ¬ 0 ≤ c.exponent := by omega
  rw [quotient, if_neg hnegative]
  calc c.digits * powerOfTen n
      < powerOfTen (Nat.toDigits 10 c.digits).length * powerOfTen n :=
        Nat.mul_lt_mul_of_pos_right hlt (powerOfTen_pos n)
    _ = powerOfTen ((Nat.toDigits 10 c.digits).length + n) := (powerOfTen_add _ _).symm
    _ ≤ powerOfTen c.exponent.natAbs := powerOfTen_le (by omega)

/-- **The double nearest to a decimal is the one nearest to its quotient**: it makes no
    difference that very large and very small decimals are told apart beforehand. -/
theorem nearest_eq (c : Decimal) :
    c.nearest = Double.nearest c.negative c.quotient.1 c.quotient.2 := by
  have hpos := c.quotient_pos
  rw [nearest]
  by_cases hzero : c.digits = 0
  · rw [if_pos hzero]
    refine (Double.nearest_eq_zero c.negative ?_).symm
    have hnum : c.quotient.1 = 0 := by
      rw [quotient]
      split
      · exact mul_eq_zero_of_left hzero _
      · exact hzero
    rw [hnum, Nat.zero_mul]
    exact hpos
  rw [if_neg hzero]
  by_cases hhigh : 310 < c.pointPosition
  · rw [if_pos hhigh]
    refine (Double.nearest_eq_infinity c.negative hpos ?_).symm
    have htop : 2 * exponentWeight * 2 ^ Double.topExponent ≤ powerOfTen 310 := by decide +kernel
    exact Nat.le_trans (Nat.mul_le_mul_right _ htop) (le_quotient hzero hhigh)
  rw [if_neg hhigh]
  by_cases hlow : c.pointPosition < -330
  · rw [if_pos hlow]
    refine (Double.nearest_eq_zero c.negative ?_).symm
    have hunit : 2 * unitsPerOne ≤ powerOfTen 330 := by decide +kernel
    calc 2 * (c.quotient.1 * unitsPerOne)
        = c.quotient.1 * (2 * unitsPerOne) := by ring
      _ ≤ c.quotient.1 * powerOfTen 330 := Nat.mul_le_mul_left _ hunit
      _ < c.quotient.2 := quotient_lt (Int.le_of_lt hlow)
  · rw [if_neg hlow, quotient]
    split
    · rfl
    · rfl

end Decimal
end VaultQuery
