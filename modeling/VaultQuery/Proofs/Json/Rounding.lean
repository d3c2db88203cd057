import Mathlib.Tactic.Ring
import VaultQuery.Proofs.Number.Spelled

/-! # Numbers of JSON that are rounded once

    The reader of JSON rounds the digits of a fraction and then the product with a power of ten.
    Where digits and power are doubles themselves, only the product is rounded, and the number
    is the double nearest to what is written.

    * `Numeral.isFinite_of_number?`: whatever is read is finite;
    * `Numeral.IsWord`, `Numeral.IsShort`: integers of 64 bits, and fractions of few digits;
    * `Numeral.double_of_isExact`: those are read as the double nearest to them. -/

namespace VaultQuery

open Text

namespace Double

variable {num den n : Nat} {d p : Double} {negative : Bool}

/-! ## Finite quotients -/

/-- A rounded quotient is finite unless it is infinite. -/
theorem isFinite_nearest (h : (nearest negative num den).isInfinite = false) :
    (nearest negative num den).isFinite = true := by
  have hle : nearestMagnitude num den ≤ infinityMagnitude := Nat.min_le_left ..
  have hne : nearestMagnitude num den ≠ infinityMagnitude := beq_eq_false_iff_ne.mp h
  exact decide_eq_true (Nat.lt_of_le_of_ne hle hne)

/-- A natural number other than zero has the units of one at least. -/
theorem unitsPerOne_le_units_ofNat (hpos : 0 < n) (hn : n ≤ largestFinite) :
    unitsPerOne ≤ (ofNat n).units := by
  have hone : unitsPerOne ≤ n * unitsPerOne := Nat.le_mul_of_pos_left _ hpos
  rw [ofNat, units_nearest Nat.one_pos (roundedMagnitude_lt_of_le_largestFinite hn)]
  rcases Nat.le_total (fittingScale n 1) oneScale with hle | hle
  · have hsplit : unitsPerOne = 2 ^ (oneScale - fittingScale n 1) * 2 ^ fittingScale n 1 := by
      rw [unitsPerOne_eq, ← Nat.pow_add, Nat.sub_add_cancel hle]
    have hsteps : 2 ^ (oneScale - fittingScale n 1) ≤ roundedSteps n 1 := by
      refine le_divideToEven (shiftLeft_pos Nat.one_pos) ?_
      rw [shiftLeft_fittingScale, Nat.mul_one, ← hsplit]
      exact hone
    rw [hsplit]
    exact Nat.mul_le_mul_right _ hsteps
  · have hpositive : 0 < fittingScale n 1 := Nat.lt_of_lt_of_le (by decide) hle
    have hsteps := le_roundedSteps Nat.one_pos hpositive
    rw [unitsPerOne_eq]
    exact Nat.le_trans (Nat.pow_le_pow_right (by decide) hle)
      (Nat.le_mul_of_pos_left _ (Nat.lt_of_lt_of_le (by decide) hsteps))

/-- A finite double divided by a natural number is finite. -/
theorem isFinite_div_ofNat (hd : d.isFinite = true) (hpos : 0 < n) (hn : n ≤ largestFinite) :
    (d.div (ofNat n)).isFinite = true := by
  have hone := unitsPerOne_le_units_ofNat hpos hn
  have hden : 0 < (ofNat n).units := Nat.lt_of_lt_of_le unitsPerOne_pos hone
  exact isFinite_nearest_of_lt (roundedMagnitude_lt hden (Nat.mul_le_mul (units_le hd) hone))

end Double

namespace Json

/-- The double that a number of JSON is taken for. -/
def Number.double : Number → Double
  | .integer n => Double.ofInt n
  | .real d => d

namespace Numeral

variable {n : Numeral} {m : Nat} {e : Int}

/-! ## What is read is finite -/

theorem powerOfTen_le_largestFinite {k : Nat} (h : k ≤ 308) :
    powerOfTen k ≤ Double.largestFinite := by
  have htop : powerOfTen 308 ≤ Double.largestFinite := by decide +kernel
  exact Nat.le_trans (powerOfTen_le h) htop

theorem le_largestFinite (h : m ≤ wordLimit) : m ≤ Double.largestFinite := by
  have hword : wordLimit ≤ Double.largestFinite := by decide +kernel
  exact Nat.le_trans h hword

theorem isFinite_of_scale? (hm : m < wordLimit) {d : Double} (h : scale? m e = some d) :
    d.isFinite = true := by
  have hfinite : (Double.ofNat m).isFinite = true :=
    Double.isFinite_ofNat (le_largestFinite (Nat.le_of_lt hm))
  simp only [scale?] at h
  by_cases hhigh : 308 < e
  · rw [if_pos hhigh] at h
    split at h
    · cases h
      exact hfinite
    · cases h
  rw [if_neg hhigh] at h
  by_cases hwhole : 0 ≤ e
  · rw [if_pos hwhole] at h
    split at h
    · cases h
    · rename_i hproduct
      cases h
      exact Double.isFinite_nearest (Bool.not_eq_true _ ▸ hproduct)
  rw [if_neg hwhole] at h
  by_cases hlow : -308 ≤ e
  · rw [if_pos hlow] at h
    cases h
    exact Double.isFinite_div_ofNat hfinite (powerOfTen_pos _)
      (powerOfTen_le_largestFinite (by omega))
  rw [if_neg hlow] at h
  split at h
  · cases h
    exact Double.isFinite_div_ofNat
      (Double.isFinite_div_ofNat hfinite (powerOfTen_pos _)
        (powerOfTen_le_largestFinite (Nat.le_refl _)))
      (powerOfTen_pos _) (powerOfTen_le_largestFinite (by omega))
  · cases h
    decide

theorem isFinite_of_real? {d : Double} (h : n.real? = some d) : d.isFinite = true := by
  rw [real?] at h
  obtain ⟨x, hx, rfl⟩ := Option.map_eq_some_iff.mp h
  have hword : (0 : Nat) < wordLimit := by decide
  have hfinite := isFinite_of_scale? (accumulate_lt n.fraction (accumulate_lt n.whole hword)) hx
  exact hfinite

/-- An integer of 64 bits. -/
theorem natAbs_le_of_number? {k : Int} (h : n.number? = some (.integer k)) :
    k.natAbs ≤ wordLimit := by
  simp only [number?] at h
  split at h
  · rename_i hguard
    cases h
    simp only [Bool.and_eq_true, decide_eq_true_eq] at hguard
    omega
  · split at h
    · rename_i hguard
      cases h
      simp only [Bool.and_eq_true, decide_eq_true_eq] at hguard
      omega
    · obtain ⟨x, -, hx⟩ := Option.map_eq_some_iff.mp h
      cases hx

theorem real?_of_number? {d : Double} (h : n.number? = some (.real d)) : n.real? = some d := by
  simp only [number?] at h
  split at h
  · cases h
  · split at h
    · cases h
    · obtain ⟨x, hx, hd⟩ := Option.map_eq_some_iff.mp h
      cases hd
      exact hx

/-- **Whatever is read is finite.** -/
theorem isFinite_of_number? {x : Number} (h : n.number? = some x) : x.double.isFinite = true := by
  cases x with
  | integer k => exact Double.isFinite_ofNat (le_largestFinite (natAbs_le_of_number? h))
  | real d => exact isFinite_of_real? (real?_of_number? h)

/-! ## What is rounded once -/

/-- No point and no exponent, and 64 bits hold the number. -/
def IsWord (n : Numeral) : Prop :=
  n.fraction = [] ∧ n.exponent = none ∧
    (if n.negative then 2 * digitsValue n.whole ≤ wordLimit
      else digitsValue n.whole < wordLimit)

/-- All digits together are a number of 53 bits, and the power of ten is one of 53 bits, zeros
    behind them aside. -/
def IsShort (n : Numeral) : Prop :=
  digitsValue (n.whole ++ n.fraction) < 2 * exponentWeight ∧
    (n.exponent.getD 0 - n.fraction.length).natAbs ≤ 22

/-- The first power of five with more than 53 bits is the twenty-third. -/
theorem units_powerOfTen {k : Nat} (h : k ≤ 22) :
    (Double.ofNat (powerOfTen k)).units = powerOfTen k * unitsPerOne := by
  have hsplit : powerOfTen k = 5 ^ k * 2 ^ k := (Nat.mul_pow 5 2 k)
  have hfive : 5 ^ k < 2 * exponentWeight :=
    Nat.lt_of_le_of_lt (Nat.pow_le_pow_right (by decide) h) (by decide)
  have hfits := powerOfTen_le_largestFinite (Nat.le_trans h (by decide))
  rw [hsplit] at hfits ⊢
  exact Double.units_ofNat hfits hfive

theorem units_digits (h : m < 2 * exponentWeight) :
    (Double.ofNat m).units = m * unitsPerOne := by
  have hfits : m * 2 ^ 0 ≤ Double.largestFinite := by
    have hword : 2 * exponentWeight ≤ wordLimit := by decide
    rw [Nat.pow_zero, Nat.mul_one]
    exact le_largestFinite (by omega)
  have hunits := Double.units_ofNat hfits h
  rw [Nat.pow_zero, Nat.mul_one] at hunits
  exact hunits

/-- Few digits times a small power of ten are rounded once. -/
theorem scale?_eq (hm : m < 2 * exponentWeight) (he : e.natAbs ≤ 22) :
    scale? m e = some (Decimal.nearest ⟨false, m, e⟩) := by
  have hdigits := units_digits hm
  have hpower := units_powerOfTen he
  rw [Decimal.nearest_eq, Decimal.quotient]
  simp only [scale?]
  rw [if_neg (by omega)]
  by_cases hwhole : 0 ≤ e
  · have habs : e.toNat = e.natAbs := by omega
    have hproduct : (Double.ofNat m).mul (Double.ofNat (powerOfTen e.toNat))
        = Double.nearest false (m * powerOfTen e.toNat) 1 := by
      rw [Double.mul, habs, hdigits, hpower]
      refine Double.nearest_congr false (Nat.mul_pos unitsPerOne_pos unitsPerOne_pos)
        Nat.one_pos ?_
      ring
    have hfits : m * powerOfTen e.toNat ≤ Double.largestFinite := by
      have hlimit : 2 * exponentWeight * powerOfTen 22 ≤ Double.largestFinite := by decide +kernel
      exact Nat.le_trans (Nat.mul_le_mul (Nat.le_of_lt hm) (powerOfTen_le (by omega))) hlimit
    have hfinite : (Double.nearest false (m * powerOfTen e.toNat) 1).isInfinite = false :=
      Double.isInfinite_eq_false_of_isFinite (Double.isFinite_ofNat hfits)
    rw [if_pos hwhole, if_pos hwhole, hproduct, hfinite]
    rfl
  · rw [if_neg hwhole, if_pos (by omega), if_neg hwhole]
    refine congrArg some ?_
    rw [Double.div, hdigits, hpower]
    refine Double.nearest_congr false (Nat.mul_pos (powerOfTen_pos _) unitsPerOne_pos)
      (powerOfTen_pos _) ?_
    ring

/-- A short fraction is read as the double nearest to it. -/
theorem real?_of_isShort (h : n.IsShort) : n.real? = some n.decimal.nearest := by
  obtain ⟨hdigits, hpower⟩ := h
  have hword : digitsValue (n.whole ++ n.fraction) < wordLimit :=
    Nat.lt_trans hdigits (by decide)
  have hwhole : digitsValue ([] ++ n.whole) < wordLimit := by
    refine Nat.lt_of_le_of_lt ?_ hword
    rw [List.nil_append, digitsValue_append]
    exact Nat.le_add_right_of_le (Nat.le_mul_of_pos_right _ (powerOfTen_pos _))
  have hfirst : accumulate 0 n.whole = (digitsValue n.whole, []) := accumulate_eq [] n.whole hwhole
  have hsecond := accumulate_eq n.whole n.fraction hword
  have hexponent : ((([] : List Char).length : Int)
      - ((n.fraction.length - ([] : List Char).length : Nat) : Int) + n.exponent.getD 0)
      = n.exponent.getD 0 - n.fraction.length := by
    simp only [List.length_nil]
    omega
  simp only [real?, hfirst, hsecond]
  rw [hexponent, scale?_eq hdigits hpower, Option.map_some]
  -- the sign is put in front afterwards
  have hsign : n.negative = n.decimal.nearest.negative := (Decimal.negative_nearest n.decimal).symm
  exact congrArg some (Double.ext hsign (Decimal.magnitude_nearest_congr rfl))

theorem nearest_of_whole (hfraction : n.fraction = []) (hexponent : n.exponent = none) :
    n.decimal.nearest = Double.nearest n.negative (digitsValue n.whole) 1 := by
  refine Decimal.nearest_of_value Nat.one_pos ?_
  simp [decimal, Decimal.value, hfraction, hexponent]

/-- Integers are rounded once. -/
theorem ofInt_of_number? {k : Int} (h : n.number? = some (.integer k)) :
    Double.ofInt k = n.decimal.nearest := by
  simp only [number?] at h
  split at h
  · rename_i hguard
    simp only [Bool.and_eq_true, Bool.not_eq_true', List.isEmpty_iff, Option.isNone_iff_eq_none]
      at hguard
    obtain ⟨⟨⟨hfraction, hexponent⟩, hnegative⟩, -⟩ := hguard
    cases h
    rw [nearest_of_whole hfraction hexponent, hnegative, Double.ofInt]
    have hsign : decide ((digitsValue n.whole : Int) < 0) = false := decide_eq_false (by omega)
    rw [hsign, Int.natAbs_natCast]
  · split at h
    · rename_i hguard
      simp only [Bool.and_eq_true, List.isEmpty_iff, Option.isNone_iff_eq_none,
        decide_eq_true_eq] at hguard
      obtain ⟨⟨⟨⟨hfraction, hexponent⟩, hnegative⟩, hpos⟩, -⟩ := hguard
      cases h
      rw [nearest_of_whole hfraction hexponent, hnegative, Double.ofInt]
      have hsign : decide (-(digitsValue n.whole : Int) < 0) = true := decide_eq_true (by omega)
      rw [hsign, Int.natAbs_neg, Int.natAbs_natCast]
    · obtain ⟨x, -, hx⟩ := Option.map_eq_some_iff.mp h
      cases hx

/-- Of the integers of 64 bits only negative zero is read as a fraction. -/
theorem isShort_of_isWord (h : n.IsWord) {d : Double} (hreal : n.number? = some (.real d)) :
    n.IsShort := by
  obtain ⟨hfraction, hexponent, hfits⟩ := h
  have hzero : digitsValue n.whole = 0 := by
    refine Decidable.of_not_not fun hne => ?_
    have hpos : 0 < digitsValue n.whole := Nat.pos_of_ne_zero hne
    simp only [number?, hfraction, hexponent] at hreal
    cases hnegative : n.negative with
    | true =>
        rw [hnegative, if_pos rfl] at hfits
        simp [hnegative, hpos, hfits] at hreal
    | false =>
        rw [hnegative, if_neg Bool.false_ne_true] at hfits
        simp [hnegative, hfits] at hreal
  refine ⟨?_, ?_⟩
  · rw [hfraction, List.append_nil, hzero]
    decide
  · rw [hfraction, hexponent]
    decide

/-- **Integers of 64 bits and short fractions are read as the double nearest to them.** -/
theorem double_of_isExact {x : Number} (h : n.IsWord ∨ n.IsShort) (hx : n.number? = some x) :
    x.double = n.decimal.nearest := by
  cases x with
  | integer k => exact ofInt_of_number? hx
  | real d =>
      have hshort : n.IsShort := h.elim (fun hword => isShort_of_isWord hword hx) id
      have hreal := real?_of_number? hx
      rw [real?_of_isShort hshort] at hreal
      exact (Option.some.inj hreal).symm

end Numeral
end Json
end VaultQuery
