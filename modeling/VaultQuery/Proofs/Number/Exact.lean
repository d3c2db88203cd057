import VaultQuery.Proofs.Json.Magnitude

/-! # Where rounding is exact

    Rounding looks at the quotient alone, not at how it is written as a quotient, and it leaves
    a double as it is. So a decimal that was chosen to read back does, and any decimal of the
    same value with it.

    * `Double.nearestMagnitude_congr`, `Decimal.magnitude_nearest_congr`: equal values are
      rounded alike;
    * `Double.nearest_units`: a double is rounded to itself;
    * `Double.nearest_shortest`: the shortest decimal of a double reads back;
    * `Double.units_ofNat`: naturals of no more than 53 binary digits, zeros behind them aside,
      are doubles. -/

namespace VaultQuery

attribute [ext] Double

namespace Double

variable {num den num' den' k m t : Nat} {d : Double}

/-! ## The quotient alone -/

theorem divideToEven_mul_right (hk : 0 < k) (num den : Nat) :
    divideToEven (num * k) (den * k) = divideToEven num den := by
  have hless : 2 * (num % den * k) < den * k ↔ 2 * (num % den) < den := by
    rw [← Nat.mul_assoc, Nat.mul_lt_mul_right hk]
  have hmore : den * k < 2 * (num % den * k) ↔ den < 2 * (num % den) := by
    rw [← Nat.mul_assoc, Nat.mul_lt_mul_right hk]
  simp only [divideToEven, Nat.mul_div_mul_right _ _ hk, Nat.mul_mod_mul_right, hless, hmore]

theorem nearestMagnitude_mul_right (hk : 0 < k) (num den : Nat) :
    nearestMagnitude (num * k) (den * k) = nearestMagnitude num den := by
  have hnum : num * k * unitsPerOne = num * unitsPerOne * k := Nat.mul_right_comm ..
  have hscale : fittingScale (num * k) (den * k) = fittingScale num den := by
    rw [fittingScale, fittingScale, hnum, Nat.mul_div_mul_right _ _ hk]
  have hden : (den * k) <<< fittingScale num den = (den <<< fittingScale num den) * k := by
    rw [Nat.shiftLeft_eq, Nat.shiftLeft_eq, Nat.mul_right_comm]
  simp only [nearestMagnitude, hscale, hnum, hden, divideToEven_mul_right hk]

/-- Equal quotients are rounded alike. -/
theorem nearestMagnitude_congr (hden : 0 < den) (hden' : 0 < den')
    (h : num * den' = num' * den) : nearestMagnitude num den = nearestMagnitude num' den' := by
  rw [← nearestMagnitude_mul_right hden' num den, h, Nat.mul_comm den den',
    nearestMagnitude_mul_right hden]

theorem nearest_congr (negative : Bool) (hden : 0 < den) (hden' : 0 < den')
    (h : num * den' = num' * den) : nearest negative num den = nearest negative num' den' := by
  simp only [nearest, nearestMagnitude_congr hden hden' h]

/-! ## Doubles are rounded to themselves -/

/-- A whole number of steps is rounded to that number. -/
theorem divideToEven_self (hden : 0 < den) (k : Nat) : divideToEven (k * den) den = k :=
  Nat.le_antisymm (divideToEven_le hden (Nat.le_refl _)) (le_divideToEven hden (Nat.le_refl _))

/-- The units of a double without exponent bits, as a quotient, are rounded to that double. -/
theorem roundedMagnitude_of_lt (h : m < exponentWeight) : roundedMagnitude m unitsPerOne = m := by
  have hscale : fittingScale m unitsPerOne = 0 := by
    rw [fittingScale, Nat.mul_div_cancel _ unitsPerOne_pos]
    by_cases hzero : m = 0
    · rw [hzero, Nat.log2_zero]
    · have hlog : m.log2 < 52 := (Nat.log2_lt hzero).mpr h
      omega
  rw [roundedMagnitude, roundedSteps, hscale, Nat.shiftLeft_zero, divideToEven_self unitsPerOne_pos,
    Nat.zero_mul, Nat.zero_add]

/-- **A double is rounded to itself.** -/
theorem nearest_units (h : d.isFinite = true) :
    nearest d.negative d.units unitsPerOne = d := by
  have hfinite : d.magnitude < infinityMagnitude := of_decide_eq_true h
  have hrounded : roundedMagnitude d.units unitsPerOne = d.magnitude := by
    rcases d.units_cases with ⟨hsmall, hunits⟩ | ⟨a, b, hb, hmagnitude, hunits⟩
    · rw [hunits, roundedMagnitude_of_lt hsmall]
    · rw [hunits]
      have hexact : (exponentWeight + b) * 2 ^ a * unitsPerOne
          ≤ (exponentWeight + b) * 2 ^ a * unitsPerOne := Nat.le_refl _
      have hle := roundedMagnitude_le unitsPerOne_pos (Nat.le_add_right ..) (by omega) hexact
      have hge := le_roundedMagnitude unitsPerOne_pos (Nat.le_add_right ..) (by omega) hexact
      rw [Nat.add_mul] at hmagnitude
      omega
  have hmagnitude : nearestMagnitude d.units unitsPerOne = d.magnitude := by
    rw [nearestMagnitude_eq, hrounded, Nat.min_eq_right (Nat.le_of_lt hfinite)]
  simp only [nearest, hmagnitude]

/-- A natural number is a double if it is less than `2 ^ 53` steps of a power of two. -/
theorem units_ofNat_of_steps {n : Nat} (hn : n ≤ largestFinite) (hm : m < 2 * exponentWeight)
    (h : n * unitsPerOne = m * 2 ^ t) : (ofNat n).units = n * unitsPerOne := by
  have hscale : fittingScale n 1 ≤ t := by
    refine Nat.le_of_not_lt fun hlt => ?_
    have hfits := le_of_fittingScale_pos (Nat.zero_lt_of_lt hlt)
    rw [Nat.mul_one, h] at hfits
    have hless : m * 2 ^ t < 2 ^ (53 + t) := by
      rw [Nat.pow_add]
      exact Nat.mul_lt_mul_of_pos_right hm (Nat.two_pow_pos _)
    have hexponent := (Nat.pow_lt_pow_iff_right (by decide)).mp (Nat.lt_of_le_of_lt hfits hless)
    omega
  have hsplit : m * 2 ^ t = m * 2 ^ (t - fittingScale n 1) * 2 ^ fittingScale n 1 := by
    rw [Nat.mul_assoc, ← Nat.pow_add, Nat.sub_add_cancel hscale]
  rw [ofNat, units_nearest Nat.one_pos (roundedMagnitude_lt_of_le_largestFinite hn), roundedSteps,
    shiftLeft_fittingScale, Nat.mul_one, h, hsplit, divideToEven_self (Nat.two_pow_pos _)]

/-- A natural number of no more than 53 binary digits, zeros behind them aside, is a double. -/
theorem units_ofNat (hn : m * 2 ^ k ≤ largestFinite) (hm : m < 2 * exponentWeight) :
    (ofNat (m * 2 ^ k)).units = m * 2 ^ k * unitsPerOne := by
  refine units_ofNat_of_steps hn hm (t := k + oneScale) ?_
  rw [unitsPerOne_eq, Nat.pow_add, Nat.mul_assoc]

end Double

/-! ## Decimals of one value -/

namespace Decimal

variable {c c' : Decimal} {num den : Nat}

theorem negative_nearest (c : Decimal) : c.nearest.negative = c.negative := by
  rw [nearest_eq]
  rfl

/-- A decimal is rounded as any quotient of its value. -/
theorem nearest_of_value (hden : 0 < den) (h : c.value = num / den) :
    c.nearest = Double.nearest c.negative num den := by
  have hquotient : ((c.quotient.2 : Nat) : ℚ) ≠ 0 := by
    exact_mod_cast Nat.ne_of_gt c.quotient_pos
  have hden' : (den : ℚ) ≠ 0 := by exact_mod_cast Nat.ne_of_gt hden
  rw [value_eq, div_eq_div_iff hquotient hden'] at h
  rw [nearest_eq]
  exact Double.nearest_congr c.negative c.quotient_pos hden (by exact_mod_cast h)

/-- Decimals of one value are rounded alike, their signs aside. -/
theorem magnitude_nearest_congr (h : c.value = c'.value) :
    c.nearest.magnitude = c'.nearest.magnitude := by
  rw [value_eq c'] at h
  rw [nearest_of_value c'.quotient_pos h, nearest_eq c']
  rfl

end Decimal

namespace Double

variable {d : Double}

/-- **The shortest decimal of a double reads back.** -/
theorem nearest_shortest (tie : Tie) (h : d.isFinite = true) : (d.shortest tie).nearest = d := by
  by_cases hzero : d.magnitude = 0
  · obtain ⟨negative, magnitude, hlt⟩ := d
    cases hzero
    rfl
  · rcases shortest_cases tie hzero with hnearest | hexact
    · exact hnearest
    · rw [hexact, Decimal.nearest_of_value unitsPerOne_pos d.value_exactDecimal]
      exact nearest_units h

end Double
end VaultQuery
