import Mathlib.Algebra.Order.Field.Power
import Mathlib.Tactic.Linarith
import VaultQuery.Proofs.Json.Numeral
import VaultQuery.Proofs.Number.Rounding

/-! # Printed numbers are small enough to be read

    The reader of JSON refuses a number that is too large for it. It drops digits past 64 bits
    and rounds twice, so what it refuses is not the same as what is past the largest double; but
    of what is printed for a double nothing is refused.

    * `Decimal.value`, `Numeral.value`: the numbers that decimals and numerals stand for;
    * `Decimal.value_lt`, `Double.value_shortest_lt`: a printed double is less than the third
      largest, unless it is one of the three;
    * `Numeral.value_ofDouble`: a double is printed as a numeral of that value;
    * `Numeral.exists_real?`: a numeral of such a value is read;
    * `Double.exists_number?_ofDouble`: so every finite double is read again. -/

namespace VaultQuery

open Text

variable {ds : List Char} {d : Double} {c : Decimal} {tie : Tie}

/-! ## The value of decimals -/

theorem cast_powerOfTen (n : Nat) : ((powerOfTen n : Nat) : ℚ) = 10 ^ n := by
  show ((10 ^ n : Nat) : ℚ) = 10 ^ n
  push_cast
  rfl

theorem two_pow_dvd_powerOfTen (n : Nat) : 2 ^ n ∣ powerOfTen n := ⟨5 ^ n, Nat.mul_pow 2 5 n⟩

/-- The number a decimal stands for, without its sign. -/
def Decimal.value (c : Decimal) : ℚ := c.digits * 10 ^ c.exponent

theorem Decimal.value_eq (c : Decimal) : c.value = c.quotient.1 / c.quotient.2 := by
  rw [value, quotient]
  split
  · rename_i hwhole
    have hexponent : c.exponent = (c.exponent.toNat : Int) := (Int.toNat_of_nonneg hwhole).symm
    rw [Nat.cast_one, div_one, Nat.cast_mul, cast_powerOfTen, hexponent, zpow_natCast,
      Int.toNat_natCast]
  · have hexponent : c.exponent = -(c.exponent.natAbs : Int) := by omega
    rw [cast_powerOfTen, hexponent, zpow_neg, zpow_natCast, Int.natAbs_neg, Int.natAbs_natCast,
      div_eq_mul_inv]

theorem Decimal.value_of_neg (negative : Bool) (n k : Nat) :
    Decimal.value ⟨negative, n, -(k : Int)⟩ = n / powerOfTen k := by
  rw [value, zpow_neg, zpow_natCast, cast_powerOfTen, div_eq_mul_inv]

/-- A decimal that is rounded to less than the third largest double is less. -/
theorem Decimal.value_lt (h : c.nearest.magnitude < infinityMagnitude - 3) :
    c.value < Double.thirdLargest := by
  rw [nearest_eq] at h
  have hlt := Double.lt_of_nearestMagnitude_lt c.quotient_pos h
  rw [value_eq, div_lt_iff₀ (by exact_mod_cast c.quotient_pos)]
  exact_mod_cast hlt

/-- A double written out in full is its units. -/
theorem Double.value_exactDecimal (d : Double) : d.exactDecimal.value = d.units / unitsPerOne := by
  have hdvd : unitsPerOne ∣ powerOfTen 1074 := unitsPerOne_eq ▸ two_pow_dvd_powerOfTen oneScale
  have hunits : d.units * (powerOfTen 1074 / unitsPerOne) * unitsPerOne
      = d.units * powerOfTen 1074 := by
    rw [Nat.mul_assoc, Nat.div_mul_cancel hdvd]
  have hexact : d.exactDecimal
      = ⟨d.negative, d.units * (powerOfTen 1074 / unitsPerOne), -((1074 : Nat) : Int)⟩ := rfl
  have hpower : ((powerOfTen 1074 : Nat) : ℚ) ≠ 0 := by
    exact_mod_cast Nat.ne_of_gt (powerOfTen_pos 1074)
  have hone : (unitsPerOne : ℚ) ≠ 0 := by exact_mod_cast Nat.ne_of_gt unitsPerOne_pos
  rw [hexact, Decimal.value_of_neg, div_eq_div_iff hpower hone]
  exact_mod_cast hunits

/-- The decimal by which a double below the third largest is printed is less than that. -/
theorem Double.value_shortest_lt (h : d.magnitude < infinityMagnitude - 3) :
    (d.shortest tie).value < thirdLargest := by
  by_cases hzero : d.magnitude = 0
  · rw [shortest, if_pos hzero, Decimal.value, Nat.cast_zero, zero_mul]
    exact_mod_cast thirdLargest_pos
  · rcases shortest_cases tie hzero with hnearest | hexact
    · refine Decimal.value_lt ?_
      rw [hnearest]
      exact h
    · rw [hexact, value_exactDecimal, div_lt_iff₀ (by exact_mod_cast unitsPerOne_pos)]
      exact_mod_cast units_lt_of_magnitude_lt h

/-! ## The value of numerals -/

/-- All digits of a decimal are its significant digits with zeros behind them. -/
theorem Layout.exists_zeros (h : c.digits ≠ 0) :
    ∃ k, Nat.toDigits 10 c.digits = significantDigits c ++ List.replicate k '0' := by
  have hsplit : ((Nat.toDigits 10 c.digits).reverse.dropWhile (· == '0')).reverse
      ++ ((Nat.toDigits 10 c.digits).reverse.takeWhile (· == '0')).reverse
      = Nat.toDigits 10 c.digits := by
    rw [← List.reverse_append, List.takeWhile_append_dropWhile, List.reverse_reverse]
  have hzeros : ∀ x ∈ ((Nat.toDigits 10 c.digits).reverse.takeWhile (· == '0')).reverse,
      x = '0' := by
    intro x hx
    have hzero := List.mem_takeWhile_imp (List.mem_reverse.mp hx)
    exact eq_of_beq hzero
  refine ⟨((Nat.toDigits 10 c.digits).reverse.takeWhile (· == '0')).reverse.length, ?_⟩
  rw [significantDigits, if_neg h, ← List.eq_replicate_of_mem hzeros]
  exact hsplit.symm

/-- The significant digits of a decimal, with the point among them, have its value. -/
theorem Layout.value_significantDigits (c : Decimal) :
    c.value = digitsValue (significantDigits c)
      * 10 ^ (c.pointPosition - (significantDigits c).length) := by
  by_cases hzero : c.digits = 0
  · have hdigits : significantDigits c = ['0'] := if_pos hzero
    rw [Decimal.value, hzero, hdigits]
    simp [digitsValue, digitValue]
  · obtain ⟨k, hk⟩ := exists_zeros hzero
    have hvalue := digitsValue_toDigits c.digits
    rw [hk, digitsValue_append, digitsValue_zeros, List.length_replicate, Nat.add_zero] at hvalue
    have hlength : c.pointPosition - (significantDigits c).length = (k : Int) + c.exponent := by
      rw [Decimal.pointPosition, hk, List.length_append, List.length_replicate]
      omega
    rw [Decimal.value, ← hvalue, hlength, zpow_add₀ (by norm_num), zpow_natCast, Nat.cast_mul,
      cast_powerOfTen]
    ring

namespace Json.Numeral

variable {n : Numeral} {point : Int} {m : Nat} {e : Int}

/-- The number a numeral stands for, without its sign. -/
def value (n : Numeral) : ℚ :=
  digitsValue (n.whole ++ n.fraction) * 10 ^ (n.exponent.getD 0 - n.fraction.length)

theorem value_positional (negative : Bool) (ds : List Char) (point : Int) :
    (positional negative ds point).value = digitsValue ds * 10 ^ (point - ds.length) := by
  rw [positional]
  split
  · rename_i hpoint
    have hdigits : digitsValue (['0'] ++ (List.replicate point.natAbs '0' ++ ds))
        = digitsValue ds := by
      have hzeros : digitsValue (['0'] ++ List.replicate point.natAbs '0') = 0 :=
        digitsValue_zeros (point.natAbs + 1)
      rw [← List.append_assoc, digitsValue_append, hzeros, Nat.zero_mul, Nat.zero_add]
    have hexponent : (0 : Int) - (List.replicate point.natAbs '0' ++ ds).length
        = point - ds.length := by
      rw [List.length_append, List.length_replicate]
      omega
    show (digitsValue (['0'] ++ (List.replicate point.natAbs '0' ++ ds)) : ℚ)
      * 10 ^ ((0 : Int) - (List.replicate point.natAbs '0' ++ ds).length) = _
    rw [hdigits, hexponent]
  · split
    · rename_i hpoint hfits
      have hdigits : digitsValue (ds ++ List.replicate (point.toNat - ds.length) '0' ++ ['0'])
          = digitsValue ds * powerOfTen (point.toNat - ds.length + 1) := by
        rw [List.append_assoc, digitsValue_append]
        have hzeros : digitsValue (List.replicate (point.toNat - ds.length) '0' ++ ['0']) = 0 := by
          rw [← List.replicate_succ']
          exact digitsValue_zeros _
        rw [hzeros, List.length_append, List.length_replicate, List.length_singleton, Nat.add_zero]
      have hexponent : point - ds.length
          = ((point.toNat - ds.length + 1 : Nat) : Int) + ((0 : Int) - 1) := by
        omega
      show (digitsValue (ds ++ List.replicate (point.toNat - ds.length) '0' ++ ['0']) : ℚ)
        * 10 ^ ((0 : Int) - 1) = _
      rw [hdigits, hexponent, zpow_add₀ (by norm_num), zpow_natCast, Nat.cast_mul,
        cast_powerOfTen]
      ring
    · rename_i hpoint hlong
      have hexponent : (0 : Int) - (ds.drop point.toNat).length = point - ds.length := by
        rw [List.length_drop]
        omega
      show (digitsValue (ds.take point.toNat ++ ds.drop point.toNat) : ℚ)
        * 10 ^ ((0 : Int) - (ds.drop point.toNat).length) = _
      rw [List.take_append_drop, hexponent]

/-- **A double is printed as a numeral of the value of its decimal.** -/
theorem value_ofDouble (d : Double) : (ofDouble d).value = (d.shortest .even).value := by
  obtain ⟨hne, -, -⟩ := Layout.significantDigits_spec (d.shortest .even)
  rw [Layout.value_significantDigits]
  simp only [ofDouble]
  split
  · exact value_positional ..
  · have hlength : 0 < (Layout.significantDigits (d.shortest .even)).length :=
      List.length_pos_iff.mpr hne
    have hexponent : (d.shortest .even).pointPosition - 1
        - ((Layout.significantDigits (d.shortest .even)).drop 1).length
        = (d.shortest .even).pointPosition
          - (Layout.significantDigits (d.shortest .even)).length := by
      rw [List.length_drop]
      omega
    rw [value, List.take_append_drop, Option.getD_some, hexponent]

/-! ## Reading a numeral -/

theorem digitsValue_snoc (seen : List Char) (c : Char) :
    digitsValue (seen ++ [c]) = digitsValue seen * 10 + digitValue c := by
  rw [digitsValue_append]
  simp [digitsValue, powerOfTen]

/-- Digits are taken one by one, and those left over are the last. -/
theorem accumulate_spec (seen cs : List Char) :
    ∃ taken, cs = taken ++ (accumulate (digitsValue seen) cs).2 ∧
      (accumulate (digitsValue seen) cs).1 = digitsValue (seen ++ taken) := by
  induction cs generalizing seen with
  | nil => exact ⟨[], rfl, by rw [List.append_nil]; rfl⟩
  | cons c cs ih =>
      rw [accumulate, ← digitsValue_snoc]
      by_cases hlt : digitsValue (seen ++ [c]) < wordLimit
      · obtain ⟨taken, hsplit, hvalue⟩ := ih (seen ++ [c])
        rw [if_pos hlt]
        refine ⟨c :: taken, ?_, ?_⟩
        · rw [List.cons_append, ← hsplit]
        · rw [hvalue, List.append_assoc]
          rfl
      · rw [if_neg hlt]
        exact ⟨[], rfl, by rw [List.append_nil]⟩

theorem accumulate_lt {k : Nat} (cs : List Char) (h : k < wordLimit) :
    (accumulate k cs).1 < wordLimit := by
  induction cs generalizing k with
  | nil => exact h
  | cons c cs ih =>
      rw [accumulate]
      split
      · rename_i hlt
        exact ih hlt
      · exact h

/-- Digits of a number of 64 bits are all taken. -/
theorem accumulate_eq (seen cs : List Char) (h : digitsValue (seen ++ cs) < wordLimit) :
    accumulate (digitsValue seen) cs = (digitsValue (seen ++ cs), []) := by
  induction cs generalizing seen with
  | nil => rw [List.append_nil]; rfl
  | cons c cs ih =>
      have hsplit : seen ++ c :: cs = seen ++ [c] ++ cs := by simp
      rw [hsplit] at h ⊢
      have hlt : digitsValue (seen ++ [c]) < wordLimit := by
        refine Nat.lt_of_le_of_lt ?_ h
        rw [digitsValue_append (seen ++ [c])]
        exact Nat.le_add_right_of_le (Nat.le_mul_of_pos_right _ (Nat.pow_pos (by decide)))
      rw [accumulate, ← digitsValue_snoc, if_pos hlt]
      exact ih (seen ++ [c]) h

/-- A number of 64 bits times a power of ten is read, if the product is below the third largest
    double. -/
theorem exists_scale? (hm : m < wordLimit) (h : (m : ℚ) * 10 ^ e < Double.thirdLargest) :
    ∃ d, scale? m e = some d := by
  rw [scale?]
  by_cases hhigh : 308 < e
  · rw [if_pos hhigh]
    by_cases hzero : m = 0
    · exact ⟨_, if_pos hzero⟩
    · exfalso
      have htop : Double.thirdLargest < powerOfTen 309 := by decide +kernel
      have hone : (1 : ℚ) ≤ m := by exact_mod_cast Nat.pos_of_ne_zero hzero
      have hpower : ((powerOfTen 309 : Nat) : ℚ) ≤ 10 ^ e := by
        rw [cast_powerOfTen, ← zpow_natCast]
        exact zpow_le_zpow_right₀ (by norm_num) hhigh
      have hcast : (Double.thirdLargest : ℚ) < (powerOfTen 309 : Nat) := by exact_mod_cast htop
      have hle : (10 : ℚ) ^ e ≤ m * 10 ^ e := le_mul_of_one_le_left (by positivity) hone
      linarith
  · rw [if_neg hhigh]
    by_cases hwhole : 0 ≤ e
    · have hmle : m ≤ Double.largestFinite := by
        have hword : wordLimit ≤ Double.largestFinite := by decide +kernel
        omega
      have hple : powerOfTen e.toNat ≤ Double.largestFinite := by
        have hbound : powerOfTen 308 ≤ Double.largestFinite := by decide +kernel
        exact Nat.le_trans (powerOfTen_le (by omega)) hbound
      have hproduct : m * powerOfTen e.toNat ≤ Double.thirdLargest := by
        have hexponent : e = (e.toNat : Int) := (Int.toNat_of_nonneg hwhole).symm
        rw [hexponent, zpow_natCast, ← cast_powerOfTen] at h
        exact Nat.le_of_lt (by exact_mod_cast h)
      have hfinite := Double.isInfinite_mul_ofNat hmle hple hproduct
      simp only [if_pos hwhole, hfinite]
      exact ⟨_, rfl⟩
    · rw [if_neg hwhole]
      split
      · exact ⟨_, rfl⟩
      · split
        · exact ⟨_, rfl⟩
        · exact ⟨_, rfl⟩

/-- **A numeral below the third largest double is read**, if no more than sixteen digits stand
    before its point: digits that are dropped only make it smaller. -/
theorem exists_real? (hdigits : ∀ c ∈ n.whole, isDigit c = true) (hlength : n.whole.length ≤ 16)
    (h : n.value < Double.thirdLargest) : ∃ d, n.real? = some d := by
  have hword : digitsValue ([] ++ n.whole) < wordLimit := by
    have hlt : digitsValue n.whole < powerOfTen n.whole.length := digitsValue_lt hdigits
    have hle : powerOfTen n.whole.length ≤ powerOfTen 16 := powerOfTen_le hlength
    have htop : powerOfTen 16 ≤ wordLimit := by decide
    exact Nat.lt_of_lt_of_le (Nat.lt_of_lt_of_le hlt hle) htop
  have hwhole : accumulate 0 n.whole = (digitsValue n.whole, []) := accumulate_eq [] n.whole hword
  obtain ⟨taken, hsplit, hm⟩ := accumulate_spec n.whole n.fraction
  have hlt : (accumulate (digitsValue n.whole) n.fraction).1 < wordLimit :=
    accumulate_lt n.fraction hword
  have htaken : n.fraction.length - (accumulate (digitsValue n.whole) n.fraction).2.length
      = taken.length := by
    have hlengths := congrArg List.length hsplit
    rw [List.length_append] at hlengths
    omega
  have hsmall : ((accumulate (digitsValue n.whole) n.fraction).1 : ℚ)
      * 10 ^ ((0 : Int) - taken.length + n.exponent.getD 0) < Double.thirdLargest := by
    refine lt_of_le_of_lt ?_ h
    generalize (accumulate (digitsValue n.whole) n.fraction).2 = rest at hsplit
    have hexponent : (0 : Int) - taken.length + n.exponent.getD 0
        = rest.length + (n.exponent.getD 0 - n.fraction.length) := by
      rw [hsplit, List.length_append]
      omega
    have hdigits : digitsValue (n.whole ++ taken) * powerOfTen rest.length
        ≤ digitsValue (n.whole ++ n.fraction) := by
      rw [hsplit, ← List.append_assoc, digitsValue_append (n.whole ++ taken)]
      exact Nat.le_add_right _ _
    have hcast : (digitsValue (n.whole ++ taken) : ℚ) * 10 ^ rest.length
        ≤ digitsValue (n.whole ++ n.fraction) := by
      rw [← cast_powerOfTen]
      exact_mod_cast hdigits
    rw [hm, hexponent, zpow_add₀ (by norm_num), zpow_natCast, ← mul_assoc]
    exact mul_le_mul_of_nonneg_right hcast (by positivity)
  obtain ⟨x, hx⟩ := exists_scale? hlt hsmall
  simp only [real?, hwhole, htaken]
  exact ⟨_, Option.map_eq_some_iff.mpr ⟨x, hx, rfl⟩⟩

/-! ## Printed doubles -/

/-- No more than sixteen digits are printed before a point. -/
theorem length_whole_ofDouble (d : Double) : (ofDouble d).whole.length ≤ 16 := by
  simp only [ofDouble]
  split
  · rename_i hpoint
    obtain ⟨-, hmost⟩ := Bool.and_eq_true_iff.mp hpoint
    have hmost := of_decide_eq_true hmost
    rw [positional]
    split
    · show 1 ≤ 16
      decide
    · split
      · show (_ ++ List.replicate _ '0').length ≤ 16
        rw [List.length_append, List.length_replicate]
        omega
      · show (List.take _ _).length ≤ 16
        rw [List.length_take]
        omega
  · show (List.take 1 _).length ≤ 16
    rw [List.length_take]
    omega

theorem fraction_positional_ne_nil (negative : Bool) (hne : ds ≠ []) :
    (positional negative ds point).fraction ≠ [] := by
  rw [positional]
  split
  · exact List.append_ne_nil_of_right_ne_nil _ hne
  · split
    · exact List.cons_ne_nil _ _
    · show ds.drop point.toNat ≠ []
      rw [List.ne_nil_iff_length_pos, List.length_drop]
      omega

/-- A number with a point or an exponent is read as a fraction. -/
theorem number?_eq_real? (h : (n.fraction.isEmpty && n.exponent.isNone) = false) :
    n.number? = n.real?.map .real := by
  simp only [number?, h, Bool.false_and]
  rfl

/-- What is printed for a double has a fraction or an exponent, and is read as a fraction. -/
theorem number?_ofDouble (d : Double) :
    (ofDouble d).number? = (ofDouble d).real?.map .real := by
  refine number?_eq_real? ?_
  obtain ⟨hne, -, -⟩ := Layout.significantDigits_spec (d.shortest .even)
  simp only [ofDouble]
  split
  · rw [List.isEmpty_eq_false_iff.mpr (fraction_positional_ne_nil _ hne)]
    rfl
  · exact Bool.and_false _

end Json.Numeral

namespace Double

theorem ofBits_toBits (d : Double) : ofBits d.toBits = d := by
  obtain ⟨negative, magnitude, hlt⟩ := d
  have hsplit : (toBits ⟨negative, magnitude, hlt⟩) % signWeight = magnitude := by
    cases negative
    · show (0 + magnitude) % signWeight = magnitude
      rw [Nat.zero_add, Nat.mod_eq_of_lt hlt]
    · show (signWeight + magnitude) % signWeight = magnitude
      rw [Nat.add_mod_left, Nat.mod_eq_of_lt hlt]
  have hsign : (toBits ⟨negative, magnitude, hlt⟩ / signWeight % 2 == 1) = negative := by
    cases negative
    · show ((0 + magnitude) / signWeight % 2 == 1) = false
      rw [Nat.zero_add, Nat.div_eq_of_lt hlt]
      rfl
    · show ((signWeight + magnitude) / signWeight % 2 == 1) = true
      rw [Nat.add_div_left _ (by decide), Nat.div_eq_of_lt hlt]
      rfl
  simp only [ofBits, hsplit, hsign]

/-- The three largest doubles, and their negatives, are printed with digits that are read. -/
theorem exists_real?_of_largest (h : infinityMagnitude - 3 ≤ d.magnitude)
    (hfinite : d.isFinite = true) : ∃ e, (Json.Numeral.ofDouble d).real? = some e := by
  have hlt : d.magnitude < infinityMagnitude := of_decide_eq_true hfinite
  have hall : ∀ sign ∈ [0, signWeight], ∀ step ∈ [1, 2, 3],
      (Json.Numeral.ofDouble (ofBits (sign + (infinityMagnitude - step)))).real?.isSome = true := by
    simp only [Json.Numeral.ofDouble, shortest, candidates, Decimal.nearest_eq, nearest,
      nearestMagnitude, fittingScale_split 2048]
    decide +kernel
  have hsign : (if d.negative then signWeight else 0) ∈ [0, signWeight] := by
    cases d.negative <;> simp
  have hstep : infinityMagnitude - d.magnitude ∈ [1, 2, 3] := by
    simp only [List.mem_cons, List.not_mem_nil, or_false]
    omega
  have hread := hall _ hsign _ hstep
  have hbits : (if d.negative then signWeight else 0)
      + (infinityMagnitude - (infinityMagnitude - d.magnitude)) = d.toBits := by
    rw [toBits]
    omega
  rw [hbits, ofBits_toBits] at hread
  exact Option.isSome_iff_exists.mp hread

/-- **Every finite double is read again** from what is printed for it, if not always as the
    same double. -/
theorem exists_number?_ofDouble (h : d.isFinite = true) :
    ∃ e, (Json.Numeral.ofDouble d).number? = some (.real e) := by
  have hreal : ∃ e, (Json.Numeral.ofDouble d).real? = some e := by
    by_cases hsmall : d.magnitude < infinityMagnitude - 3
    · refine Json.Numeral.exists_real? (Json.Numeral.proper_ofDouble d).isDigit_whole
        (Json.Numeral.length_whole_ofDouble d) ?_
      rw [Json.Numeral.value_ofDouble]
      exact value_shortest_lt hsmall
    · exact exists_real?_of_largest (Nat.le_of_not_lt hsmall) h
  obtain ⟨e, he⟩ := hreal
  exact ⟨e, by rw [Json.Numeral.number?_ofDouble, he]; rfl⟩

end Double
end VaultQuery
