import Mathlib.Data.List.TakeWhile
import VaultQuery.Json.Numeral
import VaultQuery.Number.Layout
import VaultQuery.Proofs.Number.Digits

/-! # Printed numbers follow the grammar

    A number is printed as a numeral that the grammar reads as that same numeral. What the
    numeral means is another question: scaling rounds twice, and not every double comes back.

    * `Numeral.text`: how a numeral is written;
    * `Numeral.read?_text`: it is read as it was written;
    * `Numeral.ofDouble`: the numeral of a finite double, and `Numeral.proper_ofDouble`,
      `Layout.write_json`: it is proper and it is what is printed. -/

namespace VaultQuery.Json

open Text

variable {cs : List Char}

namespace Numeral

/-- How a fraction is written after the digits before the point. -/
def fractionText (fraction : List Char) : List Char :=
  if fraction.isEmpty then [] else '.' :: fraction

/-- How an exponent is written. -/
def exponentText : Option Int → List Char
  | none => []
  | some e => 'e' :: (if e < 0 then '-' else '+') :: Nat.toDigits 10 e.natAbs

/-- How a numeral is written without its sign. -/
def unsignedText (n : Numeral) : List Char :=
  n.whole ++ fractionText n.fraction ++ exponentText n.exponent

/-- How a numeral is written. -/
def text (n : Numeral) : List Char :=
  if n.negative then '-' :: n.unsignedText else n.unsignedText

/-- Digits without leading zeros before the point, and digits after it. -/
structure Proper (n : Numeral) : Prop where
  whole_ne_nil : n.whole ≠ []
  isDigit_whole : ∀ c ∈ n.whole, isDigit c = true
  no_leading_zero : n.whole.head? = some '0' → n.whole.length = 1
  isDigit_fraction : ∀ c ∈ n.fraction, isDigit c = true

/-- What is left to read after the sign. -/
def readParts? (negative : Bool) (cs : List Char) : Option Numeral := do
  let (whole, cs) := takeDigits cs
  if whole.isEmpty || (whole.head? == some '0' && 1 < whole.length) then none
  else
    let (fraction, cs) ← takeFraction? cs
    if cs.isEmpty then some ⟨negative, whole, fraction, none⟩
    else
      let e ← readExponent? cs
      some ⟨negative, whole, fraction, some e⟩

theorem read?_minus (cs : List Char) : read? ('-' :: cs) = readParts? true cs := rfl

theorem read?_of_ne {c : Char} (h : c ≠ '-') (cs : List Char) :
    read? (c :: cs) = readParts? false (c :: cs) := by
  rw [read?]
  · rfl
  · intro rest heq
    exact absurd (List.cons.inj heq).1 h

/-! ## Exponents and fractions -/

theorem endsDigits_exponentText (e : Option Int) : EndsDigits (exponentText e) := by
  intro c hc
  cases e with
  | none => exact nomatch hc
  | some e =>
      cases hc
      rfl

theorem endsDigits_append_exponentText (fraction : List Char) (e : Option Int) :
    EndsDigits (fractionText fraction ++ exponentText e) := by
  rw [fractionText]
  split
  · exact endsDigits_exponentText e
  · intro c hc
    cases hc
    rfl

theorem readExponent?_exponentText (e : Int) : readExponent? (exponentText (some e)) = some e := by
  have hdigits := takeDigits_toDigits e.natAbs
  have hne : (Nat.toDigits 10 e.natAbs).isEmpty = false :=
    List.isEmpty_eq_false_iff.mpr Nat.toDigits_ne_nil
  have hvalue := digitsValue_toDigits e.natAbs
  rw [exponentText, readExponent?, if_pos (Or.inl rfl)]
  by_cases hneg : e < 0
  · have hsign : -(e.natAbs : Int) = e := by omega
    simp only [hneg, if_true, takeSign, hdigits, hvalue, hne, List.isEmpty_nil, Bool.not_true,
      Bool.or_false, Bool.false_eq_true, if_false, hsign]
  · have hsign : (e.natAbs : Int) = e := by omega
    simp only [hneg, if_false, takeSign, hdigits, hvalue, hne, List.isEmpty_nil, Bool.not_true,
      Bool.or_false, Bool.false_eq_true, hsign]

theorem takeFraction?_text {fraction : List Char} (h : ∀ c ∈ fraction, isDigit c = true)
    (e : Option Int) :
    takeFraction? (fractionText fraction ++ exponentText e) = some (fraction, exponentText e) := by
  rw [fractionText]
  cases fraction with
  | nil =>
      -- the text goes on with no point
      cases e with
      | none => rfl
      | some e => rfl
  | cons c fraction =>
      have htake := takeDigits_append h (endsDigits_exponentText e)
      show takeFraction? ('.' :: (c :: fraction ++ exponentText e)) = _
      rw [takeFraction?, htake]
      rfl

/-! ## The whole numeral -/

theorem readParts?_unsignedText {n : Numeral} (h : n.Proper) :
    readParts? n.negative n.unsignedText = some n := by
  have htake := takeDigits_append h.isDigit_whole
    (endsDigits_append_exponentText n.fraction n.exponent)
  have hguard : (n.whole.isEmpty || (n.whole.head? == some '0' && decide (1 < n.whole.length)))
      = false := by
    rw [Bool.or_eq_false_iff, List.isEmpty_eq_false_iff, Bool.and_eq_false_imp, beq_iff_eq]
    refine ⟨h.whole_ne_nil, fun hzero => decide_eq_false ?_⟩
    rw [h.no_leading_zero hzero]
    decide
  rw [readParts?, unsignedText, List.append_assoc, htake]
  simp only [hguard, Bool.false_eq_true, if_false, takeFraction?_text h.isDigit_fraction,
    Option.bind_eq_bind, Option.bind_some]
  obtain ⟨negative, whole, fraction, exponent⟩ := n
  cases exponent with
  | none => rfl
  | some e =>
      have hne : (exponentText (some e)).isEmpty = false := rfl
      simp only [hne, readExponent?_exponentText]
      rfl

/-- **A proper numeral is read as it was written.** -/
theorem read?_text {n : Numeral} (h : n.Proper) : read? n.text = some n := by
  have hparts := readParts?_unsignedText h
  rw [text]
  split
  · rename_i hneg
    rw [hneg] at hparts
    rw [read?_minus, hparts]
  · rename_i hneg
    rw [Bool.not_eq_true] at hneg
    rw [hneg] at hparts
    cases hwhole : n.whole with
    | nil => exact absurd hwhole h.whole_ne_nil
    | cons c whole =>
        have hc : c ≠ '-' := by
          rintro rfl
          have hdigit := h.isDigit_whole '-' (hwhole ▸ List.mem_cons_self ..)
          exact nomatch hdigit
        rw [unsignedText, hwhole] at hparts ⊢
        exact (read?_of_ne hc _).trans hparts

end Numeral
end VaultQuery.Json

namespace VaultQuery

open Text

variable {d : Double} {c : Decimal} {tie : Tie}

/-! ## Digits of a double -/

/-- A decimal that reads back as a number other than zero is not zero. -/
theorem Decimal.digits_ne_zero_of_nearest (h : c.nearest = d) (hd : d.magnitude ≠ 0) :
    c.digits ≠ 0 := by
  intro hzero
  rw [Decimal.nearest, if_pos hzero] at h
  exact hd (h ▸ rfl)

theorem Double.units_ne_zero (hd : d.magnitude ≠ 0) : d.units ≠ 0 := by
  have hsignificand : d.significand ≠ 0 := by
    rw [significand]
    split
    · exact hd
    · have hweight : 0 < exponentWeight := by decide
      omega
  rw [units, Nat.shiftLeft_eq]
  exact Nat.mul_ne_zero hsignificand (Nat.ne_of_gt (Nat.two_pow_pos _))

/-- The shortest decimal of a number other than zero is not zero. -/
theorem Double.shortest_digits_ne_zero (hd : d.magnitude ≠ 0) :
    (d.shortest tie).digits ≠ 0 := by
  rcases shortest_cases tie hd with hnearest | hexact
  · exact Decimal.digits_ne_zero_of_nearest hnearest hd
  · have hpowers : ∀ n, 1 <<< n ≤ powerOfTen n := by
      intro n
      rw [Nat.shiftLeft_eq, Nat.one_mul]
      exact Nat.pow_le_pow_left (by decide) n
    have hpositive : ∀ n, 0 < 1 <<< n := by
      intro n
      rw [Nat.shiftLeft_eq, Nat.one_mul]
      exact Nat.two_pow_pos n
    have hscale : 0 < powerOfTen 1074 / unitsPerOne :=
      Nat.div_pos (hpowers 1074) (hpositive 1074)
    rw [hexact]
    exact Nat.mul_ne_zero (units_ne_zero hd) (Nat.ne_of_gt hscale)

namespace Layout

/-- What is left without the trailing zeros is a beginning, and something is left if the first
    digit is no zero. -/
theorem significantDigits_spec (c : Decimal) :
    significantDigits c ≠ [] ∧ (∀ x ∈ significantDigits c, isDigit x = true) ∧
      (c.digits ≠ 0 → (significantDigits c).head? ≠ some '0') := by
  rw [significantDigits]
  split
  · rename_i hzero
    exact ⟨List.cons_ne_nil _ _, List.forall_mem_singleton.mpr rfl, fun h => absurd hzero h⟩
  · rename_i hdigits
    have hfront : ((Nat.toDigits 10 c.digits).reverse.dropWhile (· == '0')).reverse
        <+: Nat.toDigits 10 c.digits := by
      have h := List.reverse_prefix.mpr
        ((Nat.toDigits 10 c.digits).reverse.dropWhile_suffix (· == '0'))
      rwa [List.reverse_reverse] at h
    have hne : ((Nat.toDigits 10 c.digits).reverse.dropWhile (· == '0')).reverse ≠ [] := by
      intro hnil
      rw [List.reverse_eq_nil_iff, List.dropWhile_eq_nil_iff] at hnil
      have hhead := head?_toDigits_ne hdigits
      cases hds : Nat.toDigits 10 c.digits with
      | nil => exact Nat.toDigits_ne_nil hds
      | cons x xs =>
          rw [hds] at hhead hnil
          have hx := hnil x (List.mem_reverse.mpr (List.mem_cons_self ..))
          exact hhead (congrArg some (eq_of_beq hx))
    refine ⟨hne, fun x hx => isDigit_of_mem_toDigits (hfront.subset hx), fun _ => ?_⟩
    obtain ⟨zeros, hzeros⟩ := hfront
    have hhead := head?_toDigits_ne hdigits
    rw [← hzeros, List.head?_append, Option.or_of_isSome (List.isSome_head?.mpr hne)] at hhead
    exact hhead

/-- Only zero itself begins with a zero, and has no other digit. -/
theorem length_significantDigits_of_zero
    (h : (significantDigits (d.shortest tie)).head? = some '0') :
    (significantDigits (d.shortest tie)).length = 1 ∧ (d.shortest tie).pointPosition ≤ 1 := by
  obtain ⟨-, -, hhead⟩ := significantDigits_spec (d.shortest tie)
  have hdigits : (d.shortest tie).digits = 0 := Decidable.of_not_not fun hne => hhead hne h
  have hmagnitude : d.magnitude = 0 :=
    Decidable.of_not_not fun hne => Double.shortest_digits_ne_zero hne hdigits
  have hone : (Nat.toDigits 10 0).length = 1 := by decide
  rw [Double.shortest, if_pos hmagnitude]
  refine ⟨rfl, ?_⟩
  show ((Nat.toDigits 10 0).length : Int) + 0 ≤ 1
  rw [hone]
  decide

end Layout

/-! ## The numeral of a double -/

namespace Json.Numeral

variable {ds : List Char} {point : Int}

/-- Digits written with the point after `point` of them, as a numeral. -/
def positional (negative : Bool) (ds : List Char) (point : Int) : Numeral :=
  if point ≤ 0 then ⟨negative, ['0'], List.replicate point.natAbs '0' ++ ds, none⟩
  else if ds.length ≤ point.toNat then
    ⟨negative, ds ++ List.replicate (point.toNat - ds.length) '0', ['0'], none⟩
  else ⟨negative, ds.take point.toNat, ds.drop point.toNat, none⟩

/-- The numeral by which a finite double is written. -/
def ofDouble (d : Double) : Numeral :=
  let c := d.shortest .even
  let ds := Layout.significantDigits c
  if Layout.json.positional c.pointPosition then positional d.negative ds c.pointPosition
  else ⟨d.negative, ds.take 1, ds.drop 1, some (c.pointPosition - 1)⟩

theorem negative_positional (negative : Bool) (ds : List Char) (point : Int) :
    (positional negative ds point).negative = negative := by
  rw [positional]
  split
  · rfl
  · split
    · rfl
    · rfl

theorem isDigit_of_mem_zeros {k : Nat} {c : Char} (h : c ∈ List.replicate k '0') :
    isDigit c = true := by
  rw [List.eq_of_mem_replicate h]
  rfl

/-- Digits with zeros behind them, if there are any other. -/
theorem proper_whole {negative : Bool} {k : Nat} {fraction : List Char}
    (hds : ∀ c ∈ ds, isDigit c = true) (hne : ds ≠ [])
    (hzero : ds.head? = some '0' → ds.length + k = 1)
    (hfraction : ∀ c ∈ fraction, isDigit c = true) :
    Proper ⟨negative, ds ++ List.replicate k '0', fraction, none⟩ where
  whole_ne_nil := List.append_ne_nil_of_left_ne_nil hne _
  isDigit_whole := fun c hc => (List.mem_append.mp hc).elim (hds c) isDigit_of_mem_zeros
  no_leading_zero := by
    intro hhead
    rw [List.head?_append, Option.or_of_isSome (List.isSome_head?.mpr hne)] at hhead
    rw [List.length_append, List.length_replicate]
    exact hzero hhead
  isDigit_fraction := hfraction

theorem proper_positional {negative : Bool} (hds : ∀ c ∈ ds, isDigit c = true)
    (hne : ds ≠ []) (hzero : ds.head? = some '0' → ds.length = 1 ∧ point ≤ 1) :
    (positional negative ds point).Proper := by
  have hlength : 0 < ds.length := List.length_pos_iff.mpr hne
  rw [positional]
  split
  · exact {
      whole_ne_nil := List.cons_ne_nil _ _
      isDigit_whole := List.forall_mem_singleton.mpr rfl
      no_leading_zero := fun _ => rfl
      isDigit_fraction := fun c hc =>
        (List.mem_append.mp hc).elim isDigit_of_mem_zeros (hds c) }
  · split
    · refine proper_whole hds hne (fun hhead => ?_) (List.forall_mem_singleton.mpr rfl)
      obtain ⟨hone, hle⟩ := hzero hhead
      omega
    · rename_i hpoint hlong
      have htake : ds.take point.toNat ≠ [] := by
        rw [List.ne_nil_iff_length_pos, List.length_take]
        omega
      exact {
        whole_ne_nil := htake
        isDigit_whole := fun c hc => hds c (List.mem_of_mem_take hc)
        no_leading_zero := by
          intro hhead
          rw [List.head?_take, if_neg (by omega)] at hhead
          obtain ⟨hone, -⟩ := hzero hhead
          rw [List.length_take]
          omega
        isDigit_fraction := fun c hc => hds c (List.mem_of_mem_drop hc) }

theorem proper_ofDouble (d : Double) : (ofDouble d).Proper := by
  obtain ⟨hne, hds, -⟩ := Layout.significantDigits_spec (d.shortest .even)
  rw [ofDouble]
  split
  · exact proper_positional hds hne Layout.length_significantDigits_of_zero
  · have hlength : 0 < (Layout.significantDigits (d.shortest .even)).length :=
      List.length_pos_iff.mpr hne
    have htake : ((Layout.significantDigits (d.shortest .even)).take 1).length = 1 := by
      rw [List.length_take]
      omega
    exact {
      whole_ne_nil := List.ne_nil_of_length_eq_add_one htake
      isDigit_whole := fun c hc => hds c (List.mem_of_mem_take hc)
      no_leading_zero := fun _ => htake
      isDigit_fraction := fun c hc => hds c (List.mem_of_mem_drop hc) }

theorem unsignedText_positional {negative : Bool} (hne : ds ≠ []) :
    (positional negative ds point).unsignedText = Layout.positionalText ".0" ds point := by
  have hlength : 0 < ds.length := List.length_pos_iff.mpr hne
  rw [positional, Layout.positionalText]
  split
  · have hfraction : (List.replicate point.natAbs '0' ++ ds).isEmpty = false :=
      List.isEmpty_eq_false_iff.mpr (List.append_ne_nil_of_right_ne_nil _ hne)
    simp [unsignedText, fractionText, hfraction, exponentText]
  · split
    · simp [unsignedText, fractionText, exponentText]
    · have hdrop : (ds.drop point.toNat).isEmpty = false := by
        rw [List.isEmpty_eq_false_iff, List.ne_nil_iff_length_pos, List.length_drop]
        omega
      simp [unsignedText, fractionText, hdrop, exponentText]

theorem unsignedText_scientific {negative : Bool} (ds : List Char) (e : Int) :
    unsignedText ⟨negative, ds.take 1, ds.drop 1, some e⟩ = Layout.scientificText "+" ds e := by
  have hfraction : fractionText (ds.drop 1) = if ds.length ≤ 1 then [] else '.' :: ds.drop 1 := by
    rw [fractionText]
    by_cases hone : ds.length ≤ 1
    · rw [List.drop_eq_nil_of_le hone, if_pos hone]
      rfl
    · have hdrop : ds.drop 1 ≠ [] := by
        rw [List.ne_nil_iff_length_pos, List.length_drop]
        omega
      rw [List.isEmpty_eq_false_iff.mpr hdrop, if_neg hone]
      rfl
  rw [unsignedText, hfraction, exponentText, Layout.scientificText]
  by_cases hneg : e < 0
  · rw [if_pos hneg, if_pos hneg]
    simp
  · rw [if_neg hneg, if_neg hneg]
    simp

theorem unsignedText_ofDouble (d : Double) :
    (ofDouble d).unsignedText = Layout.json.unsignedText d := by
  obtain ⟨hne, -, -⟩ := Layout.significantDigits_spec (d.shortest .even)
  simp only [ofDouble, Layout.unsignedText]
  show _ = if Layout.json.positional (d.shortest .even).pointPosition = true then
    Layout.positionalText ".0" _ _ else Layout.scientificText "+" _ _
  split
  · exact unsignedText_positional hne
  · exact unsignedText_scientific _ _

theorem negative_ofDouble (d : Double) : (ofDouble d).negative = d.negative := by
  rw [ofDouble]
  show (if Layout.json.positional (d.shortest .even).pointPosition = true then _ else _ :
    Numeral).negative = _
  split
  · exact negative_positional ..
  · rfl

/-- A finite double is printed as its numeral. -/
theorem write_json {d : Double} (h : d.isFinite = true) :
    Layout.json.write d = String.ofList (ofDouble d).text := by
  have hnan := Double.isNaN_eq_false_of_isFinite h
  have hinfinite := Double.isInfinite_eq_false_of_isFinite h
  rw [Layout.write, hnan, hinfinite, text, negative_ofDouble, unsignedText_ofDouble]
  cases d.negative with
  | true => rfl
  | false => rfl

/-- What is not finite is printed as `null`. -/
theorem write_json_of_not_isFinite {d : Double} (h : ¬ d.isFinite = true) :
    Layout.json.write d = "null" := by
  have hle : infinityMagnitude ≤ d.magnitude := Nat.le_of_not_lt fun hlt => h (decide_eq_true hlt)
  rw [Layout.write]
  by_cases hnan : d.isNaN = true
  · rw [if_pos hnan]
    rfl
  · have hnot : ¬ infinityMagnitude < d.magnitude := fun hlt => hnan (decide_eq_true hlt)
    have hinfinite : d.isInfinite = true := beq_iff_eq.mpr (by omega)
    rw [if_neg hnan, if_pos hinfinite]
    exact ite_self _

/-! ## The numeral of an integer -/

/-- The numeral by which an integer is written. -/
def ofInt (n : Int) : Numeral := ⟨decide (n < 0), Nat.toDigits 10 n.natAbs, [], none⟩

theorem proper_ofInt (n : Int) : (ofInt n).Proper where
  whole_ne_nil := Nat.toDigits_ne_nil
  isDigit_whole := fun _ hc => isDigit_of_mem_toDigits hc
  no_leading_zero := by
    intro hhead
    have hzero : n.natAbs = 0 := Decidable.of_not_not fun h => head?_toDigits_ne h hhead
    show (Nat.toDigits 10 n.natAbs).length = 1
    rw [hzero]
    decide
  isDigit_fraction := fun _ hc => nomatch hc

end Json.Numeral
end VaultQuery
