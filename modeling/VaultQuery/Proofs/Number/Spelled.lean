import VaultQuery.Proofs.Number.Exact
import VaultQuery.Proofs.Text.Edges

/-! # Numerals and spelled numbers

    Texts are read as numbers by a freer grammar than that of JSON. Whatever follows the strict
    grammar is read by the free one too, with the same sign and value; and what text operators
    see of a number follows the strict grammar, so that it is read as that number.

    * `Decimal.noBlank_of_read?`: a spelled number has no blanks inside;
    * `Json.Numeral.read?_decimal`: a numeral spells a decimal of its value;
    * `Json.Numeral.ofPlain`, `Json.Numeral.write_plain`: what text operators see is a numeral;
    * `readDouble?_plain`: it spells the number, negative zero as zero. -/

namespace VaultQuery

open Text

variable {cs rest : List Char} {d : Double}

/-! ## The free grammar -/

namespace Text

theorem takeDigits_append_eq (cs : List Char) : (takeDigits cs).1 ++ (takeDigits cs).2 = cs :=
  List.takeWhile_append_dropWhile

theorem isDigit_of_mem_takeDigits {c : Char} (h : c ∈ (takeDigits cs).1) : isDigit c = true :=
  List.mem_takeWhile_imp h

/-- Digits that are taken are not blank, so only what is left over can be. -/
theorem noBlank_of_takeDigits (h : ∀ c ∈ (takeDigits cs).2, isBlank c = false) :
    ∀ c ∈ cs, isBlank c = false := by
  intro c hc
  rw [← takeDigits_append_eq cs] at hc
  rcases List.mem_append.mp hc with hc | hc
  · exact isBlank_eq_false_of_isDigit (isDigit_of_mem_takeDigits hc)
  · exact h c hc

/-- A sign is not blank. -/
theorem noBlank_of_takeSign (h : ∀ c ∈ (takeSign cs).2, isBlank c = false) :
    ∀ c ∈ cs, isBlank c = false := by
  unfold takeSign at h
  split at h
  · exact List.forall_mem_cons.mpr ⟨rfl, h⟩
  · exact List.forall_mem_cons.mpr ⟨rfl, h⟩
  · exact h

theorem noBlank_of_readExponent? {e : Int} (h : readExponent? cs = some e) :
    ∀ c ∈ cs, isBlank c = false := by
  cases cs with
  | nil => exact List.forall_mem_nil _
  | cons c cs =>
      rw [readExponent?] at h
      split at h
      · rename_i hmark
        have hc : isBlank c = false := by rcases hmark with rfl | rfl <;> rfl
        simp only at h
        split at h
        · cases h
        · rename_i hdigits
          rw [Bool.or_eq_true, not_or, Bool.not_eq_true', Bool.not_eq_false,
            List.isEmpty_iff (l := (takeDigits (takeSign cs).2).2)] at hdigits
          refine List.forall_mem_cons.mpr ⟨hc, noBlank_of_takeSign (noBlank_of_takeDigits ?_)⟩
          rw [hdigits.2]
          exact List.forall_mem_nil _
      · cases h

end Text

namespace Decimal

/-- The digits after a point, if there is one, and what follows them. -/
def takeFraction (cs : List Char) : List Char × List Char :=
  match cs with
  | '.' :: rest => takeDigits rest
  | _ => ([], cs)

/-- What is left to read after the sign. -/
def readParts? (negative : Bool) (cs : List Char) : Option Decimal :=
  let whole := (takeDigits cs).1
  let fraction := (takeFraction (takeDigits cs).2).1
  if whole.isEmpty && fraction.isEmpty then none
  else
    (readExponent? (takeFraction (takeDigits cs).2).2).map fun e =>
      ⟨negative, digitsValue (whole ++ fraction), e - fraction.length⟩

theorem read?_eq (cs : List Char) : read? cs = readParts? (takeSign cs).1 (takeSign cs).2 := rfl

/-- **A spelled number has no blanks inside.** -/
theorem noBlank_of_read? {c : Decimal} (h : read? cs = some c) :
    ∀ c ∈ cs, isBlank c = false := by
  rw [read?_eq, readParts?] at h
  split at h
  · cases h
  · obtain ⟨e, he, -⟩ := Option.map_eq_some_iff.mp h
    have hrest := noBlank_of_readExponent? he
    refine noBlank_of_takeSign (noBlank_of_takeDigits ?_)
    unfold takeFraction at hrest
    split at hrest
    · rename_i hpoint
      rw [hpoint]
      exact List.forall_mem_cons.mpr ⟨rfl, noBlank_of_takeDigits hrest⟩
    · exact hrest

theorem trimChars_of_read? {c : Decimal} (h : read? cs = some c) : trimChars cs = cs :=
  trimChars_of_trimmed (trimmed_of_forall (noBlank_of_read? h))

end Decimal

/-! ## The strict grammar within it -/

namespace Json.Numeral

variable {n : Numeral}

/-- The decimal that a numeral spells. -/
def decimal (n : Numeral) : Decimal :=
  ⟨n.negative, digitsValue (n.whole ++ n.fraction), n.exponent.getD 0 - n.fraction.length⟩

/-- A fraction of the strict grammar is one of the free grammar. -/
theorem takeFraction_of_takeFraction? {fraction : List Char}
    (h : takeFraction? cs = some (fraction, rest)) :
    Decimal.takeFraction cs = (fraction, rest) := by
  unfold takeFraction? at h
  split at h
  · split at h
    · cases h
    · exact Option.some.inj h
  · rename_i hpoint
    rw [Decimal.takeFraction]
    · exact Option.some.inj h
    · exact hpoint

/-- After the sign a numeral is read as its decimal; the sign stands for itself. -/
theorem readParts?_decimal {negative : Bool} (h : readParts? negative cs = some n) :
    n.negative = negative ∧ Decimal.readParts? negative cs = some n.decimal := by
  simp only [readParts?] at h
  split at h
  · cases h
  · rename_i hwhole
    have hdigits : (takeDigits cs).1.isEmpty = false := by
      rw [Bool.or_eq_true, not_or, Bool.not_eq_true] at hwhole
      exact hwhole.1
    obtain ⟨⟨fraction, rest⟩, hfraction, hexponent⟩ := Option.bind_eq_some_iff.mp h
    have htake := takeFraction_of_takeFraction? hfraction
    simp only at hexponent
    split at hexponent
    · rename_i hend
      cases hexponent
      refine ⟨rfl, ?_⟩
      rw [List.isEmpty_iff] at hend
      simp only [Decimal.readParts?, htake, hdigits, hend, Bool.false_and]
      rfl
    · obtain ⟨e, he, hn⟩ := Option.bind_eq_some_iff.mp hexponent
      cases hn
      refine ⟨rfl, ?_⟩
      simp only [Decimal.readParts?, htake, hdigits, he, Bool.false_and]
      rfl

/-- **A numeral spells a decimal** of its sign and value. -/
theorem read?_decimal (h : read? cs = some n) : Decimal.read? cs = some n.decimal := by
  cases cs with
  | nil => cases h
  | cons c cs =>
      rw [Decimal.read?_eq]
      by_cases hminus : c = '-'
      · rw [hminus, read?_minus] at h
        rw [hminus]
        exact (readParts?_decimal h).2
      · rw [read?_of_ne hminus] at h
        -- a plus is no digit, so the strict grammar has none in front
        have hplus : c ≠ '+' := by
          rintro rfl
          cases h
        have hsign : takeSign (c :: cs) = (false, c :: cs) := by
          rw [takeSign]
          · exact fun rest heq => hminus (List.cons.inj heq).1
          · exact fun rest heq => hplus (List.cons.inj heq).1
        rw [hsign]
        exact (readParts?_decimal h).2

/-- A text that is a numeral, blanks at its edges aside, spells the double nearest to it, if
    that is finite. -/
theorem readDouble?_of_read? {s : String} (h : read? (trimChars s.toList) = some n)
    (hfinite : n.decimal.nearest.isFinite = true) : readDouble? s = some n.decimal.nearest := by
  simp only [readDouble?, read?_decimal h, hfinite, if_true]

/-! ## What text operators see -/

/-- The numeral by which a finite double is written for text operators: positional, without a
    point if it is whole, and zero without a sign. -/
def ofPlain (d : Double) : Numeral :=
  let c := d.shortest .up
  let ds := Layout.significantDigits c
  let negative := d.negative && d.magnitude != 0
  if 0 < c.pointPosition ∧ ds.length ≤ c.pointPosition.toNat then
    ⟨negative, ds ++ List.replicate (c.pointPosition.toNat - ds.length) '0', [], none⟩
  else positional negative ds c.pointPosition

theorem negative_ofPlain (d : Double) :
    (ofPlain d).negative = (d.negative && d.magnitude != 0) := by
  simp only [ofPlain]
  split
  · rfl
  · exact negative_positional ..

theorem proper_ofPlain (d : Double) : (ofPlain d).Proper := by
  obtain ⟨hne, hds, -⟩ := Layout.significantDigits_spec (d.shortest .up)
  simp only [ofPlain]
  split
  · refine proper_whole hds hne (fun hzero => ?_) (List.forall_mem_nil _)
    obtain ⟨hone, hpoint⟩ := Layout.length_significantDigits_of_zero hzero
    omega
  · exact proper_positional hds hne Layout.length_significantDigits_of_zero

/-- What follows a whole number makes no difference to other numbers. -/
theorem positionalText_of_not_whole {ds : List Char} {point : Int}
    (h : ¬ (0 < point ∧ ds.length ≤ point.toNat)) (wholeMark wholeMark' : String) :
    Layout.positionalText wholeMark ds point = Layout.positionalText wholeMark' ds point := by
  rw [Layout.positionalText, Layout.positionalText]
  split
  · rfl
  · rw [if_neg (by omega), if_neg (by omega)]

theorem unsignedText_ofPlain (d : Double) :
    (ofPlain d).unsignedText = Layout.plain.unsignedText d := by
  obtain ⟨hne, -, -⟩ := Layout.significantDigits_spec (d.shortest .up)
  show _ = Layout.positionalText "" (Layout.significantDigits (d.shortest .up))
    (d.shortest .up).pointPosition
  simp only [ofPlain]
  split
  · rename_i hwhole
    rw [Layout.positionalText, if_neg (by omega), if_pos hwhole.2]
    simp [unsignedText, Numeral.fractionText, exponentText]
  · rename_i hwhole
    rw [unsignedText_positional hne, positionalText_of_not_whole hwhole]

/-- **What text operators see of a finite double is a numeral.** -/
theorem write_plain (h : d.isFinite = true) :
    Layout.plain.write d = String.ofList (ofPlain d).text := by
  have hnan := Double.isNaN_eq_false_of_isFinite h
  have hinfinite := Double.isInfinite_eq_false_of_isFinite h
  rw [Layout.write, hnan, hinfinite, text, negative_ofPlain, unsignedText_ofPlain]
  show (if (d.negative && d.magnitude != 0) = true then _ else _) = _
  split
  · rfl
  · rfl

/-- Its value is that of the shortest decimal. -/
theorem value_ofPlain (d : Double) : (ofPlain d).value = (d.shortest .up).value := by
  rw [Layout.value_significantDigits]
  simp only [ofPlain]
  split
  · rename_i hwhole
    have hexponent : (d.shortest .up).pointPosition
        - (Layout.significantDigits (d.shortest .up)).length
        = (((d.shortest .up).pointPosition.toNat
          - (Layout.significantDigits (d.shortest .up)).length : Nat) : Int) := by
      omega
    rw [value, List.append_nil, digitsValue_append, digitsValue_zeros, List.length_replicate,
      Nat.add_zero, Nat.cast_mul, cast_powerOfTen, hexponent, zpow_natCast]
    simp
  · exact value_positional ..

end Json.Numeral

/-- A number without the sign of a negative zero. -/
def Double.unsignedZero (d : Double) : Double :=
  ⟨d.negative && d.magnitude != 0, d.magnitude, d.magnitude_lt⟩

theorem Double.equal_unsignedZero (h : d.isNaN = false) : d.unsignedZero.equal d = true := by
  have hkey : d.unsignedZero.key = d.key := by
    simp only [key, unsignedZero]
    by_cases hzero : d.magnitude = 0
    · simp [hzero]
    · simp [hzero]
  have hnan : d.unsignedZero.isNaN = false := h
  rw [equal, hnan, h, hkey, beq_self_eq_true]
  rfl

/-- **What text operators see of a finite number spells that number**, zero without a sign. -/
theorem readDouble?_plain (h : d.isFinite = true) :
    readDouble? (Layout.plain.write d) = some d.unsignedZero := by
  have hread := Json.Numeral.read?_text (Json.Numeral.proper_ofPlain d)
  have htrim := Decimal.trimChars_of_read? (Json.Numeral.read?_decimal hread)
  have hnearest : (Json.Numeral.ofPlain d).decimal.nearest = d.unsignedZero := by
    have hmagnitude := Decimal.magnitude_nearest_congr (c := (Json.Numeral.ofPlain d).decimal)
      (Json.Numeral.value_ofPlain d)
    rw [Double.nearest_shortest .up h] at hmagnitude
    have hnegative : (Json.Numeral.ofPlain d).decimal.nearest.negative
        = (d.negative && d.magnitude != 0) :=
      (Decimal.negative_nearest _).trans (Json.Numeral.negative_ofPlain d)
    exact Double.ext hnegative hmagnitude
  rw [Json.Numeral.write_plain h, ← hnearest]
  refine Json.Numeral.readDouble?_of_read? ?_ (hnearest ▸ h)
  rw [String.toList_ofList, htrim]
  exact hread

end VaultQuery
