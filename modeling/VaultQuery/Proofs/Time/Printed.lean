import VaultQuery.Time.Printer
import VaultQuery.Time.Reader
import VaultQuery.Proofs.Number.Digits
import VaultQuery.Proofs.Text.Edges

/-! # Printed instants are read back

    An instant is printed with digits of fixed width, so that each reader knows where a part
    ends. The reader of document times takes every instant back, leap seconds and signed years
    included; the strict reader takes those of the years up to 9999.

    * `Text.takeNumber?_append`: the digits of one part;
    * `Instant.ofFields?_self`: an instant is made of its own clock reading;
    * `Instant.readLenient?_withZulu`: document times;
    * `Instant.readStrict?_localText`, `Instant.read?_withOffset`, `Instant.read?_withZulu_iff`:
      dates in texts. -/

namespace VaultQuery

namespace Text

variable {ds rest : List Char} {least most : Nat}

/-- Digits are taken as far as they go, or as far as is allowed. -/
theorem takeNumber?_append (hds : ∀ c ∈ ds, isDigit c = true) (hleast : least ≤ ds.length)
    (hmost : ds.length ≤ most) (hrest : ds.length = most ∨ EndsDigits rest) :
    takeNumber? least most (ds ++ rest) = some (digitsValue ds, rest) := by
  have hstop : (rest.take (most - ds.length)).takeWhile isDigit = [] := by
    rcases hrest with hfull | hends
    · rw [hfull, Nat.sub_self, List.take_zero, List.takeWhile_nil]
    · cases rest with
      | nil => rw [List.take_nil, List.takeWhile_nil]
      | cons c cs =>
          have hc : isDigit c = false := hends c rfl
          cases hk : most - ds.length with
          | zero => rfl
          | succ k =>
              rw [List.take_succ_cons, List.takeWhile_cons, hc]
              rfl
  have htaken : ((ds ++ rest).take most).takeWhile isDigit = ds := by
    rw [List.take_append, List.take_of_length_le hmost, List.takeWhile_append_of_pos hds, hstop,
      List.append_nil]
  simp only [takeNumber?, htaken, if_neg (Nat.not_lt.mpr hleast)]
  rw [List.drop_left]

theorem trimLeft_digits (hds : ∀ c ∈ ds, isDigit c = true) (hne : ds ≠ []) (rest : List Char) :
    trimLeft (ds ++ rest) = ds ++ rest := by
  cases ds with
  | nil => exact absurd rfl hne
  | cons c ds =>
      exact trimLeft_cons (isBlank_eq_false_of_isDigit (hds c (List.mem_cons_self ..))) _

/-- A part of fixed width. -/
theorem takeNumber?_padded {width n : Nat} (hwidth : 0 < width) (h : n < powerOfTen width)
    (rest : List Char) :
    takeNumber? width width (padded width n ++ rest) = some (n, rest) := by
  have hlength := length_padded hwidth h
  rw [takeNumber?_append (fun _ => isDigit_of_mem_padded) (Nat.le_of_eq hlength.symm)
    (Nat.le_of_eq hlength) (Or.inl hlength), digitsValue_padded]

end Text

namespace Instant

open Text

variable {rest : List Char}

/-! ## The parts -/

/-- Two digits, with or without room for blanks. -/
theorem takeTwo?_padded {n : Nat} (h : n < 100) (rest : List Char) :
    takeTwo? (padded 2 n ++ rest) = some (n, rest) := by
  have hlength : (padded 2 n).length = 2 := length_padded (by decide) h
  rw [takeTwo?, trimLeft_digits (fun _ => isDigit_of_mem_padded) (padded_ne_nil 2 n),
    takeNumber?_append (fun _ => isDigit_of_mem_padded) (by omega) (by omega) (Or.inl hlength),
    digitsValue_padded]

/-- A signed year is as long as its digits are. -/
theorem takeNumber?_signed (n : Nat) (hrest : EndsDigits rest) :
    takeNumber? 1 (padded 4 n ++ rest).length (padded 4 n ++ rest) = some (n, rest) := by
  have hlength : 0 < (padded 4 n).length := List.length_pos_iff.mpr (padded_ne_nil 4 n)
  rw [takeNumber?_append (fun _ => isDigit_of_mem_padded) hlength
    (by rw [List.length_append]; omega) (Or.inr hrest), digitsValue_padded]

/-- A year of four digits is read as it is. -/
theorem takeYear?_padded {n : Nat} (h : n < 10000) (rest : List Char) :
    takeYear? (padded 4 n ++ rest) = some ((n : Int), rest) := by
  have hlength : (padded 4 n).length = 4 := length_padded (by decide) h
  have htake : takeNumber? 1 4 (padded 4 n ++ rest) = some (n, rest) := by
    rw [takeNumber?_append (fun _ => isDigit_of_mem_padded) (by omega) (by omega)
      (Or.inl hlength), digitsValue_padded]
  rw [takeYear?, trimLeft_digits (fun _ => isDigit_of_mem_padded) (padded_ne_nil 4 n)]
  -- the text begins with a digit and not with a sign
  have hsign : ∀ c, isDigit c = false → ∀ cs, padded 4 n ++ rest ≠ c :: cs := by
    intro c hc cs heq
    cases hds : padded 4 n with
    | nil => exact padded_ne_nil 4 n hds
    | cons x xs =>
        have hx : isDigit x = true := isDigit_of_mem_padded (hds ▸ List.mem_cons_self ..)
        rw [hds] at heq
        rw [(List.cons.inj heq).1, hc] at hx
        exact nomatch hx
  split
  · rename_i cs heq
    exact absurd heq (hsign '-' rfl cs)
  · rename_i cs heq
    exact absurd heq (hsign '+' rfl cs)
  · rw [htake]
    rfl

theorem takeYear?_yearText (year : Int) (hrest : EndsDigits rest) :
    takeYear? (yearText year ++ rest) = some (year, rest) := by
  rw [yearText]
  split
  · rename_i h
    have hfits : year.toNat < 10000 := by omega
    have hvalue : (year.toNat : Int) = year := by omega
    rw [takeYear?_padded hfits, hvalue]
  · rename_i h
    by_cases hneg : year < 0
    · have hvalue : -(year.natAbs : Int) = year := by omega
      rw [if_pos hneg, List.cons_append, takeYear?, trimLeft_cons (by decide)]
      simp only [takeNumber?_signed year.natAbs hrest, Option.map_some, hvalue]
    · have hvalue : (year.natAbs : Int) = year := by omega
      rw [if_neg hneg, List.cons_append, takeYear?, trimLeft_cons (by decide)]
      simp only [takeNumber?_signed year.natAbs hrest, Option.map_some, hvalue]

/-- A fraction of a second in as many digits as it needs. -/
theorem takeNanosecond?_fractionText {n : Nat} (h : n < 1000000000)
    (hrest : EndsDigits rest) (hpoint : rest.head? ≠ some '.') :
    takeNanosecond? (fractionText n ++ rest) = some (n, rest) := by
  have htake : ∀ width k, 0 < width → width ≤ 9 → k < powerOfTen width →
      takeFraction? (padded width k ++ rest) = some (k * powerOfTen (9 - width), rest) := by
    intro width k hwidth hnine hk
    have hlength := length_padded hwidth hk
    have hdigits : takeDigits (padded width k ++ rest) = (padded width k, rest) :=
      takeDigits_append (fun _ => isDigit_of_mem_padded) hrest
    have hne : (padded width k).isEmpty = false :=
      List.isEmpty_eq_false_iff.mpr (padded_ne_nil width k)
    have hkept : (padded width k).take 9 = padded width k :=
      List.take_of_length_le (by omega)
    simp only [takeFraction?, hdigits, hne, hkept, digitsValue_padded, hlength]
    rfl
  rw [fractionText]
  split
  · rename_i hzero
    rw [List.nil_append, takeNanosecond?, hzero]
    rintro cs rfl
    exact hpoint rfl
  · split
    · rename_i hmillis
      have hvalue : n / 1000000 * powerOfTen 6 = n := by
        show n / 1000000 * 1000000 = n
        omega
      have hfits : n / 1000000 < powerOfTen 3 := by
        show n / 1000000 < 1000
        omega
      rw [List.cons_append, takeNanosecond?, htake 3 _ (by decide) (by decide) hfits, hvalue]
    · split
      · rename_i hmicros
        have hvalue : n / 1000 * powerOfTen 3 = n := by
          show n / 1000 * 1000 = n
          omega
        have hfits : n / 1000 < powerOfTen 6 := by
          show n / 1000 < 1000000
          omega
        rw [List.cons_append, takeNanosecond?, htake 6 _ (by decide) (by decide) hfits, hvalue]
      · have hvalue : n * powerOfTen 0 = n := Nat.mul_one n
        rw [List.cons_append, takeNanosecond?, htake 9 _ (by decide) (by decide) h, hvalue]

/-! ## The clock reading -/

/-- **An instant is made of its own clock reading.** -/
theorem ofFields?_self (t : Instant) :
    ofFields? t.day.year t.day.month t.day.day (t.second / 3600) (t.second / 60 % 60)
      t.clockSecond (t.nanosecond % 1000000000) 0 = some t := by
  obtain ⟨d, s, n, hs, hn, hl⟩ := t
  have hguard : s / 3600 < 24 ∧ s / 60 % 60 < 60 ∧
      (if n < 1000000000 then s % 60 else 60) ≤ 60 ∧ n % 1000000000 < 1000000000 := by
    refine ⟨by omega, by omega, ?_, by omega⟩
    split <;> omega
  have hseconds : ((s / 3600 * 3600 + s / 60 % 60 * 60
      + min (if n < 1000000000 then s % 60 else 60) 59 : Nat) : Int) - 0 = s := by
    split
    · omega
    · rename_i hleap
      have hlast := hl (by omega)
      omega
  have hnanoseconds : n % 1000000000
      + (if (if n < 1000000000 then s % 60 else 60) = 60 then 1000000000 else 0) = n := by
    by_cases hbefore : n < 1000000000
    · rw [if_pos hbefore, if_neg (by omega)]
      omega
    · rw [if_neg hbefore, if_pos rfl]
      omega
  have hday : ¬ (s : Int) < 0 ∧ (s : Int) < 86400 := by omega
  have hsecond : ((s : Int) % 86400).toNat = s := by omega
  simp only [ofFields?, clockSecond]
  rw [if_pos hguard, hseconds, hnanoseconds, Day.make?_self, Option.bind_some, if_neg hday.1,
    if_pos hday.2, Option.bind_some, hsecond, make?, dif_pos hs, dif_pos hn, dif_pos hl]

/-! ## The whole text -/

/-- The parts of a printed instant in their order. -/
theorem localText_append (t : Instant) (zone : List Char) :
    t.localText ++ zone = yearText t.day.year ++ '-' :: (padded 2 t.day.month ++
      '-' :: (padded 2 t.day.day ++ 'T' :: (padded 2 (t.second / 3600) ++
        ':' :: (padded 2 (t.second / 60 % 60) ++ ':' :: (padded 2 t.clockSecond ++
          (fractionText (t.nanosecond % 1000000000) ++ zone)))))) := by
  simp only [localText, List.append_assoc, List.cons_append]

theorem toList_withZulu (t : Instant) : t.withZulu.toList = t.localText ++ ['Z'] :=
  String.toList_ofList

theorem toList_withOffset (t : Instant) :
    t.withOffset.toList = t.localText ++ "+00:00".toList := String.toList_ofList

theorem clockSecond_le (t : Instant) : t.clockSecond ≤ 60 := by
  rw [clockSecond]
  split <;> omega

/-- The parts fit their widths. -/
theorem parts_lt (t : Instant) :
    t.day.month < 100 ∧ t.day.day < 100 ∧ t.second / 3600 < 100 ∧ t.second / 60 % 60 < 100 ∧
      t.clockSecond < 100 := by
  have hday := day_le_31 t.day
  have hmonth := t.day.month_mem
  have hsecond := t.second_lt
  have hclock := t.clockSecond_le
  omega

theorem endsDigits_cons {c : Char} (h : isDigit c = false) (cs : List Char) :
    EndsDigits (c :: cs) := by
  intro x hx
  cases hx
  exact h

theorem trimLeft_minus (cs : List Char) : trimLeft ('-' :: cs) = '-' :: cs :=
  trimLeft_cons (by decide) cs

theorem trimLeft_colon (cs : List Char) : trimLeft (':' :: cs) = ':' :: cs :=
  trimLeft_cons (by decide) cs

/-- **Every instant is read back from the form it has in files.** -/
theorem readLenient?_withZulu (t : Instant) : readLenient? t.withZulu.toList = some t := by
  obtain ⟨hmonth, hday, hhour, hminute, hsecond⟩ := t.parts_lt
  have hfraction : takeNanosecond? (fractionText (t.nanosecond % 1000000000) ++ ['Z'])
      = some (t.nanosecond % 1000000000, ['Z']) :=
    takeNanosecond?_fractionText (Nat.mod_lt _ (by decide)) (endsDigits_cons rfl [])
      (by decide)
  have hzone : takeZone? (trimLeft ['Z']) = some (0, []) := by decide
  have hend : (trimLeft []).isEmpty = true := rfl
  rw [toList_withZulu, localText_append, readLenient?]
  simp only [takeYear?_yearText _ (endsDigits_cons (c := '-') rfl _), Option.bind_eq_bind,
    Option.bind_some, trimLeft_minus, trimLeft_colon, skip?, if_true, Option.some_or,
    takeTwo?_padded hmonth, takeTwo?_padded hday, takeTwo?_padded hhour,
    takeTwo?_padded hminute, takeTwo?_padded hsecond, hfraction, hzone, hend]
  exact t.ofFields?_self

/-- **Instants of the years up to 9999 are read back in the strict format**, with either zone. -/
theorem readStrict?_localText {t : Instant} {zone : List Char}
    (h : 0 ≤ t.day.year ∧ t.day.year ≤ 9999) (hends : EndsDigits zone)
    (hpoint : zone.head? ≠ some '.') (hzone : takeOffset? (skip? ':') zone = some (0, [])) :
    readStrict? (t.localText ++ zone) = some t := by
  obtain ⟨hmonth, hday, hhour, hminute, hsecond⟩ := t.parts_lt
  have hyear : t.day.year.toNat < powerOfTen 4 := by
    show t.day.year.toNat < 10000
    omega
  have hvalue : (t.day.year.toNat : Int) = t.day.year := by omega
  have hfraction : takeNanosecond? (fractionText (t.nanosecond % 1000000000) ++ zone)
      = some (t.nanosecond % 1000000000, zone) :=
    takeNanosecond?_fractionText (Nat.mod_lt _ (by decide)) hends hpoint
  have htwo : ∀ n rest, n < 100 → takeNumber? 2 2 (padded 2 n ++ rest) = some (n, rest) :=
    fun n rest hn => takeNumber?_padded (by decide) hn rest
  rw [localText_append, yearText, if_pos h, readStrict?]
  simp only [takeNumber?_padded (by decide : 0 < 4) hyear, Option.bind_eq_bind,
    Option.bind_some, skip?, if_true, Option.some_or, htwo _ _ hmonth, htwo _ _ hday,
    htwo _ _ hhour, htwo _ _ hminute, htwo _ _ hsecond, hfraction, hzone, List.isEmpty_nil,
    hvalue]
  exact t.ofFields?_self

/-- Nothing is cut from a printed instant. -/
theorem trimChars_localText (t : Instant) (zone : List Char) {c : Char} (h : isBlank c = false) :
    trimChars (t.localText ++ (zone ++ [c])) = t.localText ++ (zone ++ [c]) := by
  have hleft : trimLeft (t.localText ++ (zone ++ [c])) = t.localText ++ (zone ++ [c]) := by
    rw [localText_append, yearText]
    split
    · exact trimLeft_digits (fun _ => isDigit_of_mem_padded) (padded_ne_nil 4 _) _
    · rw [List.cons_append]
      split
      · exact trimLeft_minus _
      · exact trimLeft_cons (by decide) _
  rw [trimChars, hleft, ← List.append_assoc, trimRight_concat h]

/-- **What text operators see of an instant is read as that instant**, in the years up to 9999. -/
theorem read?_withOffset {t : Instant} (h : 0 ≤ t.day.year ∧ t.day.year ≤ 9999) :
    read? t.withOffset = some t := by
  have hstrict : readStrict? (t.localText ++ "+00:00".toList) = some t :=
    readStrict?_localText h (endsDigits_cons rfl _) (by decide) (by decide)
  have htrimmed := t.trimChars_localText "+00:0".toList (c := '0') (by decide)
  rw [read?, toList_withOffset]
  rw [show "+00:00".toList = "+00:0".toList ++ ['0'] from rfl] at hstrict ⊢
  rw [htrimmed, hstrict]
  rfl

theorem trimChars_withZulu (t : Instant) : trimChars t.withZulu.toList = t.withZulu.toList := by
  rw [toList_withZulu]
  exact t.trimChars_localText [] (by decide)

/-- A signed year is in none of the formats for dates: the strict one has no sign, and in the
    others nothing may follow the seconds or the day. -/
theorem read?_withZulu_eq_none {t : Instant} (h : ¬ (0 ≤ t.day.year ∧ t.day.year ≤ 9999)) :
    read? t.withZulu = none := by
  obtain ⟨hmonth, hday, hhour, hminute, hsecond⟩ := t.parts_lt
  have hstrict : readStrict? t.withZulu.toList = none := by
    have hsign : ∀ c cs, isDigit c = false → takeNumber? 4 4 (c :: cs) = none := by
      intro c cs hc
      simp only [takeNumber?, List.take_succ_cons, List.takeWhile_cons, hc]
      rfl
    have hyear : isDigit (if t.day.year < 0 then '-' else '+') = false := by
      split <;> rfl
    rw [toList_withZulu, localText_append, yearText, if_neg h, List.cons_append, readStrict?,
      hsign _ _ hyear]
    rfl
  have htail : (fractionText (t.nanosecond % 1000000000) ++ ['Z']).isEmpty = false :=
    List.isEmpty_eq_false_iff.mpr (List.append_ne_nil_of_right_ne_nil _ (List.cons_ne_nil _ _))
  have hdayTime : readDayTime? t.withZulu.toList = none := by
    rw [toList_withZulu, localText_append, readDayTime?]
    simp only [takeYear?_yearText _ (endsDigits_cons (c := '-') rfl _), Option.bind_eq_bind,
      Option.bind_some, skip?, if_true, takeTwo?_padded hmonth, takeTwo?_padded hday,
      takeTwo?_padded hhour, takeTwo?_padded hminute, takeTwo?_padded hsecond, htail]
    rfl
  have hdayAlone : readDay? t.withZulu.toList = none := by
    rw [toList_withZulu, localText_append, readDay?]
    simp only [takeYear?_yearText _ (endsDigits_cons (c := '-') rfl _), Option.bind_eq_bind,
      Option.bind_some, skip?, if_true, takeTwo?_padded hmonth, takeTwo?_padded hday,
      List.isEmpty_cons]
    rfl
  rw [read?, trimChars_withZulu, hstrict, hdayTime, hdayAlone]
  rfl

/-- **The printed instants that are read as dates** are those of the years up to 9999. -/
theorem read?_withZulu_iff {t : Instant} :
    read? t.withZulu = some t ↔ 0 ≤ t.day.year ∧ t.day.year ≤ 9999 := by
  constructor
  · intro hread
    refine Decidable.byContradiction fun h => ?_
    rw [read?_withZulu_eq_none h] at hread
    cases hread
  · intro h
    rw [read?, trimChars_withZulu, toList_withZulu,
      readStrict?_localText h (endsDigits_cons rfl _) (by decide) (by decide)]
    rfl

end Instant
end VaultQuery
