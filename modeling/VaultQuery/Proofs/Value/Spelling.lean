import VaultQuery.Proofs.Number.Spelled
import VaultQuery.Proofs.Time.Printed
import VaultQuery.Proofs.Value.Literal

/-! # What a text spells

    A text is read as a number, as a date or as a truth value, but no text as two of them. So a
    kind that reads the text on one side of an equality does not lose what the text was equal
    to on the other.

    * `readDouble?_of_readInstant`, `readDouble?_of_readBool`, `Instant.read?_of_readBool`: what
      is read as one of them is not read as another;
    * `Value.Spells`, `Value.Spells.unique`: so a text spells one value at most;
    * `Value.looseEqual_ownText`: a value equals its own text form;
    * `Kind.looseEqual_coerce`: what equals a text does so under every kind but `text`;
    * `Kind.looseEqual_coerce_ownText`: a value equals its own text form under every kind. -/

namespace VaultQuery

open Text

variable {cs rest : List Char} {s : String}

/-! ## Dates begin with a year and a dash -/

/-- The text begins, after a sign perhaps, with digits and a dash. -/
def Text.BeginsWithYear (cs : List Char) : Prop :=
  ∃ ds rest, (∀ c ∈ ds, isDigit c = true) ∧ (takeSign cs).2 = ds ++ '-' :: rest

namespace Text

theorem skip?_eq_some {c : Char} (h : skip? c cs = some rest) : cs = c :: rest := by
  cases cs with
  | nil => cases h
  | cons d cs =>
      rw [skip?] at h
      split at h
      · rename_i hd
        rw [hd, Option.some.inj h]
      · cases h

/-- What is taken as a number are so many digits at the beginning. -/
theorem takeNumber?_spec {least most n : Nat} (h : takeNumber? least most cs = some (n, rest)) :
    ∃ ds, cs = ds ++ rest ∧ (∀ c ∈ ds, isDigit c = true) ∧ least ≤ ds.length := by
  simp only [takeNumber?] at h
  split at h
  · cases h
  · rename_i hleast
    obtain ⟨-, hrest⟩ := Prod.mk.inj (Option.some.inj h)
    obtain ⟨after, hafter⟩ : (cs.take most).takeWhile isDigit <+: cs :=
      (List.takeWhile_prefix isDigit).trans (List.take_prefix most cs)
    refine ⟨(cs.take most).takeWhile isDigit, ?_, fun c hc => List.mem_takeWhile_imp hc,
      Nat.le_of_not_lt hleast⟩
    have hdrop : ((cs.take most).takeWhile isDigit ++ after).drop
        ((cs.take most).takeWhile isDigit).length = after := List.drop_left
    rw [hafter] at hdrop
    rw [← hrest, hdrop, hafter]

/-- Digits are no sign. -/
theorem takeSign_digits {ds : List Char} (hds : ∀ c ∈ ds, isDigit c = true)
    (hlength : 0 < ds.length) (rest : List Char) : takeSign (ds ++ rest) = (false, ds ++ rest) := by
  cases ds with
  | nil => exact absurd hlength (Nat.lt_irrefl 0)
  | cons c ds =>
      have hc : isDigit c = true := hds c (List.mem_cons_self ..)
      rw [List.cons_append, takeSign]
      · rintro cs heq
        rw [(List.cons.inj heq).1] at hc
        cases hc
      · rintro cs heq
        rw [(List.cons.inj heq).1] at hc
        cases hc

/-- A number of at least one digit before a dash. -/
theorem beginsWithYear_of_takeNumber? {least most n : Nat} (hleast : 0 < least)
    (h : takeNumber? least most cs = some (n, '-' :: rest)) : BeginsWithYear cs := by
  obtain ⟨ds, rfl, hds, hlength⟩ := takeNumber?_spec h
  exact ⟨ds, rest, hds, by rw [takeSign_digits hds (by omega)]⟩

end Text

namespace Instant

theorem beginsWithYear_of_takeYear? {year : Int} (htrim : trimLeft cs = cs)
    (h : takeYear? cs = some (year, '-' :: rest)) : BeginsWithYear cs := by
  rw [takeYear?, htrim] at h
  split at h
  · obtain ⟨⟨n, after⟩, htake, hyear⟩ := Option.map_eq_some_iff.mp h
    cases hyear
    obtain ⟨ds, hsplit, hds, -⟩ := takeNumber?_spec htake
    exact ⟨ds, rest, hds, hsplit⟩
  · obtain ⟨⟨n, after⟩, htake, hyear⟩ := Option.map_eq_some_iff.mp h
    cases hyear
    obtain ⟨ds, hsplit, hds, -⟩ := takeNumber?_spec htake
    exact ⟨ds, rest, hds, hsplit⟩
  · obtain ⟨⟨n, after⟩, htake, hyear⟩ := Option.map_eq_some_iff.mp h
    cases hyear
    exact beginsWithYear_of_takeNumber? Nat.one_pos htake

/-- **Every text that is read as a date begins with a year and a dash.** -/
theorem beginsWithYear_of_read? {t : Instant} (h : read? s = some t) :
    BeginsWithYear (trimChars s.toList) := by
  have htrim : trimLeft (trimChars s.toList) = trimChars s.toList :=
    trimLeft_of_trimmed (trimmed_trimChars _)
  rw [read?] at h
  rcases Option.or_eq_some_iff.mp h with hstrict | ⟨-, hother⟩
  · obtain ⟨⟨year, rest⟩, hyear, hmore⟩ := Option.bind_eq_some_iff.mp hstrict
    obtain ⟨rest', hdash, -⟩ := Option.bind_eq_some_iff.mp hmore
    rw [skip?_eq_some hdash] at hyear
    exact beginsWithYear_of_takeNumber? (by decide) hyear
  · rcases Option.or_eq_some_iff.mp hother with hdayTime | ⟨-, hday⟩
    · obtain ⟨⟨year, rest⟩, hyear, hmore⟩ := Option.bind_eq_some_iff.mp hdayTime
      obtain ⟨rest', hdash, -⟩ := Option.bind_eq_some_iff.mp hmore
      rw [skip?_eq_some hdash] at hyear
      exact beginsWithYear_of_takeYear? htrim hyear
    · obtain ⟨⟨year, rest⟩, hyear, hmore⟩ := Option.bind_eq_some_iff.mp hday
      obtain ⟨rest', hdash, -⟩ := Option.bind_eq_some_iff.mp hmore
      rw [skip?_eq_some hdash] at hyear
      exact beginsWithYear_of_takeYear? htrim hyear

end Instant

/-! ## No text spells two -/

/-- A number does not go on with a dash after its first digits. -/
theorem Decimal.read?_of_beginsWithYear (h : BeginsWithYear cs) : Decimal.read? cs = none := by
  obtain ⟨ds, rest, hds, hsplit⟩ := h
  have htake : takeDigits (ds ++ '-' :: rest) = (ds, '-' :: rest) :=
    takeDigits_append hds (Instant.endsDigits_cons rfl rest)
  rw [read?_eq, hsplit, readParts?, htake]
  split
  · rfl
  · rfl

theorem readDouble?_of_readInstant {t : Instant} (h : Instant.read? s = some t) :
    readDouble? s = none := by
  rw [readDouble?, Decimal.read?_of_beginsWithYear (Instant.beginsWithYear_of_read? h)]

/-- A truth value is spelled by its name. -/
theorem trimChars_of_readBool {b : Bool} (h : readBool? s = some b) :
    trimChars s.toList = (Value.boolText b).toList := by
  simp only [readBool?] at h
  split at h
  · rename_i htrue
    cases h
    exact htrue
  · split at h
    · rename_i hfalse
      cases h
      exact hfalse
    · cases h

theorem readDouble?_of_readBool {b : Bool} (h : readBool? s = some b) : readDouble? s = none := by
  rw [readDouble?, trimChars_of_readBool h]
  cases b <;> rfl

theorem Instant.read?_of_readBool {b : Bool} (h : readBool? s = some b) :
    Instant.read? s = none := by
  rw [read?, trimChars_of_readBool h]
  cases b <;> rfl

/-! ## Texts as values see them -/

namespace Value

/-- A value that its text form stands for: a truth value, a finite number, a text, or a date of
    the years of four digits. -/
def HasSpelling : Value → Prop
  | .bool _ => True
  | .number d => d.isFinite = true
  | .text _ => True
  | .date t => 0 ≤ t.day.year ∧ t.day.year ≤ 9999
  | .null => False
  | .list _ => False

instance : DecidablePred HasSpelling
  | .bool _ => inferInstanceAs (Decidable True)
  | .number d => inferInstanceAs (Decidable (d.isFinite = true))
  | .text _ => inferInstanceAs (Decidable True)
  | .date t => inferInstanceAs (Decidable (0 ≤ t.day.year ∧ t.day.year ≤ 9999))
  | .null => inferInstanceAs (Decidable False)
  | .list _ => inferInstanceAs (Decidable False)

theorem readBool?_boolText (b : Bool) : readBool? (boolText b) = some b := by
  cases b <;> decide

/-- **A value equals its own text form.** -/
theorem looseEqual_ownText {v : Value} {text : String} (h : v.HasSpelling)
    (htext : v.text? = some text) : v.looseEqual (.text text) = true := by
  cases v with
  | null => exact h.elim
  | list items => exact h.elim
  | bool b =>
      cases htext
      rw [looseEqual, readBool?_boolText, beq_self_eq_true]
  | number d =>
      cases htext
      rw [looseEqual, spellsNumber, readDouble?_plain h]
      exact Double.equal_unsignedZero (Double.isNaN_eq_false_of_isFinite h)
  | text s =>
      cases htext
      rw [looseEqual, beq_self_eq_true]
  | date t =>
      cases htext
      rw [looseEqual, Instant.read?_withOffset h, beq_self_eq_true]

/-- The values other than itself that a text is read as. -/
inductive Spells (s : String) : Value → Prop
  | number {d : Double} : readDouble? s = some d → Spells s (.number d)
  | date {t : Instant} : Instant.read? s = some t → Spells s (.date t)
  | bool {b : Bool} : readBool? s = some b → Spells s (.bool b)

/-- **A text spells one value at most.** -/
theorem Spells.unique {u w : Value} (hu : Spells s u) (hw : Spells s w) : u = w := by
  cases hu with
  | number hd =>
      cases hw with
      | number hd' => rw [Option.some.inj (hd.symm.trans hd')]
      | date ht => cases (readDouble?_of_readInstant ht).symm.trans hd
      | bool hb => cases (readDouble?_of_readBool hb).symm.trans hd
  | date ht =>
      cases hw with
      | number hd => cases (readDouble?_of_readInstant ht).symm.trans hd
      | date ht' => rw [Option.some.inj (ht.symm.trans ht')]
      | bool hb => cases (Instant.read?_of_readBool hb).symm.trans ht
  | bool hb =>
      cases hw with
      | number hd => cases (readDouble?_of_readBool hb).symm.trans hd
      | date ht => cases (Instant.read?_of_readBool hb).symm.trans ht
      | bool hb' => rw [Option.some.inj (hb.symm.trans hb')]

/-- What is no text but equals one equals what that text spells. -/
theorem exists_spells_of_looseEqual {v : Value} (hv : ∀ a, v ≠ .text a)
    (h : v.looseEqual (.text s) = true) : ∃ u, Spells s u ∧ v.looseEqual u = true := by
  cases v with
  | text a => exact absurd rfl (hv a)
  | null => cases h
  | list items => cases h
  | number d =>
      rw [looseEqual, spellsNumber] at h
      cases hread : readDouble? s with
      | none =>
          rw [hread] at h
          cases h
      | some e =>
          rw [hread] at h
          refine ⟨.number e, .number hread, ?_⟩
          rw [looseEqual, Double.equal_comm]
          exact h
  | bool b =>
      rw [looseEqual, beq_iff_eq] at h
      exact ⟨.bool b, .bool h, by rw [looseEqual, beq_self_eq_true]⟩
  | date t =>
      rw [looseEqual, beq_iff_eq] at h
      exact ⟨.date t, .date h, by rw [looseEqual, beq_self_eq_true]⟩

end Value

/-! ## Texts as kinds see them -/

namespace Kind

open Value

variable {k : Kind} {v : Value}

/-- Kinds read texts; only `text` and `list` make something else of other values. -/
theorem coerce_of_ne_text (hk : k ≠ .text) (hlist : k ≠ .list) (hv : ∀ a, v ≠ .text a) :
    k.coerce v = v := by
  have hsees := k.sees_coerce v
  generalize k.coerce v = seen at hsees ⊢
  cases hsees with
  | same => rfl
  | text => exact absurd rfl hk
  | list => exact absurd rfl hlist
  | number => exact absurd rfl (hv _)
  | date => exact absurd rfl (hv _)
  | bool => exact absurd rfl (hv _)

/-- A kind keeps a text or reads what it spells. -/
theorem coerce_text (hk : k ≠ .text) (hlist : k ≠ .list) (s : String) :
    k.coerce (.text s) = .text s ∨ Spells s (k.coerce (.text s)) := by
  have hsees := k.sees_coerce (.text s)
  generalize k.coerce (.text s) = seen at hsees ⊢
  cases hsees with
  | same => exact Or.inl rfl
  | text => exact absurd rfl hk
  | list => exact absurd rfl hlist
  | number h => exact Or.inr (.number h)
  | date h => exact Or.inr (.date h)
  | bool h => exact Or.inr (.bool h)

/-- **What equals a text does so under every kind but `text`**: if the kind reads the text, what
    it reads equals the other side. -/
theorem looseEqual_coerce (hk : k ≠ .text) (h : v.looseEqual (.text s) = true) :
    (k.coerce v).looseEqual (k.coerce (.text s)) = true := by
  by_cases htext : ∃ a, v = .text a
  · obtain ⟨a, rfl⟩ := htext
    rw [looseEqual, beq_iff_eq] at h
    rw [h]
    exact (looseEqual_self_iff _).mpr (hasNaN_coerce k rfl)
  · have hv : ∀ a, v ≠ .text a := fun a ha => htext ⟨a, ha⟩
    by_cases hlist : k = .list
    · have hitems : Kind.list.coerce v = .list [v] := by
        cases v with
        | null => cases h
        | list items => cases h
        | _ => rfl
      rw [hlist, hitems]
      show (Value.list [v]).looseEqual (.list [.text s]) = true
      rw [looseEqual, looseEqualItems, h]
      rfl
    · rw [coerce_of_ne_text hk hlist hv]
      rcases coerce_text hk hlist s with hkept | hspelled
      · rw [hkept]
        exact h
      · obtain ⟨u, hu, hequal⟩ := exists_spells_of_looseEqual hv h
        rw [hspelled.unique hu]
        exact hequal

/-- Under the kind `text` a value is its text form. -/
theorem coerce_text_of_text? {text : String} (h : v.HasSpelling) (htext : v.text? = some text) :
    Kind.text.coerce v = .text text := by
  cases v with
  | null => exact h.elim
  | list items => exact h.elim
  | _ =>
      cases htext
      rfl

/-- **A value equals its own text form under every kind.** -/
theorem looseEqual_coerce_ownText (k : Kind) {text : String} (h : v.HasSpelling)
    (htext : v.text? = some text) : (k.coerce v).looseEqual (k.coerce (.text text)) = true := by
  by_cases hk : k = .text
  · have hkeep : Kind.text.coerce (.text text) = .text text := rfl
    rw [hk, coerce_text_of_text? h htext, hkeep, looseEqual, beq_self_eq_true]
  · exact looseEqual_coerce hk (looseEqual_ownText h htext)

end Kind
end VaultQuery
