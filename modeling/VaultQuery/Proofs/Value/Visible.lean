import VaultQuery.Proofs.Attribute.Coercion
import VaultQuery.Proofs.Json.Numeral
import VaultQuery.Proofs.Time.Printed

/-! # Texts that are not blank

    What a kind makes of a text, or a text of a value, can be seen: numbers, dates and truth
    values have text forms with a character that is not blank.

    * `Text.Visible`: some character of the text is not blank;
    * `Layout.visible_plain`, `Instant.visible_withOffset`, `Value.visible_boolText`: the text
      forms of numbers, dates and truth values;
    * `Kind.exists_text_coerce`: a visible text has one visible text under every kind. -/

namespace VaultQuery

namespace Text

theorem trimChars_eq_nil_iff {cs : List Char} :
    trimChars cs = [] ↔ ∀ c ∈ cs, isBlank c = true := by
  rw [trimChars, trimRight, List.reverse_eq_nil_iff, List.dropWhile_eq_nil_iff]
  simp only [List.mem_reverse]
  constructor
  · intro h
    -- the first character left would not be blank
    have hleft : trimLeft cs = [] := by
      cases hcs : trimLeft cs with
      | nil => rfl
      | cons c rest =>
          have hhead := head?_dropWhile_isBlank cs c
          rw [← trimLeft, hcs] at hhead
          have hblank : isBlank c = true := h c (by rw [hcs]; exact List.mem_cons_self ..)
          rw [hhead rfl] at hblank
          cases hblank
    exact List.dropWhile_eq_nil_iff.mp hleft
  · intro h c hc
    exact h c ((List.dropWhile_suffix _).subset hc)

/-- Some character of the text is not blank. -/
def Visible (s : String) : Prop := ∃ c ∈ s.toList, isBlank c = false

theorem visible_iff {s : String} : Visible s ↔ (trimChars s.toList).isEmpty = false := by
  rw [List.isEmpty_eq_false_iff, Ne, trimChars_eq_nil_iff]
  simp [Visible]

/-- What is left of a text when the edges are cut is visible, if anything is. -/
theorem visible_trim {s : String} (h : (trim s).isEmpty = false) : Visible (trim s) := by
  rw [trim, Visible, String.toList_ofList]
  cases hcs : trimChars s.toList with
  | nil =>
      rw [trim, hcs] at h
      exact nomatch h
  | cons c cs =>
      refine ⟨c, List.mem_cons_self .., (trimmed_trimChars s.toList).1 c ?_⟩
      rw [hcs]
      rfl

end Text

/-- Positional digits are visible. -/
theorem Layout.visible_positionalText (wholeMark : String) {ds : List Char} (point : Int)
    (hne : ds ≠ []) (hds : ∀ c ∈ ds, Text.isDigit c = true) :
    ∃ c ∈ positionalText wholeMark ds point, Text.isBlank c = false := by
  obtain ⟨c, hc⟩ := List.exists_mem_of_ne_nil ds hne
  have hblank : Text.isBlank c = false := Text.isBlank_eq_false_of_isDigit (hds c hc)
  rw [positionalText]
  split
  · exact ⟨c, List.mem_append.mpr (Or.inr hc), hblank⟩
  · split
    · exact ⟨c, List.mem_append.mpr (Or.inl (List.mem_append.mpr (Or.inl hc))), hblank⟩
    · exact ⟨'.', List.mem_append.mpr (Or.inr (List.mem_cons_self ..)), by decide⟩

theorem Layout.visible_plain (n : Double) : Text.Visible (plain.write n) := by
  obtain ⟨hne, hds, -⟩ := significantDigits_spec (n.shortest plain.tie)
  obtain ⟨c, hc, hblank⟩ :=
    visible_positionalText plain.wholeMark (n.shortest plain.tie).pointPosition hne hds
  have hunsigned : c ∈ plain.unsignedText n := hc
  rw [write]
  split
  · exact ⟨'N', List.mem_cons_self .., by decide⟩
  · split
    · split
      · exact ⟨'-', List.mem_cons_self .., by decide⟩
      · exact ⟨'i', List.mem_cons_self .., by decide⟩
    · split
      · refine ⟨c, ?_, hblank⟩
        rw [String.toList_ofList]
        exact List.mem_cons_of_mem _ hunsigned
      · refine ⟨c, ?_, hblank⟩
        rw [String.toList_ofList]
        exact hunsigned

theorem Instant.visible_withOffset (i : Instant) : Text.Visible i.withOffset := by
  refine ⟨'+', ?_, by decide⟩
  rw [withOffset, String.toList_ofList]
  exact List.mem_append.mpr (Or.inr (List.mem_cons_self ..))

theorem Value.visible_boolText (b : Bool) : Text.Visible (boolText b) := by
  cases b with
  | true => exact ⟨'t', List.mem_cons_self .., by decide⟩
  | false => exact ⟨'f', List.mem_cons_self .., by decide⟩

/-- **A visible text has one visible text under every kind**, whether the kind makes a number,
    a date, a truth value or a list of it. -/
theorem Kind.exists_text_coerce (kind : Kind) {t : String} (h : Text.Visible t) :
    ∃ text, (kind.coerce (.text t)).text? = some text ∧ Text.Visible text ∧
      (kind.coerce (.text t)).toItems.filterMap (·.text?) = [text] := by
  have hsees := kind.sees_coerce (.text t)
  generalize kind.coerce (.text t) = seen at hsees ⊢
  cases hsees with
  | same => exact ⟨t, rfl, h, rfl⟩
  | text _ htext =>
      cases htext
      exact ⟨t, rfl, h, rfl⟩
  | list => exact ⟨t, rfl, h, rfl⟩
  | number => exact ⟨_, rfl, Layout.visible_plain _, rfl⟩
  | date => exact ⟨_, rfl, Instant.visible_withOffset _, rfl⟩
  | bool => exact ⟨_, rfl, Value.visible_boolText _, rfl⟩

end VaultQuery
