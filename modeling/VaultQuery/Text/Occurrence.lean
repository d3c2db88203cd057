import VaultQuery.Text.Lowercase

/-! # Occurrences of a text in a text

    - `occursIn`: the one text is a contiguous part of the other;
    - `containsIgnoringCase`: the same after both are in lower case;
    - `occursIn_iff`: what `occursIn` decides. -/

namespace VaultQuery.Text

/-- `needle` is a contiguous part of the given characters. -/
def occursIn (needle : List Char) : List Char → Bool
  | [] => needle.isEmpty
  | c :: cs => needle.isPrefixOf (c :: cs) || occursIn needle cs

/-- The lower case of `needle` is part of the lower case of `haystack`. -/
def containsIgnoringCase (haystack needle : String) : Bool :=
  occursIn (lowercase needle).toList (lowercase haystack).toList

theorem occursIn_iff {needle cs : List Char} :
    occursIn needle cs = true ↔ ∃ front back, cs = front ++ needle ++ back := by
  induction cs with
  | nil =>
      constructor
      · intro h
        exact ⟨[], [], by simpa [occursIn] using h⟩
      · rintro ⟨front, back, h⟩
        simp only [List.nil_eq, List.append_eq_nil_iff] at h
        simp [occursIn, h.1.2]
  | cons c cs ih =>
      rw [occursIn, Bool.or_eq_true, List.isPrefixOf_iff_prefix, ih]
      constructor
      · rintro (⟨back, h⟩ | ⟨front, back, h⟩)
        · exact ⟨[], back, by simp [h]⟩
        · exact ⟨c :: front, back, by simp [h]⟩
      · rintro ⟨front, back, h⟩
        cases front with
        | nil => exact Or.inl ⟨back, by simpa using h.symm⟩
        | cons a front =>
            injection h with ha ht
            exact Or.inr ⟨front, back, ht⟩

end VaultQuery.Text
