import VaultQuery.Json.Basic

/-! # Quoted texts mean the texts they were made of

    Every character is written between quotes in a form of its own, and reading takes off one
    such form at a time.

    * `unescape?_escapeChar`: one character read back;
    * `textOf?_escape`: a whole text. -/

namespace VaultQuery.Json

theorem hexValue?_hexDigit {n : Nat} (h : n < 16) : hexValue? (hexDigit n) = some n := by
  have hall : ∀ m, m < 16 → hexValue? (hexDigit m) = some m := by decide
  exact hall n h

/-- Four digits spell a number below 32 when the first two are zeros. -/
theorem hexUnit?_hexDigit {n : Nat} (h : n < 32) :
    hexUnit? '0' '0' (hexDigit (n / 16)) (hexDigit (n % 16)) = some n := by
  have hzero : hexValue? '0' = some 0 := by decide
  have hhigh : hexValue? (hexDigit (n / 16)) = some (n / 16) := hexValue?_hexDigit (by omega)
  have hlow : hexValue? (hexDigit (n % 16)) = some (n % 16) := hexValue?_hexDigit (by omega)
  have hsum : 0 * 4096 + 0 * 256 + n / 16 * 16 + n % 16 = n := by omega
  rw [hexUnit?, hzero, hhigh, hlow]
  show some (0 * 4096 + 0 * 256 + n / 16 * 16 + n % 16) = some n
  rw [hsum]

/-- A character that is no backslash stands for itself. -/
theorem unescape?_cons_of_ne {c : Char} (h : c ≠ '\\') (cs : List Char) :
    unescape? (c :: cs) = (unescape? cs).map (c :: ·) := by
  rw [unescape?]
  · intro _ _ _ _ _ hc
    exact absurd hc h
  · intro _ _ hc
    exact absurd hc h
  · intro hc
    exact absurd hc h

theorem unescape?_escapeChar (c : Char) (cs : List Char) :
    unescape? (escapeChar c ++ cs) = (unescape? cs).map (c :: ·) := by
  rw [escapeChar]
  -- seven characters have a letter of their own
  iterate 7
    split
    · rename_i hc
      subst hc
      rfl
  split
  · rename_i hcontrol
    have hunit := hexUnit?_hexDigit hcontrol
    have hlow : isLowSurrogate c.toNat = false := by
      rw [isLowSurrogate, Bool.and_eq_false_iff]
      exact Or.inl (decide_eq_false (by omega))
    have hhigh : isHighSurrogate c.toNat = false := by
      rw [isHighSurrogate, Bool.and_eq_false_iff]
      exact Or.inl (decide_eq_false (by omega))
    show unescape? ('\\' :: 'u' :: '0' :: '0' :: hexDigit (c.toNat / 16)
      :: hexDigit (c.toNat % 16) :: cs) = _
    rw [unescape?]
    simp only [hunit, hlow, hhigh, Char.ofNat_toNat, Bool.false_eq_true, if_false]
  · rename_i hbackslash _ _ _ _ _ _
    exact unescape?_cons_of_ne hbackslash cs

/-- An escaped text means the text. -/
theorem unescape?_escape (cs : List Char) : unescape? (escape cs) = some cs := by
  induction cs with
  | nil => rfl
  | cons c cs ih =>
      have hsplit : escape (c :: cs) = escapeChar c ++ escape cs := List.flatMap_cons
      rw [hsplit, unescape?_escapeChar, ih]
      rfl

theorem textOf?_escape (s : String) : textOf? (escape s.toList) = some s := by
  rw [textOf?, unescape?_escape, Option.map_some, String.ofList_toList]

theorem wellEscaped_cons_of_ne {c : Char} (h : c ≠ '\\') (cs : List Char) :
    wellEscaped (c :: cs) = wellEscaped cs := by
  rw [wellEscaped]
  · intro _ _ _ _ _ hc
    exact absurd hc h
  · intro _ _ hc
    exact absurd hc h
  · intro hc
    exact absurd hc h

theorem wellEscaped_escapeChar (c : Char) (cs : List Char) :
    wellEscaped (escapeChar c ++ cs) = wellEscaped cs := by
  rw [escapeChar]
  iterate 7
    split
    · rfl
  split
  · rename_i hcontrol
    have hunit := hexUnit?_hexDigit hcontrol
    show wellEscaped ('\\' :: 'u' :: '0' :: '0' :: hexDigit (c.toNat / 16)
      :: hexDigit (c.toNat % 16) :: cs) = _
    rw [wellEscaped, hunit]
    rfl
  · rename_i hbackslash _ _ _ _ _ _
    exact wellEscaped_cons_of_ne hbackslash cs

theorem wellEscaped_escape (cs : List Char) : wellEscaped (escape cs) = true := by
  induction cs with
  | nil => rfl
  | cons c cs ih =>
      have hsplit : escape (c :: cs) = escapeChar c ++ escape cs := List.flatMap_cons
      rw [hsplit, wellEscaped_escapeChar, ih]

end VaultQuery.Json
