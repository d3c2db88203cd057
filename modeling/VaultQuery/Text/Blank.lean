/-! # Blank characters

    What counts as blank at the edges of a key, a name or a number, and the text that
    is left when the edges are cut:

    - `isBlank`: the characters of the `White_Space` property;
    - `trim`: a text without its leading and trailing blanks;
    - `trimmed_trimChars`: nothing blank is left at either end. -/

namespace VaultQuery.Text

/-- The characters with the Unicode property `White_Space`. -/
def isBlank (c : Char) : Bool :=
  let n := c.toNat
  (0x09 ≤ n && n ≤ 0x0D) || n == 0x20 || n == 0x85 || n == 0xA0 || n == 0x1680 ||
    (0x2000 ≤ n && n ≤ 0x200A) || n == 0x2028 || n == 0x2029 || n == 0x202F ||
    n == 0x205F || n == 0x3000

/-- Without leading blanks. -/
def trimLeft (cs : List Char) : List Char := cs.dropWhile isBlank

/-- Without trailing blanks. -/
def trimRight (cs : List Char) : List Char := (cs.reverse.dropWhile isBlank).reverse

/-- Without blanks at either end. -/
def trimChars (cs : List Char) : List Char := trimRight (trimLeft cs)

/-- A text without blanks at either end. -/
def trim (s : String) : String := String.ofList (trimChars s.toList)

/-- Neither the first nor the last character is blank. -/
def Trimmed (cs : List Char) : Prop :=
  (∀ c ∈ cs.head?, isBlank c = false) ∧ (∀ c ∈ cs.getLast?, isBlank c = false)

theorem head?_dropWhile_isBlank (cs : List Char) :
    ∀ c ∈ (cs.dropWhile isBlank).head?, isBlank c = false := by
  induction cs with
  | nil => intro c hc; cases hc
  | cons a cs ih =>
      intro c hc
      cases h : isBlank a with
      | true => rw [List.dropWhile_cons, if_pos h] at hc; exact ih c hc
      | false =>
          rw [List.dropWhile_cons, if_neg (by simp [h])] at hc
          cases hc
          exact h

/-- Cutting the end keeps the first character, if anything is left. -/
theorem head?_trimRight {cs : List Char} :
    ∀ c ∈ (trimRight cs).head?, c ∈ cs.head? := by
  intro c hc
  obtain ⟨front, hfront⟩ : (trimRight cs) <+: cs := by
    have h := List.dropWhile_suffix isBlank (l := cs.reverse)
    simpa [trimRight] using List.reverse_prefix.mpr h
  rw [← hfront]
  cases h : trimRight cs with
  | nil => rw [h] at hc; cases hc
  | cons a as => rw [h] at hc; exact hc

/-- Nothing blank is left at either end of a trimmed text. -/
theorem trimmed_trimChars (cs : List Char) : Trimmed (trimChars cs) := by
  constructor
  · intro c hc
    exact head?_dropWhile_isBlank cs c (head?_trimRight c hc)
  · intro c hc
    have h := head?_dropWhile_isBlank (trimLeft cs).reverse c
    rw [trimChars, trimRight, List.getLast?_reverse] at hc
    exact h hc

end VaultQuery.Text
