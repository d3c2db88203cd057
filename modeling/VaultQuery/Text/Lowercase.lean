import VaultQuery.Text.SmallLetter
import VaultQuery.Text.Cased

/-! # Lower case

    Full Unicode lower case of a whole text. Every character is replaced on its own, with
    two exceptions: `İ` becomes two characters, and a capital sigma becomes the final small
    sigma at the end of a word.

    - `lowercase`: the small form of a text;
    - `isWordEnd`: a letter with case before, none after, looking past ignorable marks. -/

namespace VaultQuery.Text

/-- Looking past ignorable marks, a letter with case comes next. -/
def casedComesNext (cs : List Char) : Bool :=
  match (cs.dropWhile isCaseIgnorable).head? with
  | some c => isCased c
  | none => false

/-- Between `before` (nearest character first) and `after` a word ends. -/
def isWordEnd (before after : List Char) : Bool :=
  casedComesNext before && !casedComesNext after

/-- Lower case of the rest of a text whose characters so far are `before`, the nearest
    first. -/
def lowercaseFrom (before : List Char) : List Char → List Char
  | [] => []
  | 'Σ' :: cs =>
      (if isWordEnd before cs then 'ς' else 'σ') :: lowercaseFrom ('Σ' :: before) cs
  | 'İ' :: cs => 'i' :: '\u0307' :: lowercaseFrom ('İ' :: before) cs
  | c :: cs => smallForm c :: lowercaseFrom (c :: before) cs

/-- Lower case of a text. -/
def lowercase (s : String) : String := String.ofList (lowercaseFrom [] s.toList)

/-- Only the letters `A` to `Z` are made small. -/
def asciiLowercase (s : String) : String := s.map Char.toLower

end VaultQuery.Text
