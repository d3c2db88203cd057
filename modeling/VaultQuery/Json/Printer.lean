import VaultQuery.Json.Basic
import VaultQuery.Number.Layout

/-! # Written JSON

    - `Json.compact`: a value on one line without spaces;
    - `Json.pretty`: a value over several lines, two spaces to a level. -/

namespace VaultQuery.Json

/-- A text in quotes. -/
def quote (s : String) : List Char := '"' :: escape s.toList ++ ['"']

/-- The digits of an integer. -/
def integerText (n : Int) : List Char :=
  if n < 0 then '-' :: Nat.toDigits 10 n.natAbs else Nat.toDigits 10 n.natAbs

/-- A value without parts. -/
def scalarText : Json → List Char
  | .null => "null".toList
  | .bool b => (if b then "true" else "false").toList
  | .integer n => integerText n
  | .real d => (Layout.json.write d).toList
  | .text s => quote s
  | .array _ => "[]".toList
  | .object _ => "\x7b\x7d".toList

mutual

/-- A value on one line. -/
def compactText : Json → List Char
  | .array items => '[' :: compactItems items ++ [']']
  | .object members => '\x7b' :: compactMembers members ++ ['\x7d']
  | .null => scalarText .null
  | .bool b => scalarText (.bool b)
  | .integer n => scalarText (.integer n)
  | .real d => scalarText (.real d)
  | .text s => scalarText (.text s)

/-- Items with commas between them. -/
def compactItems : List Json → List Char
  | [] => []
  | j :: js => compactText j ++ compactMoreItems js

/-- Items with a comma before each. -/
def compactMoreItems : List Json → List Char
  | [] => []
  | j :: js => ',' :: compactText j ++ compactMoreItems js

/-- Members with commas between them. -/
def compactMembers : List (String × Json) → List Char
  | [] => []
  | (key, j) :: js => quote key ++ ':' :: compactText j ++ compactMoreMembers js

/-- Members with a comma before each. -/
def compactMoreMembers : List (String × Json) → List Char
  | [] => []
  | (key, j) :: js => ',' :: quote key ++ ':' :: compactText j ++ compactMoreMembers js

end

/-- A value on one line. -/
def compact (j : Json) : String := String.ofList j.compactText

/-- A line break and the indentation of a level. -/
def newLine (level : Nat) : List Char := '\n' :: List.replicate (2 * level) ' '

mutual

/-- A value over several lines; what it contains stands one level deeper than `level`. -/
def prettyText (level : Nat) : Json → List Char
  | .array [] => "[]".toList
  | .array (j :: js) =>
      '[' :: newLine (level + 1) ++ prettyText (level + 1) j ++ prettyItems (level + 1) js ++
        newLine level ++ [']']
  | .object [] => "\x7b\x7d".toList
  | .object ((key, j) :: js) =>
      '\x7b' :: newLine (level + 1) ++ quote key ++ ": ".toList ++ prettyText (level + 1) j ++
        prettyMembers (level + 1) js ++ newLine level ++ ['\x7d']
  | .null => scalarText .null
  | .bool b => scalarText (.bool b)
  | .integer n => scalarText (.integer n)
  | .real d => scalarText (.real d)
  | .text s => scalarText (.text s)

/-- Items on lines of their own, a comma before each. -/
def prettyItems (level : Nat) : List Json → List Char
  | [] => []
  | j :: js => ',' :: newLine level ++ prettyText level j ++ prettyItems level js

/-- Members on lines of their own, a comma before each. -/
def prettyMembers (level : Nat) : List (String × Json) → List Char
  | [] => []
  | (key, j) :: js =>
      ',' :: newLine level ++ quote key ++ ": ".toList ++ prettyText level j ++
        prettyMembers level js

end

/-- A value over several lines. -/
def pretty (j : Json) : String := String.ofList (j.prettyText 0)

end VaultQuery.Json
