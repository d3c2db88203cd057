import VaultQuery.Json.Printer
import VaultQuery.Yaml.Scalar

/-! # Written YAML

    A JSON value in YAML, one item or member to a line:

    - `Json.toYaml`: the document. -/

namespace VaultQuery.Yaml

/-- A value without parts, and the empty array and object. -/
def scalarText (indent : Nat) : Json → List Char
  | .null => "null".toList
  | .bool b => (if b then "true" else "false").toList
  | .integer n => Json.integerText n
  | .real d => (Layout.yaml.write d).toList
  | .text s => writeText indent s.toList
  | .array _ => "[]".toList
  | .object _ => "\x7b\x7d".toList

/-- The key fits on one line before its colon. -/
def isSimpleKey (key : String) : Bool := key.utf8ByteSize ≤ 128 && key.toList.all (!isBreak ·)

/-- What a value stands behind. -/
inductive Position where
  /-- A dash, the colon of a marked key, or nothing: parts begin on the same line. -/
  | dash
  /-- The colon of a simple key: items begin on the next line below the key, members deeper
      than it. -/
  | key
deriving DecidableEq

/-- The indentation of the members of an object, and of the lines of a text. -/
def Position.inner (p : Position) (indent : Nat) : Nat :=
  match p with
  | .dash => indent
  | .key => indent + 2

/-- What stands before parts. -/
def Position.beforeParts (p : Position) (indent : Nat) : List Char :=
  match p with
  | .dash => []
  | .key => '\n' :: indentation indent

/-- What stands before a value without parts. -/
def Position.beforeScalar (p : Position) : List Char :=
  match p with
  | .dash => []
  | .key => [' ']

/-- Where the value of a key stands. -/
def positionOf (key : String) : Position := if isSimpleKey key then .key else .dash

/-- The indentation for the value of a key. -/
def valueIndent (indent : Nat) (key : String) : Nat :=
  if isSimpleKey key then indent else indent + 2

/-- A key up to its colon; one that does not fit on one line is marked. -/
def keyText (indent : Nat) (key : String) : List Char :=
  if isSimpleKey key then writeText indent key.toList ++ [':']
  else
    '?' :: ' ' :: endLine (writeText (indent + 2) key.toList) ++ indentation indent ++ [':', ' ']

/-- A value without parts behind what it belongs to, and the end of its line. -/
def scalarLine (p : Position) (indent : Nat) (j : Json) : List Char :=
  endLine (p.beforeScalar ++ scalarText indent j)

mutual

/-- A value behind what it belongs to, and the end of its last line. -/
def valueText (p : Position) (indent : Nat) : Json → List Char
  | .array (j :: js) =>
      p.beforeParts indent ++ '-' :: ' ' :: valueText .dash (indent + 2) j ++ moreItems indent js
  | .object ((key, j) :: ms) =>
      p.beforeParts (p.inner indent) ++ keyText (p.inner indent) key ++
        valueText (positionOf key) (valueIndent (p.inner indent) key) j ++
        moreMembers (p.inner indent) ms
  | .array [] => scalarLine p indent (.array [])
  | .object [] => scalarLine p indent (.object [])
  | .null => scalarLine p indent .null
  | .bool b => scalarLine p indent (.bool b)
  | .integer n => scalarLine p indent (.integer n)
  | .real d => scalarLine p indent (.real d)
  | .text s => scalarLine p (p.inner indent) (.text s)

/-- Items on lines of their own. -/
def moreItems (indent : Nat) : List Json → List Char
  | [] => []
  | j :: js =>
      indentation indent ++ '-' :: ' ' :: valueText .dash (indent + 2) j ++ moreItems indent js

/-- Members on lines of their own. -/
def moreMembers (indent : Nat) : List (String × Json) → List Char
  | [] => []
  | (key, j) :: ms =>
      indentation indent ++ keyText indent key ++
        valueText (positionOf key) (valueIndent indent key) j ++ moreMembers indent ms

end

end VaultQuery.Yaml

namespace VaultQuery

/-- A value as a YAML document. -/
def Json.toYaml (j : Json) : String := String.ofList (Yaml.valueText .dash 0 j)

end VaultQuery
