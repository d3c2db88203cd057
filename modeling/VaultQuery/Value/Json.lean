import VaultQuery.Value.Basic
import VaultQuery.Json.Printer
import VaultQuery.Dictionary

/-! # Values and JSON

    - `Value.toJson`: how a value is written; dates become texts;
    - `Value.ofJson?`: the value of JSON in vault files, tried type by type, and
      `Value.ofJson?_cases`: what comes of it, which is none for objects;
    - `Value.ofAnyJson`: the value of any JSON, an object becoming its own text. -/

namespace VaultQuery

namespace Json

mutual

/-- The same value with the members of every object in the order of their keys; of members
    with one key the last stays. -/
def sortMembers : Json → Json
  | .array items => .array (sortMembersOfItems items)
  | .object members => .object (Dictionary.ofList (sortMembersOfMembers members)).entries
  | .null => .null
  | .bool b => .bool b
  | .integer n => .integer n
  | .real d => .real d
  | .text s => .text s

def sortMembersOfItems : List Json → List Json
  | [] => []
  | j :: js => sortMembers j :: sortMembersOfItems js

def sortMembersOfMembers : List (String × Json) → List (String × Json)
  | [] => []
  | (key, j) :: js => (key, sortMembers j) :: sortMembersOfMembers js

end

/-- The text of a value on one line, members in the order of their keys. -/
def sortedText (j : Json) : String := j.sortMembers.compact

end Json

namespace Value

mutual

/-- A value in JSON; dates become texts with the zone `Z`. -/
def toJson : Value → Json
  | .null => .null
  | .bool b => .bool b
  | .number d => .real d
  | .text s => .text s
  | .date t => .text t.withZulu
  | .list items => .array (toJsonItems items)

/-- Items in JSON. -/
def toJsonItems : List Value → List Json
  | [] => []
  | v :: vs => v.toJson :: toJsonItems vs

end

/-- The JSON as nothing. -/
def nullOfJson? : Json → Option Value
  | .null => some .null
  | _ => none

/-- The JSON as a truth value. -/
def boolOfJson? : Json → Option Value
  | .bool b => some (.bool b)
  | _ => none

/-- The JSON as a number. -/
def numberOfJson? : Json → Option Value
  | .integer n => some (.number (Double.ofInt n))
  | .real d => some (.number d)
  | _ => none

/-- The JSON as a text. -/
def textOfJson? : Json → Option Value
  | .text s => some (.text s)
  | _ => none

/-- The JSON as a date. -/
def dateOfJson? : Json → Option Value
  | .text s => (Instant.readLenient? s.toList).map .date
  | _ => none

mutual

/-- The value that JSON stands for in a vault file: it is tried as a value of one type after the
    other, and the first that it can be is taken. -/
def ofJson? (j : Json) : Option Value :=
  (nullOfJson? j).or <| (boolOfJson? j).or <| (numberOfJson? j).or <| (textOfJson? j).or <|
    (dateOfJson? j).or <|
      match j with
      | .array items => (ofJsonItems? items).map .list
      | _ => none

/-- The values of items, if all have one. -/
def ofJsonItems? : List Json → Option (List Value)
  | [] => some []
  | j :: js =>
      match ofJson? j, ofJsonItems? js with
      | some v, some vs => some (v :: vs)
      | _, _ => none

end

/-- At most one of the attempts succeeds, except that a text is a text before it can be a date;
    an object is nothing of all this. -/
theorem ofJson?_cases (j : Json) :
    ofJson? j =
      match j with
      | .null => some .null
      | .bool b => some (.bool b)
      | .integer n => some (.number (Double.ofInt n))
      | .real d => some (.number d)
      | .text s => some (.text s)
      | .array items => (ofJsonItems? items).map .list
      | .object _ => none := by
  cases j <;> rfl

mutual

/-- The value of any JSON; an object is kept as its text. -/
def ofAnyJson : Json → Value
  | .null => .null
  | .bool b => .bool b
  | .integer n => .number (Double.ofInt n)
  | .real d => .number d
  | .text s => .text s
  | .array items => .list (ofAnyJsonItems items)
  | .object members => .text (Json.sortedText (.object members))

/-- The values of items. -/
def ofAnyJsonItems : List Json → List Value
  | [] => []
  | j :: js => ofAnyJson j :: ofAnyJsonItems js

end

/-- The value of a text: what it means as JSON if it is JSON, else the text itself. -/
def ofLiteral (s : String) : Value :=
  match Json.read? s with
  | some j => ofAnyJson j
  | none => .text s

end Value
end VaultQuery
