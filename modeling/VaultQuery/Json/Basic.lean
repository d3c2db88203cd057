import VaultQuery.Json.Written

/-! # JSON values

    - `Json`: a value with its texts and numbers understood;
    - `Json.ofWritten?`: the value of a written tree of bounded nesting;
    - `Json.read?`: the value of a text. -/

namespace VaultQuery

/-- A JSON value. Integers keep their digits, other numbers are doubles; members stand in the
    order of the text. -/
inductive Json where
  | null
  | bool (b : Bool)
  | integer (n : Int)
  | real (d : Double)
  | text (s : String)
  | array (items : List Json)
  | object (members : List (String × Json))
deriving Inhabited

namespace Json

/-- How many arrays and objects may stand inside each other. -/
def nestingLimit : Nat := 127

/-- The text that quoted characters mean. -/
def textOf? (raw : List Char) : Option String := (unescape? raw).map String.ofList

/-- The value of a number. -/
def ofNumber : Number → Json
  | .integer n => .integer n
  | .real d => .real d

mutual

/-- The value of a tree with at most `limit` containers inside each other. -/
def ofWritten? (limit : Nat) : Written → Option Json
  | .null => some .null
  | .bool b => some (.bool b)
  | .number n => n.number?.map ofNumber
  | .text raw => (textOf? raw).map .text
  | .array items => if limit = 0 then none else (ofItems? (limit - 1) items).map .array
  | .object members => if limit = 0 then none else (ofMembers? (limit - 1) members).map .object

/-- The values of all items. -/
def ofItems? (limit : Nat) : List Written → Option (List Json)
  | [] => some []
  | w :: ws =>
      match ofWritten? limit w, ofItems? limit ws with
      | some j, some js => some (j :: js)
      | _, _ => none

/-- The values of all members. -/
def ofMembers? (limit : Nat) : List (List Char × Written) → Option (List (String × Json))
  | [] => some []
  | (key, w) :: ws =>
      match textOf? key, ofWritten? limit w, ofMembers? limit ws with
      | some key, some j, some js => some ((key, j) :: js)
      | _, _, _ => none

end

/-- The value of a text. -/
def read? (s : String) : Option Json :=
  (Written.read? s.toList).bind (ofWritten? nestingLimit)

end Json
end VaultQuery
