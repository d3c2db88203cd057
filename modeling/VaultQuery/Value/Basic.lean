import VaultQuery.Number.Layout
import VaultQuery.Time.Printer
import VaultQuery.Time.Reader

/-! # Attribute values

    What an attribute of a document may hold. Stored data has no declared type, so one type
    holds all of it.

    - `Value`: nothing, a truth value, a number, a text, a date or a list;
    - `Value.text?`: the text form; what is missing has none;
    - `Value.toItems`: a value as a list, a single value being its only item;
    - `Value.isEmpty`: nothing, the empty text and the empty list. -/

namespace VaultQuery

/-- The value of an attribute. -/
inductive Value where
  /-- Missing, or explicitly nothing. -/
  | null
  | bool (b : Bool)
  | number (d : Double)
  | text (s : String)
  | date (t : Instant)
  | list (items : List Value)
deriving Inhabited

namespace Value

/-- Nothing, the empty text and the empty list are empty; zero and `false` are not. -/
def isEmpty : Value → Bool
  | .null => true
  | .text s => s.isEmpty
  | .list items => items.isEmpty
  | _ => false

def isNull : Value → Bool
  | .null => true
  | _ => false

/-- The items of a list, and of nothing else. -/
def items? : Value → Option (List Value)
  | .list items => some items
  | _ => none

/-- The items of a list; a single value is its own only item and nothing has none. -/
def toItems : Value → List Value
  | .list items => items
  | .null => []
  | v => [v]

/-- Texts with commas between them. -/
def joinComma : List String → String
  | [] => ""
  | [s] => s
  | s :: rest => s ++ "," ++ joinComma rest

/-- The name of a truth value. -/
def boolText (b : Bool) : String := if b then "true" else "false"

mutual

/-- The text form of a value, if it is there at all; items are joined by commas, a missing
    item being the empty text. -/
def text? : Value → Option String
  | .null => none
  | .bool b => some (boolText b)
  | .number d => some (Layout.plain.write d)
  | .text s => some s
  | .date t => some t.withOffset
  | .list items => some (joinComma (itemTexts items))

/-- The text forms of items. -/
def itemTexts : List Value → List String
  | [] => []
  | v :: vs => (v.text?.getD "") :: itemTexts vs

end

/-- The text form, `null` for what is missing. -/
def display (v : Value) : String := v.text?.getD "null"

end Value
end VaultQuery
