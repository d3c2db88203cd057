import VaultQuery.Attribute.Basic
import VaultQuery.Text.Occurrence
import VaultQuery.Value.Comparison

/-! # Operators

    The tests a clause can make.

    - `Operator`: the twelve of them;
    - `Operator.weight`: the order in which clauses are tried;
    - `Operator.holds`: the test of an attribute's value against a clause's;
    - `Operator.enforce`: a value that passes the test, for those that have one. -/

namespace VaultQuery

/-- The tests of clauses. -/
inductive Operator where
  | eq
  | neq
  | isEmpty
  | notEmpty
  | contains
  | noContains
  /-- The attribute is a list with all items of the value. -/
  | hasAll
  /-- The attribute is a list with the link of the context document. -/
  | hasThis
  | gt
  | gte
  | lt
  | lte
deriving DecidableEq

namespace Operator

/-- All operators. -/
def all : List Operator :=
  [.eq, .neq, .isEmpty, .notEmpty, .contains, .noContains, .hasAll, .hasThis, .gt, .gte, .lt,
    .lte]

/-- The name in clause expressions. -/
def name : Operator → String
  | .eq => "eq"
  | .neq => "neq"
  | .isEmpty => "isempty"
  | .notEmpty => "notempty"
  | .contains => "contains"
  | .noContains => "nocontains"
  | .hasAll => "hasall"
  | .hasThis => "hasthis"
  | .gt => "gt"
  | .gte => "gte"
  | .lt => "lt"
  | .lte => "lte"

/-- The label for people. -/
def label : Operator → String
  | .eq => "Equal"
  | .neq => "Not Equal"
  | .isEmpty => "Is Empty"
  | .notEmpty => "Is Not Empty"
  | .contains => "Contains"
  | .noContains => "Does Not Contain"
  | .hasAll => "Has All"
  | .hasThis => "Has This"
  | .gt => "Greater Than"
  | .gte => "Greater Than Or Equal"
  | .lt => "Less Than"
  | .lte => "Less Than Or Equal"

/-- The operator of a name. -/
def ofName? (name : String) : Option Operator := all.find? (·.name == name)

/-- The operator of a name; there is no default. -/
def ofName (name : String) : Except Failure Operator :=
  match ofName? name with
  | some op => .ok op
  | none => .error (.unknownOperator name)

/-- Clauses with less weight are tried first: they are cheap and pass few documents. Nothing
    weighs more than `neq`. -/
def weight : Operator → Nat
  | .eq => 0
  | .contains => 2
  | .hasAll | .hasThis | .gt | .gte | .lt | .lte => 5
  | .isEmpty | .notEmpty => 10
  | .noContains => 12
  | .neq => Double.largestFinite

/-- The kinds of attribute the operator is meant for. It is advice and changes no answer. -/
def accepts (op : Operator) (kind : Kind) : Bool :=
  match op with
  | .hasAll | .hasThis => kind == .any || kind == .list
  | .contains | .noContains => kind == .any || kind == .text
  | _ => true

/-- There is a value that passes the test, and `enforce` finds it. -/
def canEnforce : Operator → Bool
  | .eq | .isEmpty | .hasAll | .hasThis | .gte | .lte => true
  | .neq | .notEmpty | .contains | .noContains | .gt | .lt => false

theorem ofName?_name (op : Operator) : ofName? op.name = some op := by
  cases op <;> decide

end Operator

/-- The text form of the one value contains that of the other, in lower case; what is missing
    neither contains nor is contained. -/
def textContains (haystack needle : Value) : Bool :=
  match haystack.text?, needle.text? with
  | some h, some n => Text.containsIgnoringCase h n
  | _, _ => false

/-- An item is loosely equal to the value. -/
def hasItem (items : List Value) (v : Value) : Bool := items.any (·.looseEqual v)

/-- The wanted values that are not there yet, one after the other, put at the end. -/
def addMissing (items : List Value) : List Value → List Value
  | [] => items
  | v :: wanted =>
      if hasItem items v then addMissing items wanted else addMissing (items ++ [v]) wanted

/-- The items to extend; what is no list starts afresh. -/
def currentItems (current : Value) : List Value := current.items?.getD []

/-- The link of the context document for the clause on `key`. -/
def thisLink (link : Option String) (key : Key) : Except Failure String :=
  match link with
  | some l => .ok l
  | none => .error (.missingContext key.name)

namespace Operator

/-- The test of an attribute's value `current` against the value of a clause, for every
    operator that needs no link. -/
def holdsFor (op : Operator) (current value : Value) : Bool :=
  match op with
  | .eq => current.looseEqual value
  | .neq => !current.looseEqual value
  | .isEmpty => current.isEmpty
  | .notEmpty => !current.isEmpty
  | .contains => textContains current value
  | .noContains => !textContains current value
  | .hasAll =>
      match current.items? with
      | some items => value.toItems.all (hasItem items)
      | none => false
  | .hasThis => false
  | .gt => current.compare? value == some .gt
  | .gte => current.compare? value == some .gt || current.compare? value == some .eq
  | .lt => current.compare? value == some .lt
  | .lte => current.compare? value == some .lt || current.compare? value == some .eq

/-- The list holds the link. -/
def holdsLink (current : Value) (link : String) : Bool :=
  match current.items? with
  | some items => hasItem items (.text link)
  | none => false

/-- The test of the attribute on a document. Only `hasThis` can fail, without a link. -/
def holds (op : Operator) (a : Attribute) (d : Document) (value : Value)
    (link : Option String) : Except Failure Bool :=
  match op with
  | .hasThis => (thisLink link a.key).map (holdsLink (a.value d))
  | op => .ok (op.holdsFor (a.value d) value)

/-- A value that passes the test, made from the current one. -/
def enforce (op : Operator) (key : Key) (current value : Value) (link : Option String) :
    Except Failure Value :=
  match op with
  | .eq | .gte | .lte => .ok value
  | .isEmpty => .ok .null
  | .hasAll => .ok (.list (addMissing (currentItems current) value.toItems))
  | .hasThis =>
      (thisLink link key).map fun l => .list (addMissing (currentItems current) [.text l])
  | op => .error (.notCreatable op.name)

end Operator
end VaultQuery
