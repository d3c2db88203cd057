import VaultQuery.Query.Operator
import VaultQuery.Value.Json

/-! # Clauses and sort fields

    - `Operand`: what a clause compares with: a value, or the link of the context document;
    - `Clause`: a test of one attribute, and its text form `key:operator[:value]`;
    - `SortField`: an attribute and a direction, and its text form `key[:asc|desc]`. -/

namespace VaultQuery

/-- The literal that stands for the link of the context document. -/
def linkLiteral : String := "@link-to-this"

/-- What a clause compares with. -/
inductive Operand where
  | value (v : Value)
  /-- The link of the context document. -/
  | linkToThis

namespace Operand

/-- The operand a literal stands for. -/
def ofLiteral : Value → Operand
  | .text s => if s = linkLiteral then .linkToThis else .value (.text s)
  | v => .value v

/-- Known only with a context document. -/
def isDynamic : Operand → Bool
  | .value _ => false
  | .linkToThis => true

/-- The literal an operand is written as. -/
def literal : Operand → Value
  | .value v => v
  | .linkToThis => .text linkLiteral

def display (o : Operand) : String := o.literal.display

/-- The value to compare with: a value as the attribute's kind sees it, or the link. -/
def resolve (o : Operand) (a : Attribute) (link : Option String) : Except Failure Value :=
  match o with
  | .value v => .ok (a.kind.coerce v)
  | .linkToThis => (thisLink link a.key).map .text

end Operand

/-- A test of one attribute. -/
structure Clause where
  key : Key
  op : Operator
  operand : Operand

namespace Clause

/-- The clause with a literal. -/
def literal (key : String) (op : Operator) (v : Value) : Clause :=
  ⟨.ofName key, op, .ofLiteral v⟩

/-- The clause of a key, the name of an operator and a literal. -/
def ofParts (key op : String) (v : Value) : Except Failure Clause :=
  (Operator.ofName op).map fun op => literal key op v

/-- Key, operator and operand with spaces between them. -/
def display (c : Clause) : String :=
  c.key.name ++ " " ++ c.op.name ++ " " ++ c.operand.display

/-- The characters before the first colon, and those after it if there is one. -/
def splitColon (cs : List Char) : List Char × Option (List Char) :=
  match cs.dropWhile (· != ':') with
  | [] => (cs, none)
  | _ :: rest => (cs.takeWhile (· != ':'), some rest)

/-- The clause of an expression `key:operator[:value]`. Blanks around key and operator are
    cut; the value is read as JSON if it is JSON and is a text if not. -/
def ofExpression (expression : String) : Except Failure Clause :=
  match splitColon expression.toList with
  | (_, none) => .error (.clauseWithoutOperator expression)
  | (key, some rest) =>
      let key := Text.trimChars key
      if key.isEmpty then .error (.clauseWithoutKey expression)
      else
        let (op, value) := splitColon rest
        let literal :=
          match value with
          | some cs => Value.ofLiteral (String.ofList cs)
          | none => .null
        ofParts (String.ofList key) (String.ofList (Text.trimChars op)) literal

end Clause

/-- An attribute to sort by. -/
structure SortField where
  key : Key
  descending : Bool

namespace SortField

/-- The characters before the last colon and those after it, if there is one. -/
def splitLastColon (cs : List Char) : Option (List Char × List Char) :=
  match cs.reverse.dropWhile (· != ':') with
  | [] => none
  | _ :: front => some (front.reverse, (cs.reverse.takeWhile (· != ':')).reverse)

/-- The sort field of an expression `key`, `key:asc` or `key:desc`. -/
def ofExpression (expression : String) : Except Failure SortField :=
  let (key, direction) :=
    match splitLastColon expression.toList with
    | some (key, direction) => (key, some (Text.trimChars direction))
    | none => (expression.toList, none)
  let key := Text.trimChars key
  if key.isEmpty then .error (.sortWithoutKey expression)
  else
    match direction with
    | none => .ok ⟨.ofName (String.ofList key), false⟩
    | some direction =>
        if direction = "asc".toList then .ok ⟨.ofName (String.ofList key), false⟩
        else if direction = "desc".toList then .ok ⟨.ofName (String.ofList key), true⟩
        else .error (.unknownDirection (String.ofList direction))

end SortField
end VaultQuery
