import VaultQuery.Value.Basic

/-! # Comparing values

    Values of different types are compared by what they spell.

    - `Value.looseEqual`: equality; a text is read as a number, truth value or date when the
      other side is one;
    - `Value.compare?`: order, where the two values have one;
    - `Value.sortCompare`: the order of result lists: by type first, nothing last. -/

namespace VaultQuery.Value

/-- A truth value as a number. -/
def boolNumber (b : Bool) : Double :=
  if b then Double.ofBits 0x3FF0000000000000 else Double.zero false

/-- The text spells this number. -/
def spellsNumber (s : String) (d : Double) : Bool :=
  match readDouble? s with
  | some e => e.equal d
  | none => false

mutual

/-- Equality across types: a text is read as what it is compared with, truth values count as
    zero and one, lists are equal item by item, and nothing else is equal. -/
def looseEqual : Value → Value → Bool
  | .null, .null => true
  | .bool a, .bool b => a == b
  | .number a, .number b => a.equal b
  | .text a, .text b => a == b
  | .date a, .date b => a == b
  | .number d, .text s => spellsNumber s d
  | .text s, .number d => spellsNumber s d
  | .bool b, .text s => readBool? s == some b
  | .text s, .bool b => readBool? s == some b
  | .bool b, .number d => (boolNumber b).equal d
  | .number d, .bool b => (boolNumber b).equal d
  | .date t, .text s => Instant.read? s == some t
  | .text s, .date t => Instant.read? s == some t
  | .list as, .list bs => looseEqualItems as bs
  | _, _ => false

/-- Lists of one length, equal item by item. -/
def looseEqualItems : List Value → List Value → Bool
  | [], [] => true
  | a :: as, b :: bs => looseEqual a b && looseEqualItems as bs
  | _, _ => false

end

/-- `false` comes before `true`. -/
def compareBool (a b : Bool) : Ordering := compare a.toNat b.toNat

/-- The order of two values, if they have one: values of one scalar type, and a text that
    spells a number or date beside one. -/
def compare? : Value → Value → Option Ordering
  | .number a, .number b => a.compare? b
  | .text a, .text b => some (compare a b)
  | .date a, .date b => some (a.compare b)
  | .bool a, .bool b => some (compareBool a b)
  | .number a, .text s => (readDouble? s).bind fun b => a.compare? b
  | .text s, .number b => (readDouble? s).bind fun a => a.compare? b
  | .date a, .text s => (Instant.read? s).map fun b => a.compare b
  | .text s, .date b => (Instant.read? s).map fun a => a.compare b
  | _, _ => none

/-- The place of a type in result lists. -/
def rank : Value → Nat
  | .bool _ => 0
  | .number _ => 1
  | .date _ => 2
  | .text _ => 3
  | .list _ => 4
  | .null => 5

/-- The order of result lists. Values of one scalar type keep their own order, numbers the
    total order on all doubles; otherwise the type decides. -/
def sortCompare : Value → Value → Ordering
  | .number a, .number b => a.totalCompare b
  | .text a, .text b => compare a b
  | .date a, .date b => a.compare b
  | .bool a, .bool b => compareBool a b
  | a, b => compare a.rank b.rank

/-- The order of result lists in either direction; nothing comes last in both. -/
def directedCompare (descending : Bool) (a b : Value) : Ordering :=
  if descending && !a.isNull && !b.isNull then sortCompare b a else sortCompare a b

end VaultQuery.Value
