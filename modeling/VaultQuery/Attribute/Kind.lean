import VaultQuery.Attribute.Key
import VaultQuery.Failure
import VaultQuery.Text.Lowercase
import VaultQuery.Value.Basic

/-! # Kinds of attributes

    The declared type of an attribute decides how stored values, and the values they are
    compared with, are read.

    - `Kind`: the kinds;
    - `Kind.coerce`: a value as a kind sees it; what does not fit stays as it is;
    - `Kind.ofName`: the names and other spellings of the kinds. -/

namespace VaultQuery

/-- The declared type of an attribute. -/
inductive Kind where
  /-- Undeclared: values are taken as stored. -/
  | any
  | text
  | number
  | date
  | bool
  | list
deriving DecidableEq

namespace Kind

/-- All kinds. -/
def all : List Kind := [.any, .text, .number, .date, .bool, .list]

/-- The name of a kind. -/
def name : Kind → String
  | .any => "any"
  | .text => "text"
  | .number => "number"
  | .date => "date"
  | .bool => "bool"
  | .list => "list"

/-- A value as the kind sees it. Nothing stays nothing; a text that spells a number, date or
    truth value becomes one where that is the kind; scalars become their text or a list of
    one item; any other value stays as it is. -/
def coerce : Kind → Value → Value
  | _, .null => .null
  | .text, .bool b => .text (Value.boolText b)
  | .text, .number d => .text (Layout.plain.write d)
  | .text, .date t => .text t.withOffset
  | .number, .text s =>
      match readDouble? s with
      | some d => .number d
      | none => .text s
  | .date, .text s =>
      match Instant.read? s with
      | some t => .date t
      | none => .text s
  | .bool, .text s =>
      match readBool? s with
      | some b => .bool b
      | none => .text s
  | .list, .list items => .list items
  | .list, v => .list [v]
  | _, v => v

/-- The kind of a name, in any case of its letters `A` to `Z`; the names that note-taking
    programs give their property types are understood too. -/
def ofName (name : String) : Except Failure Kind :=
  let name := Text.asciiLowercase name
  if name ∈ ["any", "*"] then .ok .any
  else if name ∈ ["text", "string"] then .ok .text
  else if name = "number" then .ok .number
  else if name ∈ ["date", "datetime"] then .ok .date
  else if name ∈ ["bool", "checkbox"] then .ok .bool
  else if name ∈ ["list", "multitext", "tags", "aliases"] then .ok .list
  else .error (.unknownKind name)

/-- The kind of exactly that name, as files spell it. -/
def ofExactName? (name : String) : Option Kind := all.find? (·.name == name)

end Kind

/-- The kind of an attribute computed from the document. -/
def Intrinsic.kind : Intrinsic → Kind
  | .fileName => .text
  | .created => .date
  | .modified => .date
  | .path => .text

end VaultQuery
