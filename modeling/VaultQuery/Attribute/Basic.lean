import VaultQuery.Attribute.Kind
import VaultQuery.Document

/-! # Attributes

    How a key becomes a value of a document.

    - `Attribute`: an intrinsic attribute, or a field with its declared kind;
    - `Attribute.value`: its value on a document, as the kind sees it. -/

namespace VaultQuery

/-- What a key stands for in a vault. -/
inductive Attribute where
  | intrinsic (i : Intrinsic)
  | field (name : String) (kind : Kind)
deriving DecidableEq

namespace Attribute

def key : Attribute → Key
  | .intrinsic i => .intrinsic i
  | .field name _ => .field name

def kind : Attribute → Kind
  | .intrinsic i => i.kind
  | .field _ kind => kind

/-- The label for people; a field is labelled by its name. -/
def label : Attribute → String
  | .intrinsic i => i.label
  | .field name _ => name

/-- The value on a document; a field that is not stored is nothing. -/
def value (a : Attribute) (d : Document) : Value :=
  match a with
  | .intrinsic .fileName => .text d.name
  | .intrinsic .created => .date d.created
  | .intrinsic .modified => .date d.modified
  | .intrinsic .path => .text d.path
  | .field name kind => kind.coerce ((d.field? name).getD .null)

end Attribute
end VaultQuery
