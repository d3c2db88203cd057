/-! # Attribute keys

    - `Intrinsic`: the attributes every document has without storing them;
    - `Key`: one of those, or the name of a frontmatter field;
    - `Key.ofName`: the reserved names are intrinsic, every other name is a field. -/

namespace VaultQuery

/-- Attributes computed from the document itself. -/
inductive Intrinsic where
  | fileName
  | created
  | modified
  | path
deriving DecidableEq

namespace Intrinsic

/-- All of them. -/
def all : List Intrinsic := [.fileName, .created, .modified, .path]

/-- The reserved name. -/
def name : Intrinsic → String
  | .fileName => "__bname"
  | .created => "__ctime"
  | .modified => "__mtime"
  | .path => "__path"

/-- The label for people. -/
def label : Intrinsic → String
  | .fileName => "Name"
  | .created => "Created"
  | .modified => "Modified"
  | .path => "Path"

/-- The attribute of a reserved name; nearly the name is not the name. -/
def ofName? (name : String) : Option Intrinsic := all.find? (·.name == name)

theorem ofName?_name (i : Intrinsic) : ofName? i.name = some i := by
  cases i <;> decide

end Intrinsic

/-- What names an attribute. -/
inductive Key where
  | intrinsic (i : Intrinsic)
  | field (name : String)
deriving DecidableEq

namespace Key

/-- The key of a name. -/
def ofName (name : String) : Key :=
  match Intrinsic.ofName? name with
  | some i => .intrinsic i
  | none => .field name

/-- The name of a key. -/
def name : Key → String
  | .intrinsic i => i.name
  | .field name => name

def isIntrinsic : Key → Bool
  | .intrinsic _ => true
  | .field _ => false

/-- The key of a name has that name. -/
@[simp] theorem name_ofName (name : String) : (ofName name).name = name := by
  rw [ofName]
  split
  · rename_i i h
    have hi := List.find?_some h
    exact eq_of_beq hi
  · rfl

end Key
end VaultQuery
