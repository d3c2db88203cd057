import VaultQuery.Json.Basic

/-! # Records in JSON

    Structures with named fields are read from an object, or from an array that lists the
    fields in order. Fields of other names are passed over without a look at their values.

    - `recordFields?`: the written values of the fields that are there;
    - `caseName?`: the name of a case, alone or as the only member of an object. -/

namespace VaultQuery.Json

/-- The members whose keys are among `names`; nothing if a key means no text or one of
    `names` comes twice. -/
def knownMembers? (names : List String) :
    List (List Char × Written) → Option (List (String × Written))
  | [] => some []
  | (raw, w) :: rest =>
      match textOf? raw, knownMembers? names rest with
      | some key, some known =>
          if names.contains key then
            if known.any (·.1 == key) then none else some ((key, w) :: known)
          else some known
      | _, _ => none

/-- The written values of the fields that are there. -/
def recordFields? (names : List String) : Written → Option (List (String × Written))
  | .object members => knownMembers? names members
  | .array items => if items.length ≤ names.length then some (names.zip items) else none
  | _ => none

/-- The written value of a field. -/
def field? (name : String) (fields : List (String × Written)) : Option Written :=
  fields.lookup name

/-- The text a written value means, if it is a text. -/
def text? : Written → Option String
  | .text raw => textOf? raw
  | _ => none

/-- The name of a case: a text, or an object with that one member and nothing in it. -/
def caseName? : Written → Option String
  | .text raw => textOf? raw
  | .object [(raw, .null)] => textOf? raw
  | _ => none

/-- A field that must be there. -/
def required? {α : Type} (read? : Written → Option α) (name : String)
    (fields : List (String × Written)) : Option α :=
  (field? name fields).bind read?

/-- A field that may be missing. -/
def optional? {α : Type} (read? : Written → Option α) (missing : α) (name : String)
    (fields : List (String × Written)) : Option α :=
  match field? name fields with
  | some w => read? w
  | none => some missing

end VaultQuery.Json
