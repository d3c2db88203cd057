import VaultQuery.Json.Printer
import VaultQuery.Json.Record
import VaultQuery.Query.Operator
import VaultQuery.Settings.Basic

/-! # Names and settings in JSON

    - `Kind.ofWritten?`, `Operator.ofWritten?`, `Key.ofWritten?`: names read from JSON;
    - `Settings.ofWritten?`, `Settings.toJson`: settings read and written. -/

namespace VaultQuery

/-- The kind written in JSON, by its exact name. -/
def Kind.ofWritten? (w : Json.Written) : Option Kind :=
  (Json.caseName? w).bind Kind.ofExactName?

/-- The operator written in JSON. -/
def Operator.ofWritten? (w : Json.Written) : Option Operator :=
  (Json.caseName? w).bind Operator.ofName?

/-- The key written in JSON. -/
def Key.ofWritten? (w : Json.Written) : Option Key := (Json.text? w).map Key.ofName

namespace Settings

/-- The declared kinds of fields, if every one is a kind. -/
def kindsOfMembers? : List (List Char × Json.Written) → Option (List (String × Kind))
  | [] => some []
  | (raw, w) :: rest =>
      match Json.textOf? raw, Kind.ofWritten? w, kindsOfMembers? rest with
      | some name, some kind, some kinds => some ((name, kind) :: kinds)
      | _, _, _ => none

/-- The declared kinds; `null` declares none at all. -/
def propertiesOfWritten? : Json.Written → Option (Option (Dictionary Kind))
  | .null => some none
  | .object members => (kindsOfMembers? members).map fun kinds => some (.ofList kinds)
  | _ => none

/-- The names of the settings, in order. -/
def fieldNames : List String :=
  ["type_attribute", "collection_attribute", "collection_type", "properties"]

/-- An array lists all the settings; in an object the declared kinds may be missing. -/
def isComplete : Json.Written → Bool
  | .array items => items.length == fieldNames.length
  | _ => true

/-- The settings written in JSON. -/
def ofWritten? (w : Json.Written) : Option Settings :=
  if isComplete w then do
    let fields ← Json.recordFields? fieldNames w
    let typeAttribute ← Json.required? Json.text? "type_attribute" fields
    let collectionAttribute ← Json.required? Json.text? "collection_attribute" fields
    let collectionType ← Json.required? Json.text? "collection_type" fields
    let properties ← Json.optional? propertiesOfWritten? none "properties" fields
    some ⟨typeAttribute, collectionAttribute, collectionType, properties⟩
  else none

/-- Declared kinds in JSON. -/
def propertiesToJson : Option (Dictionary Kind) → Json
  | none => .null
  | some kinds => .object (kinds.entries.map fun e => (e.1, .text e.2.name))

/-- The settings in JSON. -/
def toJson (s : Settings) : Json :=
  .object [("type_attribute", .text s.typeAttribute),
    ("collection_attribute", .text s.collectionAttribute),
    ("collection_type", .text s.collectionType),
    ("properties", propertiesToJson s.properties)]

end Settings
end VaultQuery
