import VaultQuery.Attribute.Kind
import VaultQuery.Dictionary

/-! # Settings

    Which fields carry types and collections, and what a collection's type is called. -/

namespace VaultQuery

/-- The conventions of a vault. -/
structure Settings where
  /-- The field that names a document's type. -/
  typeAttribute : String
  /-- The field with the links of the collections a document is in. -/
  collectionAttribute : String
  /-- The type of the documents that are collections. -/
  collectionType : String
  /-- Declared kinds of fields, if any are declared at all. -/
  properties : Option (Dictionary Kind)

namespace Settings

/-- What holds where nothing is configured. -/
def default : Settings := ⟨"type", "collection", "collection", none⟩

/-- The declared kinds. -/
def kinds (s : Settings) : List (String × Kind) :=
  match s.properties with
  | some kinds => kinds.entries
  | none => []

end Settings
end VaultQuery
