import VaultQuery.Settings.Basic
import VaultQuery.Toml.Reader

/-! # Loading settings

    Settings come from layers: the environment over the file of the project over the file of
    the user over what holds anyway. A layer that is malformed is a failure, also where
    nothing of it would be used.

    - `Layer`: the settings that one source gives;
    - `Layer.ofToml?`, `Layer.ofEnvironment`: the sources;
    - `Settings.load`: all layers together. -/

namespace VaultQuery

/-- The settings that one source gives. -/
structure Layer where
  typeAttribute : Option String
  collectionAttribute : Option String
  collectionType : Option String
  properties : Option (Dictionary Kind)

namespace Layer

/-- No settings. -/
def empty : Layer := ⟨none, none, none, none⟩

/-- The settings of `a`, and those of `b` that `a` does not give. Declared kinds are taken
    from one of them as a whole. -/
def orElse (a b : Layer) : Layer where
  typeAttribute := a.typeAttribute.or b.typeAttribute
  collectionAttribute := a.collectionAttribute.or b.collectionAttribute
  collectionType := a.collectionType.or b.collectionType
  properties := a.properties.or b.properties

/-- A setting that is a text, if it is given. -/
def textSetting? (name : String) (es : Toml.Entries) : Option (Option String) :=
  match Toml.find? name es with
  | none => some none
  | some (.text s) => some (some s)
  | some _ => none

/-- The kind in a file: its exact name, or a table with that one key and nothing in it. -/
def kindOfNode? : Toml.Node → Option Kind
  | .text name => Kind.ofExactName? name
  | .table _ [(name, .table _ [])] => Kind.ofExactName? name
  | .table _ [(name, .array [])] => Kind.ofExactName? name
  | _ => none

/-- The declared kinds in a table, if every one is a kind. -/
def kindsOfEntries? : Toml.Entries → Option (List (String × Kind))
  | [] => some []
  | (name, n) :: es =>
      match kindOfNode? n, kindsOfEntries? es with
      | some kind, some kinds => some ((name, kind) :: kinds)
      | _, _ => none

/-- The declared kinds, if any are given. -/
def propertiesSetting? (es : Toml.Entries) : Option (Option (Dictionary Kind)) :=
  match Toml.find? "properties" es with
  | none => some none
  | some (.table _ es) => (kindsOfEntries? es).map fun kinds => some (.ofList kinds)
  | some _ => none

/-- The settings in a file; what else it holds is passed over. -/
def ofToml? (s : String) : Option Layer := do
  let es ← Toml.read? s
  let typeAttribute ← textSetting? "type_attribute" es
  let collectionAttribute ← textSetting? "collection_attribute" es
  let collectionType ← textSetting? "collection_type" es
  let properties ← propertiesSetting? es
  some ⟨typeAttribute, collectionAttribute, collectionType, properties⟩

/-- The settings of a file that may be missing. -/
def ofFile? : Option String → Option Layer
  | none => some empty
  | some s => ofToml? s

/-- The settings in environment variables; kinds are not declared there. -/
def ofEnvironment (environment : List (String × String)) : Layer where
  typeAttribute := environment.lookup "SETS_TYPE_ATTRIBUTE"
  collectionAttribute := environment.lookup "SETS_COLLECTION_ATTRIBUTE"
  collectionType := environment.lookup "SETS_COLLECTION_TYPE"
  properties := none

/-- The settings with all gaps filled. -/
def complete (l : Layer) : Settings where
  typeAttribute := l.typeAttribute.getD Settings.default.typeAttribute
  collectionAttribute := l.collectionAttribute.getD Settings.default.collectionAttribute
  collectionType := l.collectionType.getD Settings.default.collectionType
  properties := l.properties

end Layer

/-- The settings of an environment and the contents of two files that may be missing. -/
def Settings.load (environment : List (String × String)) (project global : Option String) :
    Except Failure Settings :=
  match Layer.ofFile? project, Layer.ofFile? global with
  | some project, some global =>
      .ok ((Layer.ofEnvironment environment).orElse (project.orElse global)).complete
  | _, _ => .error .badConfiguration

end VaultQuery
