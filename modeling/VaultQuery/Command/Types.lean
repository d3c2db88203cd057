import VaultQuery.Command.Report
import VaultQuery.Settings.Basic

/-! # Types in use

    - `typeNames`: the distinct texts of the type attribute across a vault, in order. -/

namespace VaultQuery

/-- The distinct texts among some, in order. -/
def distinctTexts (texts : List String) : List String :=
  (Dictionary.ofList (texts.map fun s => (s, ()))).entries.map (·.1)

/-- The texts of the type attribute of one document: each item of a list is a type; blank
    texts are none. -/
def typesOfDocument (s : Settings) (d : Document) : List String :=
  ((d.field? s.typeAttribute).getD .null).toItems.filterMap (·.text?) |>.filter fun name =>
    !(Text.trimChars name.toList).isEmpty

/-- The types in use in a vault, in order. -/
def typeNames (v : Vault) (s : Settings) : List String :=
  distinctTexts (v.documentList.flatMap (typesOfDocument s))

/-- The types in use as a report. -/
def typesReport (v : Vault) (s : Settings) : Report :=
  let names := typeNames v s
  ⟨[], [], names, [⟨.info, plural names.length "type"⟩]⟩

end VaultQuery
