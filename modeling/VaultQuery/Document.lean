import VaultQuery.Dictionary
import VaultQuery.Text.Blank
import VaultQuery.Value.Basic

/-! # Documents

    - `Document`: a path, two times and possibly a frontmatter block;
    - `Document.name`: the last part of the path without its extension;
    - `Document.pathStem`: the path without a final `.md`;
    - `pathForName`: where a new document of a name is stored.

    A document without a block differs from one with an empty block. -/

namespace VaultQuery

/-- The named values of a document. -/
abbrev Frontmatter := Dictionary Value

/-- A file of the vault. -/
structure Document where
  path : String
  created : Instant
  modified : Instant
  frontmatter : Option Frontmatter

/-- The characters after the last slash. -/
def lastSegment (cs : List Char) : List Char := (cs.reverse.takeWhile (· != '/')).reverse

/-- The characters before the last point, unless that is the first character or missing. -/
def withoutExtension (cs : List Char) : List Char :=
  match (cs.reverse.dropWhile (· != '.')).reverse.dropLast with
  | [] => cs
  | stem => stem

/-- The extension of stored documents. -/
def documentExtension : List Char := ['.', 'm', 'd']

/-- The name of the document at a path: the last segment without its extension. -/
def nameOfPath (path : String) : String :=
  String.ofList (withoutExtension (lastSegment path.toList))

/-- A path without a final `.md`. -/
def stemOfPath (path : String) : String :=
  let cs := path.toList
  if documentExtension.isSuffixOf cs then String.ofList (cs.take (cs.length - 3)) else path

/-- The path in the root of the vault where a new document of a name is stored. -/
def pathForName (name : String) : String :=
  String.ofList (Text.trimChars name.toList ++ documentExtension)

namespace Document

/-- The name a document goes by. -/
def name (d : Document) : String := nameOfPath d.path

/-- The path without a final `.md`. -/
def pathStem (d : Document) : String := stemOfPath d.path

/-- The stored value of a field, if there is one. -/
def field? (d : Document) (name : String) : Option Value :=
  d.frontmatter.bind fun f => f.get? name

theorem field?_of_none {d : Document} (h : d.frontmatter = none) (name : String) :
    d.field? name = none := by
  rw [field?, h]
  rfl

theorem field?_of_some {d : Document} {f : Frontmatter} (h : d.frontmatter = some f)
    (name : String) : d.field? name = f.get? name := by
  rw [field?, h]
  rfl

/-- A document without frontmatter has the fields of an empty one. -/
theorem field?_eq (d : Document) (name : String) :
    d.field? name = (d.frontmatter.getD .empty).get? name := by
  cases h : d.frontmatter with
  | none => exact field?_of_none h name
  | some f => exact field?_of_some h name

end Document
end VaultQuery
