import VaultQuery.Attribute.Basic

/-! # Vaults

    A vault: its documents in the order of their paths, and the declared kinds of their
    fields.

    - `Vault`: the documents, each under its own path;
    - `Vault.resolve`: what a key stands for;
    - `Vault.link`: the text by which documents refer to a document: its name, or its path
      when another document has the same name;
    - `Vault.insert`, `Vault.setFrontmatter`: the changes. -/

namespace VaultQuery

/-- Documents under their paths, and declared kinds of fields. -/
structure Vault where
  documents : Dictionary Document
  properties : Dictionary Kind
  own_path : ∀ e ∈ documents.entries, e.2.path = e.1

/-- The names of fields may not be empty or begin with two underscores. -/
def isReserved (name : String) : Bool :=
  name.isEmpty || ['_', '_'].isPrefixOf name.toList

namespace Vault

/-- A document put under its path. -/
def putDocument (documents : Dictionary Document) (d : Document) : Dictionary Document :=
  documents.insert d.path d

theorem own_path_putDocument {documents : Dictionary Document}
    (h : ∀ e ∈ documents.entries, e.2.path = e.1) (d : Document) :
    ∀ e ∈ (putDocument documents d).entries, e.2.path = e.1 := by
  intro e he
  rcases Dictionary.mem_insertEntry he with he | he
  · rw [he]
  · exact h e he

/-- No documents, no declared kinds. -/
def empty : Vault := ⟨.empty, .empty, fun _ h => nomatch h⟩

/-- A document put under its path, over one that is there. -/
def put (v : Vault) (d : Document) : Vault :=
  ⟨putDocument v.documents d, v.properties, own_path_putDocument v.own_path d⟩

/-- The vault of some documents; of two with one path the later stays. -/
def ofDocuments (ds : List Document) : Vault := ds.foldl put empty

/-- The kind of a field declared. -/
def declare (v : Vault) (name : String) (kind : Kind) : Vault :=
  { v with properties := v.properties.insert name kind }

/-- Several kinds declared. -/
def declareAll (v : Vault) (kinds : List (String × Kind)) : Vault :=
  { v with properties := v.properties.insertAll kinds }

/-- The declared kind of a field, `any` if there is none. -/
def kindOf (v : Vault) (name : String) : Kind := (v.properties.get? name).getD .any

/-- The documents in the order of their paths. -/
def documentList (v : Vault) : List Document := v.documents.values

/-- The document at a path. -/
def document (v : Vault) (path : String) : Except Failure Document :=
  match v.documents.get? path with
  | some d => .ok d
  | none => .error (.documentNotFound path)

/-- What a key stands for. -/
def resolve (v : Vault) : Key → Except Failure Attribute
  | .intrinsic i => .ok (.intrinsic i)
  | .field name =>
      if isReserved name then .error (.unresolvedAttribute name)
      else .ok (.field name (v.kindOf name))

/-- No document at another path has the same name. -/
def isOnlyName (v : Vault) (d : Document) : Bool :=
  v.documentList.all fun other => other.path == d.path || other.name != d.name

/-- The text by which documents refer to a document. -/
def link (v : Vault) (d : Document) : String :=
  "[[" ++ (if v.isOnlyName d then d.name else d.pathStem) ++ "]]"

/-- A document added at a free path. -/
def insert (v : Vault) (d : Document) : Except Failure Vault :=
  if v.documents.contains d.path then .error (.alreadyExists d.path) else .ok (v.put d)

/-- The frontmatter of a document replaced at the time `now`. -/
def setFrontmatter (v : Vault) (path : String) (f : Frontmatter) (now : Instant) :
    Except Failure (Vault × Document) :=
  (v.document path).map fun d =>
    let changed := { d with frontmatter := some f, modified := now }
    (v.put changed, changed)

end Vault
end VaultQuery
