import VaultQuery.Command.Select

/-! # New documents

    - `validName`: what a new document may be called;
    - `newDocument`: a document whose frontmatter satisfies some clauses;
    - `newInstance`: a document of a type. -/

namespace VaultQuery

/-- A name without blanks at its edges; it is not empty and has no slash or backslash. -/
def validName (name : String) : Except Failure String :=
  let cs := Text.trimChars name.toList
  if cs.isEmpty then .error .emptyName
  else if cs.any fun c => c == '/' || c == '\\' then
    .error (.nameWithSeparator (String.ofList cs))
  else .ok (String.ofList cs)

/-- The document at a path, if a path is given. -/
def Vault.contextDocument (v : Vault) : Option String → Except Failure (Option Document)
  | none => .ok none
  | some path => (v.document path).map some

/-- The message that a document is new. -/
def createdMessage (d : Document) : Message := ⟨.success, "Created " ++ d.name⟩

/-- A document of a name created at the time `now`, its frontmatter made to satisfy the
    clauses; `context` is the path of their context document. -/
def newDocument (v : Vault) (s : Settings) (now : Instant) (clauses : List Clause)
    (context : Option String) (name : String) : Except Failure (Vault × Report) := do
  let name ← validName name
  let path := pathForName name
  if v.documents.contains path then throw (.alreadyExists path)
  let context ← v.contextDocument context
  let q ← Query.compile v clauses [] context s
  let frontmatter ← q.enforce .empty
  let d : Document := ⟨path, now, now, some frontmatter⟩
  let v ← v.insert d
  return (v, ⟨[v.linked d], [], [], [createdMessage d]⟩)

/-- A document of a name and a type created at the time `now`. -/
def newInstance (v : Vault) (s : Settings) (now : Instant) (type name : String) :
    Except Failure (Vault × Report) :=
  let type := Text.trim type
  if type.isEmpty then .error .emptyType
  else newDocument v s now [.literal s.typeAttribute .eq (.text type)] none name

end VaultQuery
