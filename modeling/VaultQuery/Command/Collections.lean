import VaultQuery.Command.Select

/-! # Collections

    A collection is a document whose type is the collection type; a document belongs to it
    when its collection attribute is a list with the collection's link.

    - `collectionsReport`: all collections;
    - `membersReport`: the documents that belong to one;
    - `availableReport`: the collections a document could be added to;
    - `addToCollection`: a document added; adding a member again changes nothing. -/

namespace VaultQuery

/-- The query for all collections. -/
def collectionQuery (v : Vault) (s : Settings) : Except Failure Query :=
  Query.compile v [.literal s.typeAttribute .eq (.text s.collectionType)] [] none s

/-- All collections. -/
def collections (v : Vault) (s : Settings) : Except Failure (List Document) :=
  match collectionQuery v s with
  | .error e => .error e
  | .ok q => q.matching v

/-- The document is a collection. -/
def isCollection (v : Vault) (s : Settings) (d : Document) : Except Failure Bool :=
  match collectionQuery v s with
  | .error e => .error e
  | .ok q => q.accepts d

/-- The query for documents with the link of a collection. -/
def membershipQuery (v : Vault) (s : Settings) (op : Operator) (collection : Document) :
    Except Failure Query :=
  Query.compile v [⟨.ofName s.collectionAttribute, op, .linkToThis⟩] [] (some collection) s

/-- The warning that a document used as a collection is none. -/
def notACollection (s : Settings) (d : Document) : Message :=
  ⟨.warning, d.name ++ " is not a " ++ s.collectionType ++ " (" ++ s.typeAttribute ++
    " is not '" ++ s.collectionType ++ "')"⟩

/-- A warning if a document used as a collection is none. -/
def collectionWarning (v : Vault) (s : Settings) (d : Document) :
    Except Failure (List Message) :=
  (isCollection v s d).map fun yes => if yes then [] else [notACollection s d]

/-- All collections as a report. -/
def collectionsReport (v : Vault) (s : Settings) : Except Failure Report :=
  (collections v s).map fun ds =>
    ⟨[], ds.map v.linked, [], [⟨.info, plural ds.length "collection"⟩]⟩

/-- The members of the collection at a path as a report. -/
def membersReport (v : Vault) (s : Settings) (path : String) : Except Failure Report := do
  let collection ← v.document path
  let warning ← collectionWarning v s collection
  let q ← membershipQuery v s .hasAll collection
  let ds ← q.matching v
  let count : Message := ⟨.info, plural ds.length "member" ++ " in " ++ q.collection.getD ""⟩
  return ⟨[], ds.map v.linked, [], warning ++ [count]⟩

/-- The document belongs to the collection. -/
def isMember (v : Vault) (s : Settings) (collection d : Document) : Except Failure Bool :=
  match membershipQuery v s .hasThis collection with
  | .error e => .error e
  | .ok q => q.accepts d

/-- Those of some collections that a document does not belong to, itself left out. -/
def notContaining (v : Vault) (s : Settings) (d : Document) :
    List Document → Except Failure (List Document)
  | [] => .ok []
  | c :: cs =>
      if c.path = d.path then notContaining v s d cs
      else
        match isMember v s c d with
        | .error e => .error e
        | .ok true => notContaining v s d cs
        | .ok false => (notContaining v s d cs).map (c :: ·)

/-- The collections that the document at a path could be added to, as a report. -/
def availableReport (v : Vault) (s : Settings) (path : String) : Except Failure Report := do
  let d ← v.document path
  let cs ← collections v s
  let free ← notContaining v s d cs
  return ⟨[], free.map v.linked, [],
    [⟨.info, plural free.length "collection" ++ " available for " ++ d.name⟩]⟩

/-- The message that a document is a member and stays one. -/
def alreadyIn (d collection : Document) : Message :=
  ⟨.info, d.name ++ " is already in " ++ collection.name⟩

/-- The message that a document is a new member. -/
def addedTo (d collection : Document) : Message :=
  ⟨.success, "Added " ++ d.name ++ " to " ++ collection.name⟩

/-- The document at `path` added to the collection at `collectionPath` at the time `now`. -/
def addToCollection (v : Vault) (s : Settings) (now : Instant) (path collectionPath : String) :
    Except Failure (Vault × Report) := do
  let d ← v.document path
  let collection ← v.document collectionPath
  let warning ← collectionWarning v s collection
  let q ← membershipQuery v s .hasThis collection
  let already ← q.accepts d
  let frontmatter ← q.enforceDocument d
  if already then
    return (v, ⟨[v.linked d], [], [], warning ++ [alreadyIn d collection]⟩)
  else
    let (v, changed) ← v.setFrontmatter path frontmatter now
    return (v, ⟨[v.linked changed], [], [], warning ++ [addedTo changed collection]⟩)

end VaultQuery
