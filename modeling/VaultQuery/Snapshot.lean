import VaultQuery.Command.Report
import VaultQuery.Json.Record

/-! # Snapshots

    A vault as a text: a JSON array of its documents in the order of their paths.

    - `Vault.toSnapshot`: the text of a vault;
    - `Vault.ofSnapshot`: the vault of a text, with no declared kinds;
    - `Document.ofWritten?`: one document; times that are missing are taken from the clock. -/

namespace VaultQuery

/-- The value written in a frontmatter block. -/
def Value.ofWritten? (limit : Nat) (w : Json.Written) : Option Value :=
  (Json.ofWritten? limit w).bind Value.ofJson?

/-- The fields written in a frontmatter block, if every one has a value. -/
def fieldsOfWritten? (limit : Nat) :
    List (List Char × Json.Written) → Option (List (String × Value))
  | [] => some []
  | (raw, w) :: rest =>
      match Json.textOf? raw, Value.ofWritten? limit w, fieldsOfWritten? limit rest with
      | some name, some v, some fields => some ((name, v) :: fields)
      | _, _, _ => none

/-- A frontmatter block; `null` is no block. Of two fields with one name the later stays. -/
def frontmatterOfWritten? (limit : Nat) : Json.Written → Option (Option Frontmatter)
  | .null => some none
  | .object members =>
      if limit = 0 then none
      else (fieldsOfWritten? (limit - 1) members).map fun fields => some (.ofList fields)
  | _ => none

/-- A time of a document. -/
def timeOfWritten? (w : Json.Written) : Option Instant :=
  (Json.text? w).bind fun s => Instant.readLenient? s.toList

namespace Document

/-- The names of the fields, in order. -/
def fieldNames : List String := ["path", "ctime", "mtime", "frontmatter"]

/-- The document written in JSON; only its path must be there. -/
def ofWritten? (now : Instant) (limit : Nat) (w : Json.Written) : Option Document :=
  if limit = 0 then none
  else do
    let fields ← Json.recordFields? fieldNames w
    let path ← Json.required? Json.text? "path" fields
    let created ← Json.optional? timeOfWritten? now "ctime" fields
    let modified ← Json.optional? timeOfWritten? now "mtime" fields
    let frontmatter ←
      Json.optional? (frontmatterOfWritten? (limit - 1)) none "frontmatter" fields
    some ⟨path, created, modified, frontmatter⟩

/-- All documents of a list. -/
def listOfWritten? (now : Instant) (limit : Nat) : List Json.Written → Option (List Document)
  | [] => some []
  | w :: ws =>
      match ofWritten? now limit w, listOfWritten? now limit ws with
      | some d, some ds => some (d :: ds)
      | _, _ => none

end Document

/-- The documents of a snapshot. -/
def snapshotDocuments? (now : Instant) : Json.Written → Option (List Document)
  | .array items => Document.listOfWritten? now (Json.nestingLimit - 1) items
  | _ => none

namespace Vault

/-- The vault of a snapshot read at the time `now`. -/
def ofSnapshot (now : Instant) (s : String) : Except Failure Vault :=
  match (Json.Written.read? s.toList).bind (snapshotDocuments? now) with
  | some ds => .ok (ofDocuments ds)
  | none => .error .badSnapshot

/-- The snapshot of a vault. -/
def toSnapshot (v : Vault) : String := (Json.array (v.documentList.map Document.toJson)).pretty

end Vault
end VaultQuery
