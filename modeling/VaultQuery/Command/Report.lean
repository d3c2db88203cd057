import VaultQuery.Vault
import VaultQuery.Value.Json

/-! # Reports

    What a command answers: documents changed, documents and values found, messages.

    - `Report`: the answer;
    - `Report.toJson`: the answer for other programs;
    - `Document.toJson`: a document as files hold it. -/

namespace VaultQuery

/-- How a message is meant. -/
inductive Level where
  | info
  | success
  | warning
deriving DecidableEq

/-- The name of a level. -/
def Level.name : Level → String
  | .info => "info"
  | .success => "success"
  | .warning => "warning"

/-- A sentence for the reader of a report. -/
structure Message where
  level : Level
  content : String

/-- A document with the text by which others refer to it. -/
structure Linked where
  link : String
  document : Document

/-- What a command answers. -/
structure Report where
  /-- Documents created or changed. -/
  affected : List Linked
  /-- Documents found. -/
  listed : List Linked
  /-- Other values found. -/
  values : List String
  messages : List Message

/-- A count with its noun. -/
def plural (count : Nat) (noun : String) : String :=
  String.ofList (Nat.toDigits 10 count) ++ " " ++ noun ++ (if count = 1 then "" else "s")

/-- A document with its link in a vault. -/
def Vault.linked (v : Vault) (d : Document) : Linked := ⟨v.link d, d⟩

/-- A frontmatter block in JSON. -/
def Frontmatter.toJson (f : Frontmatter) : Json :=
  .object (f.entries.map fun e => (e.1, e.2.toJson))

/-- The members of a document in JSON. -/
def Document.toMembers (d : Document) : List (String × Json) :=
  [("path", .text d.path), ("ctime", .text d.created.withZulu),
    ("mtime", .text d.modified.withZulu),
    ("frontmatter", match d.frontmatter with
      | some f => Frontmatter.toJson f
      | none => .null)]

/-- A document in JSON. -/
def Document.toJson (d : Document) : Json := .object d.toMembers

/-- A document with its link in JSON. -/
def Linked.toJson (l : Linked) : Json := .object (("link", .text l.link) :: l.document.toMembers)

/-- A message in JSON. -/
def Message.toJson (m : Message) : Json :=
  .object [("level", .text m.level.name), ("content", .text m.content)]

namespace Report

/-- The answer in JSON. -/
def toJson (r : Report) : Json :=
  .object [("affected_docs", .array (r.affected.map Linked.toJson)),
    ("listed_docs", .array (r.listed.map Linked.toJson)),
    ("values", .array (r.values.map .text)),
    ("messages", .array (r.messages.map Message.toJson))]

/-- The names of the documents found. -/
def listedNames (r : Report) : List String := r.listed.map (·.document.name)

/-- A message says that something was done. -/
def isSuccess (r : Report) : Bool := r.messages.any (·.level == .success)

end Report
end VaultQuery
