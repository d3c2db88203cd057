import VaultQuery.Command.Collections
import VaultQuery.Command.Create
import VaultQuery.Command.Types

/-! # Commands

    Everything a client can ask of a vault in one type.

    - `Command`: the requests, with clauses and sort fields as expressions;
    - `Command.perform`: the vault after a request, and its report. -/

namespace VaultQuery

/-- The query of some clauses and sort fields; `context` is the path of the context
    document. -/
def Vault.query (v : Vault) (s : Settings) (clauses : List Clause) (sort : List SortField)
    (context : Option String) : Except Failure Query := do
  let context ← v.contextDocument context
  Query.compile v clauses sort context s

/-- The query of some expressions. Clauses are read first, then sort fields, then the context
    is looked up. -/
def Vault.queryExpressions (v : Vault) (s : Settings) (clauses sort : List String)
    (context : Option String) : Except Failure Query := do
  let clauses ← collect Clause.ofExpression clauses
  let sort ← collect SortField.ofExpression sort
  v.query s clauses sort context

/-- The documents that some expressions select, as a report. -/
def Vault.select (v : Vault) (s : Settings) (clauses sort : List String)
    (context : Option String) : Except Failure Report := do
  let q ← v.queryExpressions s clauses sort context
  q.report v

/-- What a client asks of a vault. -/
inductive Command where
  /-- The documents that pass all clauses, sorted. -/
  | select (clauses sort : List String) (context : Option String)
  /-- The types in use. -/
  | types
  /-- The documents that are collections. -/
  | collections
  /-- The documents that belong to the collection at a path. -/
  | members (path : String)
  /-- The collections the document at a path could be added to. -/
  | available (path : String)
  /-- A document to be added to a collection. -/
  | add (path collection : String)
  /-- A document of a type to be created. -/
  | newInstance (type name : String)
  /-- A document that satisfies clauses to be created. -/
  | newDocument (clauses : List String) (context : Option String) (name : String)

namespace Command

/-- The vault after a request at the time `now`, and its report. -/
def perform (s : Settings) (now : Instant) (v : Vault) :
    Command → Except Failure (Vault × Report)
  | .select clauses sort context => (v.select s clauses sort context).map fun r => (v, r)
  | .types => .ok (v, typesReport v s)
  | .collections => (collectionsReport v s).map fun r => (v, r)
  | .members path => (membersReport v s path).map fun r => (v, r)
  | .available path => (availableReport v s path).map fun r => (v, r)
  | .add path collection => addToCollection v s now path collection
  | .newInstance type name => VaultQuery.newInstance v s now type name
  | .newDocument clauses context name =>
      (collect Clause.ofExpression clauses).bind fun clauses =>
        VaultQuery.newDocument v s now clauses context name

end Command
end VaultQuery
