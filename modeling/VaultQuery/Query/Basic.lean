import VaultQuery.Query.Clause
import VaultQuery.Settings.Basic
import VaultQuery.Vault

/-! # Queries

    A query is a conjunction of clauses with fields to sort by, made ready for one vault.

    - `Query.compile`: clauses in the order of their weights, keys resolved, values coerced
      once, the context's link found once;
    - `Query.accepts`: the test of a document;
    - `Query.enforce`: frontmatter changed so that it passes;
    - `Query.sort`: documents in the order asked for;
    - `Query.setType`, `Query.collection`: what the clauses say about the result. -/

namespace VaultQuery

/-- A clause with its key resolved. -/
structure Test where
  clause : Clause
  subject : Attribute
  /-- The value to compare with, unless it is the context's link. -/
  fixed : Option Value

/-- Conjunction and order, ready for one vault. -/
structure Query where
  /-- In the order in which they are tried. -/
  tests : List Test
  context : Option Document
  /-- The link of the context document. -/
  contextLink : Option String
  /-- The last field asked for comes first. -/
  sortFields : List (SortField × Attribute)
  settings : Settings

namespace Test

/-- A clause made ready for a vault. -/
def ofClause (v : Vault) (c : Clause) : Except Failure Test :=
  (v.resolve c.key).map fun a =>
    let fixed :=
      match c.operand with
      | .value w => some (a.kind.coerce w)
      | .linkToThis => none
    ⟨c, a, fixed⟩

/-- The value to compare with. -/
def value (t : Test) (link : Option String) : Except Failure Value :=
  match t.fixed with
  | some w => .ok w
  | none => t.clause.operand.resolve t.subject link

/-- The test of a document. -/
def holds (t : Test) (d : Document) (link : Option String) : Except Failure Bool :=
  match t.value link with
  | .error e => .error e
  | .ok w => t.clause.op.holds t.subject d w link

end Test

/-- The first failure, or the results of all. -/
def collect {α β : Type} (f : α → Except Failure β) : List α → Except Failure (List β)
  | [] => .ok []
  | a :: as =>
      match f a with
      | .error e => .error e
      | .ok b => (collect f as).map (b :: ·)

/-- Collecting succeeds exactly when every item does, with the results in order. -/
theorem collect_eq_ok_iff {α β : Type} {f : α → Except Failure β} {as : List α} {bs : List β} :
    collect f as = .ok bs ↔ as.map f = bs.map .ok := by
  induction as generalizing bs with
  | nil => cases bs <;> simp [collect]
  | cons a as ih =>
      rw [collect, List.map_cons]
      cases ha : f a with
      | error e => cases bs <;> simp
      | ok b =>
          cases has : collect f as with
          | error e =>
              cases bs with
              | nil => simp [Except.map]
              | cons c cs =>
                  have h : as.map f ≠ cs.map .ok := fun h => by simp [ih.mpr h] at has
                  simp [Except.map, h]
          | ok ds =>
              rw [ih] at has
              cases bs with
              | nil => simp [Except.map]
              | cons c cs =>
                  simp [Except.map, has, List.map_inj_right (fun _ _ h => Except.ok.inj h)]

namespace Query

/-- Clauses of less weight first, others as they are. -/
def inOrderOfWeight (clauses : List Clause) : List Clause :=
  clauses.mergeSort fun a b => a.op.weight ≤ b.op.weight

/-- A sort field with its key resolved. -/
def resolveSortField (v : Vault) (f : SortField) : Except Failure (SortField × Attribute) :=
  (v.resolve f.key).map fun a => (f, a)

/-- A query made ready for a vault; a key that names no attribute is the only failure. -/
def compile (v : Vault) (clauses : List Clause) (sort : List SortField)
    (context : Option Document) (settings : Settings) : Except Failure Query :=
  match collect (Test.ofClause v) (inOrderOfWeight clauses) with
  | .error e => .error e
  | .ok tests =>
      (collect (resolveSortField v) sort.reverse).map fun sortFields =>
        ⟨tests, context, context.map v.link, sortFields, settings⟩

/-- The clauses in the order in which they are tried. -/
def clauses (q : Query) : List Clause := q.tests.map (·.clause)

/-- A clause reads frontmatter. -/
def readsFrontmatter (q : Query) : Bool := q.clauses.any (!·.key.isIntrinsic)

/-- Every clause can be enforced. -/
def canCreate (q : Query) : Bool := q.clauses.all (·.op.canEnforce)

/-- All tests hold; those after the first that does not are left out. -/
def allHold (d : Document) (link : Option String) : List Test → Except Failure Bool
  | [] => .ok true
  | t :: ts =>
      match t.holds d link with
      | .error e => .error e
      | .ok true => allHold d link ts
      | .ok false => .ok false

/-- The test of a document. A document without frontmatter is refused by a query that reads
    any, whatever its clauses. -/
def accepts (q : Query) (d : Document) : Except Failure Bool :=
  if q.readsFrontmatter && d.frontmatter.isNone then .ok false
  else allHold d q.contextLink q.tests

/-- The test of a document that may be missing; a missing one is refused. -/
def acceptsAny (q : Query) : Option Document → Except Failure Bool
  | none => .ok false
  | some d => q.accepts d

/-- One test enforced on frontmatter; tests of intrinsic attributes change nothing. -/
def enforceTest (link : Option String) (f : Frontmatter) (t : Test) :
    Except Failure Frontmatter :=
  match t.clause.key with
  | .intrinsic _ => .ok f
  | .field name =>
      match t.value link with
      | .error e => .error e
      | .ok w =>
          let current := t.subject.kind.coerce ((f.get? name).getD .null)
          (t.clause.op.enforce t.subject.key current w link).map fun v => f.insert name v

/-- Tests enforced one after the other. -/
def enforceAll (link : Option String) : Frontmatter → List Test → Except Failure Frontmatter
  | f, [] => .ok f
  | f, t :: ts =>
      match enforceTest link f t with
      | .error e => .error e
      | .ok f => enforceAll link f ts

/-- Frontmatter changed so that a document with it passes. An operator that cannot be
    enforced is a failure before anything else. -/
def enforce (q : Query) (f : Frontmatter) : Except Failure Frontmatter :=
  match q.clauses.find? (!·.op.canEnforce) with
  | some c => .error (.notCreatable c.op.name)
  | none => enforceAll q.contextLink f q.tests

/-- The frontmatter of a document changed so that it passes. -/
def enforceDocument (q : Query) (d : Document) : Except Failure Frontmatter :=
  q.enforce (d.frontmatter.getD .empty)

/-- Documents sorted by one field, others as they are. -/
def sortByField (field : SortField × Attribute) (ds : List Document) : List Document :=
  ds.mergeSort fun a b =>
    (Value.directedCompare field.1.descending (field.2.value a) (field.2.value b)).isLE

/-- Documents sorted by one field after the other; the last of them counts most. -/
def sortByFields (fields : List (SortField × Attribute)) (ds : List Document) :
    List Document :=
  fields.foldl (fun ds field => sortByField field ds) ds

/-- Documents in the order asked for; ties stay as they are. -/
def sort (q : Query) (ds : List Document) : List Document := sortByFields q.sortFields ds

/-- The clauses on a key with an operator. -/
def clausesOn (q : Query) (key : Key) (op : Operator) : List Clause :=
  q.clauses.filter fun c => c.key = key ∧ c.op = op

/-- The type that the first equality on the type attribute asks for. -/
def setType (q : Query) : Option String :=
  (q.clausesOn (.ofName q.settings.typeAttribute) .eq).head?.bind (·.operand.literal.text?)

/-- The clause asks for documents that link to the context. -/
def linksBack (key : Key) (c : Clause) : Bool :=
  c.key = key &&
    match c.op with
    | .hasAll => c.operand.isDynamic
    | .hasThis => true
    | _ => false

/-- The link of the collection whose members the query asks for. -/
def collection (q : Query) : Option String :=
  if q.clauses.any (linksBack (.ofName q.settings.collectionAttribute)) then q.contextLink
  else none

/-- The clauses joined by `AND`; a query without any is a star. -/
def display (q : Query) : String :=
  if q.clauses.isEmpty then "*" else " AND ".intercalate (q.clauses.map Clause.display)

end Query
end VaultQuery
