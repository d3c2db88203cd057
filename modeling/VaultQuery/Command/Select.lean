import VaultQuery.Command.Report
import VaultQuery.Query.Basic

/-! # Selecting documents

    - `Query.matching`: the documents of a vault that pass a query, in its order;
    - `Query.report`: the same as a report. -/

namespace VaultQuery.Query

/-- The documents that pass; the first failure of a test is the answer. -/
def accepted (q : Query) : List Document → Except Failure (List Document)
  | [] => .ok []
  | d :: ds =>
      match q.accepts d with
      | .error e => .error e
      | .ok true => (q.accepted ds).map (d :: ·)
      | .ok false => q.accepted ds

/-- The documents of a vault that pass, in the order asked for. -/
def matching (q : Query) (v : Vault) : Except Failure (List Document) :=
  (q.accepted v.documentList).map q.sort

/-- How many documents were found, and of which type if the query says so. -/
def countMessage (q : Query) (count : Nat) : Message :=
  match q.setType with
  | some type => ⟨.info, plural count "document" ++ " of type '" ++ type ++ "'"⟩
  | none => ⟨.info, plural count "document"⟩

/-- The documents of a vault that pass, as a report. -/
def report (q : Query) (v : Vault) : Except Failure Report :=
  (q.matching v).map fun ds => ⟨[], ds.map v.linked, [], [q.countMessage ds.length]⟩

end VaultQuery.Query
