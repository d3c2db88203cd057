/-! # Failures

    Why an operation on a vault fails, as causes, and the sentence each is reported with.

    - `Failure`: the causes;
    - `Failure.message`: the sentences. -/

namespace VaultQuery

/-- Why an operation fails. -/
inductive Failure where
  /-- No operator has this name. -/
  | unknownOperator (name : String)
  /-- The key is empty or reserved. -/
  | unresolvedAttribute (key : String)
  /-- The clause on this key needs the link of a context document and there is none. -/
  | missingContext (key : String)
  /-- The operator of this name cannot be enforced. -/
  | notCreatable (operator : String)
  | documentNotFound (path : String)
  | alreadyExists (path : String)
  /-- A new document needs a name. -/
  | emptyName
  /-- The name of a new document contains a slash or backslash. -/
  | nameWithSeparator (name : String)
  /-- A new document of a type needs the type. -/
  | emptyType
  /-- The expression has no colon. -/
  | clauseWithoutOperator (expression : String)
  /-- Nothing stands before the first colon. -/
  | clauseWithoutKey (expression : String)
  /-- The sort expression names no attribute. -/
  | sortWithoutKey (expression : String)
  /-- The direction of a sort expression is neither ascending nor descending. -/
  | unknownDirection (direction : String)
  /-- No kind of attribute has this name. -/
  | unknownKind (name : String)
  /-- A configuration source is malformed. -/
  | badConfiguration
  /-- A text is not a snapshot of a vault, or not what is to be read from it. -/
  | badSnapshot
  /-- A file cannot be read. -/
  | unreadableFile
deriving DecidableEq

namespace Failure

/-- The sentence a failure is reported with; of a malformed or unreadable source only the
    beginning is fixed. -/
def message : Failure → String
  | .unknownOperator name => "No such operator: " ++ name
  | .unresolvedAttribute key => "Cannot resolve attribute: " ++ key
  | .missingContext key =>
      "Clause on '" ++ key ++ "' needs a context document but the query has none"
  | .notCreatable op => "Query cannot create documents: operator '" ++ op ++ "' has no enforce"
  | .documentNotFound path => "Document not found: " ++ path
  | .alreadyExists path => "Document already exists: " ++ path
  | .emptyName => "Invalid name: name cannot be empty"
  | .nameWithSeparator name =>
      "Invalid name: '" ++ name ++ "' cannot contain path separators"
  | .emptyType => "Invalid name: type cannot be empty"
  | .clauseWithoutOperator expression =>
      "Invalid clause: '" ++ expression ++ "' is missing an operator"
  | .clauseWithoutKey expression =>
      "Invalid clause: '" ++ expression ++ "' is missing an attribute"
  | .sortWithoutKey expression =>
      "Invalid clause: sort field '" ++ expression ++ "' is missing an attribute"
  | .unknownDirection direction =>
      "Invalid clause: unknown sort direction '" ++ direction ++ "'"
  | .unknownKind name => "Config error: unknown attribute kind '" ++ name ++ "'"
  | .badConfiguration => "Config error:"
  | .badSnapshot => "Serialization error:"
  | .unreadableFile => "IO error:"

end Failure
end VaultQuery
