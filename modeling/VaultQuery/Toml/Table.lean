/-! # TOML tables

    What a TOML text builds, and how its lines extend it. Of numbers, dates and truth values
    only their presence is kept.

    - `Node`: a value of the text;
    - `assign?`: a key with a value;
    - `openTable?`, `openElement?`: a table header, an array-of-tables header;
    - `assignAt?`: a key with a value in the table that a header has opened. -/

namespace VaultQuery.Toml

/-- How a table came to be. -/
inductive Origin where
  /-- By a header of its own. -/
  | header
  /-- As a part of a longer header. -/
  | implied
  /-- As a part of a dotted key. -/
  | dotted
  /-- In braces; nothing can be added to it. -/
  | inline
deriving DecidableEq

/-- A value of the text. -/
inductive Node where
  | text (s : String)
  /-- A number, a date or a truth value. -/
  | other
  | array (items : List Node)
  | table (origin : Origin) (entries : List (String × Node))
  /-- An array of tables, the last first. -/
  | tables (elements : List (List (String × Node)))

/-- The entries of a table. -/
abbrev Entries := List (String × Node)

/-- The value of a key. -/
def find? (key : String) (es : Entries) : Option Node := es.lookup key

/-- The entry of a key replaced, or added at the end. -/
def replace (key : String) (n : Node) : Entries → Entries
  | [] => [(key, n)]
  | (k, m) :: es => if k = key then (k, n) :: es else (k, m) :: replace key n es

/-- A key with a value in a table, reached along the other parts of a dotted key. These may
    pass through implied tables and the last elements of arrays of tables, but the last of
    them is a table made by dotted keys. -/
def assign? (path : List String) (key : String) (n : Node) (es : Entries) : Option Entries :=
  match path with
  | [] => if (find? key es).isSome then none else some (replace key n es)
  | k :: ks =>
      match find? k es with
      | none => (assign? ks key n []).map fun sub => replace k (.table .dotted sub) es
      | some (.table .dotted sub) =>
          (assign? ks key n sub).map fun sub => replace k (.table .dotted sub) es
      | some (.table .implied sub) =>
          if ks.isEmpty then none
          else (assign? ks key n sub).map fun sub => replace k (.table .implied sub) es
      | some (.tables (last :: before)) =>
          if ks.isEmpty then none
          else (assign? ks key n last).map fun last => replace k (.tables (last :: before)) es
      | _ => none

/-- A change of the table at a path of headers; missing tables are implied, and of an array of
    tables the last element is meant. -/
def changeAt? (change : Entries → Option Entries) : List String → Entries → Option Entries
  | [], es => change es
  | k :: ks, es =>
      match find? k es with
      | none => (changeAt? change ks []).map fun sub => replace k (.table .implied sub) es
      | some (.table .inline _) => none
      | some (.table origin sub) =>
          (changeAt? change ks sub).map fun sub => replace k (.table origin sub) es
      | some (.tables (last :: before)) =>
          (changeAt? change ks last).map fun last => replace k (.tables (last :: before)) es
      | _ => none

/-- A table header; only an implied table may be there already. -/
def openTable? (path : List String) (key : String) (root : Entries) : Option Entries :=
  changeAt? (fun es =>
    match find? key es with
    | none => some (replace key (.table .header []) es)
    | some (.table .implied sub) => some (replace key (.table .header sub) es)
    | _ => none) path root

/-- An array-of-tables header; only such an array may be there already. -/
def openElement? (path : List String) (key : String) (root : Entries) : Option Entries :=
  changeAt? (fun es =>
    match find? key es with
    | none => some (replace key (.tables [[]]) es)
    | some (.tables elements) => some (replace key (.tables ([] :: elements)) es)
    | _ => none) path root

/-- A key with a value in the table of a header. -/
def assignAt? (header path : List String) (key : String) (n : Node) (root : Entries) :
    Option Entries :=
  changeAt? (assign? path key n) header root

end VaultQuery.Toml
