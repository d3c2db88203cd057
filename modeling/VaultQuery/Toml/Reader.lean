import VaultQuery.Toml.Quoted
import VaultQuery.Toml.Scalar
import VaultQuery.Toml.Table

/-! # Reading TOML

    - `takeKey?`: a key, dotted or not;
    - `takeValue?`: a value with all it contains;
    - `read?`: the entries of a text, line by line. -/

namespace VaultQuery.Toml

/-- Spaces and tabs left out. -/
def skipSpace (cs : List Char) : List Char := cs.dropWhile fun c => c == ' ' || c == '\t'

/-- The characters of keys without quotes. -/
def isBareKeyChar (c : Char) : Bool :=
  ('a' ≤ c && c ≤ 'z') || ('A' ≤ c && c ≤ 'Z') || Text.isDigit c || c == '_' || c == '-'

/-- One part of a key. -/
def takeKeyPart? (cs : List Char) : Option (String × List Char) :=
  match takeOneLine? cs with
  | some (key, rest) => some (String.ofList key, rest)
  | none =>
      let key := cs.takeWhile isBareKeyChar
      if key.isEmpty then none else some (String.ofList key, cs.dropWhile isBareKeyChar)

/-- At most so many parts, with points between them. -/
def takeKeyParts? : Nat → List Char → Option (List String × List Char)
  | 0, _ => none
  | room + 1, cs =>
      match takeKeyPart? cs with
      | none => none
      | some (part, rest) =>
          match skipSpace rest with
          | '.' :: more =>
              (takeKeyParts? room (skipSpace more)).map fun (parts, rest) => (part :: parts, rest)
          | _ => some ([part], rest)

/-- A key has no more parts than this, and a value contains no more brackets and braces one
    inside the other. -/
def maximalDepth : Nat := 80

/-- A key, dotted or not. -/
def takeKey? (cs : List Char) : Option (List String × List Char) :=
  takeKeyParts? maximalDepth cs

/-- A comment left out, up to the end of its line. -/
def skipComment? : List Char → Option (List Char)
  | '#' :: cs =>
      let comment := cs.takeWhile fun c => c != '\n' && c != '\r'
      if comment.any isForbidden then none else some (cs.drop comment.length)
  | cs => some cs

/-- Spaces, comments and line breaks left out. -/
def skipLines? : Nat → List Char → Option (List Char)
  | 0, _ => none
  | fuel + 1, cs =>
      match skipComment? (skipSpace cs) with
      | none => none
      | some rest =>
          match skipNewLine? rest with
          | some rest => skipLines? fuel rest
          | none => some rest

/-- The characters of bare values. -/
def isBareValueChar (c : Char) : Bool := isBareKeyChar c || c == '+' || c == '.' || c == ':'

/-- A bare value; between a day and a time there may be a space. -/
def takeBareValue? (cs : List Char) : Option (Node × List Char) :=
  let word := cs.takeWhile isBareValueChar
  let rest := cs.dropWhile isBareValueChar
  let longer :=
    match rest with
    | ' ' :: c :: _ => isDay word && Text.isDigit c
    | _ => false
  let word := if longer then word ++ ' ' :: (rest.drop 1).takeWhile isBareValueChar else word
  if isBareValue word then some (.other, cs.drop word.length) else none

/-- The parts of a key: where it leads, and its last part. -/
def splitKey (parts : List String) : List String × String :=
  (parts.dropLast, parts.getLast?.getD "")

mutual

/-- A value with all it contains; `room` tells how many brackets and braces may still be open
    at once. -/
def takeValue? : Nat → Nat → List Char → Option (Node × List Char)
  | 0, _, _ => none
  | fuel + 1, room, cs =>
      match cs with
      | '[' :: rest => if room = 0 then none else takeItems? fuel (room - 1) [] rest
      | '\x7b' :: rest => if room = 0 then none else takeEntries? fuel (room - 1) [] rest
      | '"' :: _ => (takeText? cs).map fun (s, rest) => (.text (String.ofList s), rest)
      | '\'' :: _ => (takeText? cs).map fun (s, rest) => (.text (String.ofList s), rest)
      | _ => takeBareValue? cs

/-- The items of an array up to its closing bracket; `seen` are those before, the last
    first. -/
def takeItems? : Nat → Nat → List Node → List Char → Option (Node × List Char)
  | 0, _, _, _ => none
  | fuel + 1, room, seen, cs =>
      match skipLines? (cs.length + 1) cs with
      | some (']' :: rest) => some (.array seen.reverse, rest)
      | some cs =>
          match takeValue? fuel room cs with
          | some (n, rest) =>
              match skipLines? (rest.length + 1) rest with
              | some (',' :: rest) => takeItems? fuel room (n :: seen) rest
              | some (']' :: rest) => some (.array (n :: seen).reverse, rest)
              | _ => none
          | none => none
      | none => none

/-- The entries of a table in braces up to the closing one. A key, its sign and its value may
    stand on different lines. -/
def takeEntries? : Nat → Nat → Entries → List Char → Option (Node × List Char)
  | 0, _, _, _ => none
  | fuel + 1, room, seen, cs =>
      match skipLines? (cs.length + 1) cs with
      | some ('\x7d' :: rest) => some (.table .inline seen, rest)
      | some cs =>
          match takeKey? cs with
          | some (parts, rest) =>
              match takeAssigned? fuel room rest with
              | some (n, rest) =>
                  let (path, key) := splitKey parts
                  match assign? path key n seen, skipLines? (rest.length + 1) rest with
                  | some seen, some (',' :: rest) => takeEntries? fuel room seen rest
                  | some seen, some ('\x7d' :: rest) => some (.table .inline seen, rest)
                  | _, _ => none
              | none => none
          | none => none
      | none => none

/-- The equals sign and the value of an entry in braces. -/
def takeAssigned? : Nat → Nat → List Char → Option (Node × List Char)
  | 0, _, _ => none
  | fuel + 1, room, cs =>
      match skipLines? (cs.length + 1) cs with
      | some ('=' :: rest) =>
          match skipLines? (rest.length + 1) rest with
          | some rest => takeValue? fuel room rest
          | none => none
      | _ => none

end

/-- What must follow on the same line: a comment or nothing. -/
def endLine? (cs : List Char) : Option (List Char) :=
  match skipComment? (skipSpace cs) with
  | some [] => some []
  | some rest => skipNewLine? rest
  | none => none

/-- A header with one or two brackets: whether it opens an array element, its key, and what
    follows. -/
def takeHeader? (cs : List Char) : Option (Bool × List String × List Char) :=
  match cs with
  | '[' :: '[' :: rest =>
      match takeKey? (skipSpace rest) with
      | some (parts, rest) =>
          match skipSpace rest with
          | ']' :: ']' :: rest => some (true, parts, rest)
          | _ => none
      | none => none
  | '[' :: rest =>
      match takeKey? (skipSpace rest) with
      | some (parts, rest) =>
          match skipSpace rest with
          | ']' :: rest => some (false, parts, rest)
          | _ => none
      | none => none
  | _ => none

/-- The entries of a text from a line on; `header` is the table its keys belong to. -/
def readLines? : Nat → List String → Entries → List Char → Option Entries
  | 0, _, _, _ => none
  | fuel + 1, header, root, cs =>
      match skipLines? (cs.length + 1) cs with
      | none => none
      | some [] => some root
      | some cs =>
          match cs with
          | '[' :: _ =>
              match takeHeader? cs with
              | none => none
              | some (isElement, parts, rest) =>
                  let (path, key) := splitKey parts
                  let opened :=
                    if isElement then openElement? path key root else openTable? path key root
                  match opened, endLine? rest with
                  | some root, some rest => readLines? fuel parts root rest
                  | _, _ => none
          | _ =>
              match takeKey? cs with
              | none => none
              | some (parts, rest) =>
                  match skipSpace rest with
                  | '=' :: rest =>
                      match takeValue? (2 * rest.length + 1) maximalDepth (skipSpace rest) with
                      | none => none
                      | some (n, rest) =>
                          let (path, key) := splitKey parts
                          match assignAt? header path key n root, endLine? rest with
                          | some root, some rest => readLines? fuel header root rest
                          | _, _ => none
                  | _ => none

/-- The entries of a text. A byte order mark in front is left out. -/
def read? (s : String) : Option Entries :=
  let cs := s.toList
  let cs := if cs.head? == some '\uFEFF' then cs.drop 1 else cs
  readLines? (cs.length + 1) [] [] cs

end VaultQuery.Toml
