import VaultQuery.Json.Token

/-! # JSON as written

    The tree of a JSON text before anything in it is given a meaning: texts are still
    quoted, numbers unread, members in the order of the text, nesting unlimited.

    - `Written`: the tree;
    - `Frame`: an array or object that has been opened and not closed;
    - `Written.ofTokens?`: the tree of a row of tokens, read with a stack of frames. -/

namespace VaultQuery.Json

/-- A JSON value as written. -/
inductive Written where
  | null
  | bool (b : Bool)
  | number (n : Numeral)
  | text (raw : List Char)
  | array (items : List Written)
  | object (members : List (List Char × Written))

/-- An open array or object with what it holds so far, the last first. -/
inductive Frame where
  | items (seen : List Written)
  /-- The value of `key` comes next. -/
  | members (seen : List (List Char × Written)) (key : List Char)

mutual

/-- Reads a value that belongs into the innermost frame. -/
def valueNext? (stack : List Frame) : List Token → Option Written
  | .null :: ts => closed? stack .null ts
  | .bool b :: ts => closed? stack (.bool b) ts
  | .number n :: ts => closed? stack (.number n) ts
  | .text raw :: ts => closed? stack (.text raw) ts
  | .leftBracket :: .rightBracket :: ts => closed? stack (.array []) ts
  | .leftBracket :: ts => valueNext? (.items [] :: stack) ts
  | .leftBrace :: .rightBrace :: ts => closed? stack (.object []) ts
  | .leftBrace :: .text key :: .colon :: ts => valueNext? (.members [] key :: stack) ts
  | _ => none

/-- Goes on after a complete value. -/
def closed? (stack : List Frame) (v : Written) : List Token → Option Written
  | [] =>
      match stack with
      | [] => some v
      | _ :: _ => none
  | .comma :: .text key :: .colon :: ts =>
      match stack with
      | .members seen k :: stack => valueNext? (.members ((k, v) :: seen) key :: stack) ts
      | .items seen :: stack => valueNext? (.items (v :: seen) :: stack) (.text key :: .colon :: ts)
      | _ => none
  | .comma :: ts =>
      match stack with
      | .items seen :: stack => valueNext? (.items (v :: seen) :: stack) ts
      | _ => none
  | .rightBracket :: ts =>
      match stack with
      | .items seen :: stack => closed? stack (.array (v :: seen).reverse) ts
      | _ => none
  | .rightBrace :: ts =>
      match stack with
      | .members seen k :: stack => closed? stack (.object ((k, v) :: seen).reverse) ts
      | _ => none
  | _ => none

end

/-- The tree of a row of tokens. -/
def Written.ofTokens? (ts : List Token) : Option Written := valueNext? [] ts

/-- The tree of a text. -/
def Written.read? (cs : List Char) : Option Written :=
  (Token.ofChars? cs).bind Written.ofTokens?

end VaultQuery.Json
