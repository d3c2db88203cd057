import VaultQuery.Json.Numeral
import VaultQuery.Json.Quoted

/-! # Tokens

    A JSON text as a row of tokens. The text is read one character at a time:

    - `Token`: punctuation, words, numbers, quoted texts;
    - `Mode`: what the characters before the next one have begun;
    - `step?`: the tokens that end with a character, and the mode after it;
    - `Token.ofChars?`: the tokens of a text. -/

namespace VaultQuery.Json

/-- The smallest parts of a JSON text; a quoted text is held as written. -/
inductive Token where
  | leftBracket | rightBracket | leftBrace | rightBrace | comma | colon
  | null
  | bool (b : Bool)
  | number (n : Numeral)
  | text (raw : List Char)

/-- What has begun before the next character. -/
inductive Mode where
  /-- Nothing. -/
  | between
  /-- A word or number; its characters so far, the last first. -/
  | word (seen : List Char)
  /-- A quoted text; its characters so far, the last first. -/
  | quoted (seen : List Char)
  /-- A quoted text after a backslash. -/
  | escaped (seen : List Char)

/-- Space, tab, line feed and carriage return may stand between tokens. -/
def isSpace (c : Char) : Bool := c == ' ' || c == '\t' || c == '\n' || c == '\r'

/-- The token of one punctuation character. -/
def punctuation? : Char → Option Token
  | '[' => some .leftBracket
  | ']' => some .rightBracket
  | '\x7b' => some .leftBrace
  | '\x7d' => some .rightBrace
  | ',' => some .comma
  | ':' => some .colon
  | _ => none

/-- The token of a word: a constant or a number. -/
def wordToken? (cs : List Char) : Option Token :=
  if cs = "null".toList then some .null
  else if cs = "true".toList then some (.bool true)
  else if cs = "false".toList then some (.bool false)
  else (Numeral.read? cs).map .number

/-- What a character between tokens ends or begins. -/
def startAt (c : Char) : List Token × Mode :=
  if isSpace c then ([], .between)
  else if c = '"' then ([], .quoted [])
  else
    match punctuation? c with
    | some t => ([t], .between)
    | none => ([], .word [c])

/-- A word ends before this character. -/
def endsWord (c : Char) : Bool := isSpace c || c == '"' || (punctuation? c).isSome

/-- The tokens that a character ends, and the mode after it. -/
def step? : Mode → Char → Option (List Token × Mode)
  | .between, c => some (startAt c)
  | .word seen, c =>
      if endsWord c then
        (wordToken? seen.reverse).map fun t => (t :: (startAt c).1, (startAt c).2)
      else some ([], .word (c :: seen))
  | .quoted seen, c =>
      if c = '"' then
        if wellEscaped seen.reverse then some ([.text seen.reverse], .between) else none
      else if c = '\\' then some ([], .escaped (c :: seen))
      else if c.toNat < 0x20 then none
      else some ([], .quoted (c :: seen))
  | .escaped seen, c => if c.toNat < 0x20 then none else some ([], .quoted (c :: seen))

/-- The tokens still open at the end of the text. -/
def finish? : Mode → Option (List Token)
  | .between => some []
  | .word seen => (wordToken? seen.reverse).map fun t => [t]
  | .quoted _ => none
  | .escaped _ => none

/-- The tokens of a text read from a mode on; `seen` are those before, the last first. -/
def Token.ofCharsFrom? (mode : Mode) (seen : List Token) : List Char → Option (List Token)
  | [] => (finish? mode).map fun ts => seen.reverse ++ ts
  | c :: cs =>
      match step? mode c with
      | some (ts, mode) => Token.ofCharsFrom? mode (ts.reverse ++ seen) cs
      | none => none

/-- The tokens of a text, if it consists of tokens. -/
def Token.ofChars? (cs : List Char) : Option (List Token) := Token.ofCharsFrom? .between [] cs

end VaultQuery.Json
