import VaultQuery.Json.Quoted

/-! # Quoted TOML texts

    - `takeBasic?`, `takeLiteral?`: texts on one line, with and without escapes;
    - `takeBasicLines?`, `takeLiteralLines?`: texts over several lines.

    A line break inside a text is kept as it is written, a carriage return with it; a carriage
    return without a line feed stands nowhere. -/

namespace VaultQuery.Toml

/-- Control characters may not stand in a text; a tab may. -/
def isForbidden (c : Char) : Bool := (c.toNat < 0x20 && c != '\t') || c.toNat == 0x7F

/-- The character of a code point, if it is one. -/
def charOf? (n : Nat) : Option Char :=
  if n < 0xD800 ∨ (0xE000 ≤ n ∧ n < 0x110000) then some (Char.ofNat n) else none

/-- The number that hexadecimal digits spell. -/
def hexNumber? (cs : List Char) : Option Nat :=
  cs.foldl (fun n c => n.bind fun n => (Json.hexValue? c).map fun d => n * 16 + d) (some 0)

/-- What follows a backslash and means one character. -/
def takeEscape? : List Char → Option (Char × List Char)
  | 'b' :: cs => some ('\x08', cs)
  | 't' :: cs => some ('\t', cs)
  | 'n' :: cs => some ('\n', cs)
  | 'f' :: cs => some ('\x0c', cs)
  | 'r' :: cs => some ('\r', cs)
  | 'e' :: cs => some ('\x1b', cs)
  | '"' :: cs => some ('"', cs)
  | '\\' :: cs => some ('\\', cs)
  | 'x' :: a :: b :: cs => ((hexNumber? [a, b]).bind charOf?).map fun c => (c, cs)
  | 'u' :: a :: b :: c :: d :: cs => ((hexNumber? [a, b, c, d]).bind charOf?).map fun e => (e, cs)
  | 'U' :: a :: b :: c :: d :: e :: f :: g :: h :: cs =>
      ((hexNumber? [a, b, c, d, e, f, g, h]).bind charOf?).map fun e => (e, cs)
  | _ => none

/-- A text up to its closing quote, escapes understood; `fuel` bounds its length. -/
def takeBasic? (fuel : Nat) (seen : List Char) : List Char → Option (List Char × List Char)
  | [] => none
  | c :: cs =>
      match fuel with
      | 0 => none
      | fuel + 1 =>
          if c = '"' then some (seen.reverse, cs)
          else if c = '\\' then
            match takeEscape? cs with
            | some (e, cs) => takeBasic? fuel (e :: seen) cs
            | none => none
          else if isForbidden c then none
          else takeBasic? fuel (c :: seen) cs

/-- A text up to its closing apostrophe. -/
def takeLiteral? (seen : List Char) : List Char → Option (List Char × List Char)
  | [] => none
  | c :: cs =>
      if c = '\'' then some (seen.reverse, cs)
      else if isForbidden c then none
      else takeLiteral? (c :: seen) cs

/-- What follows a line break. -/
def skipNewLine? : List Char → Option (List Char)
  | '\n' :: cs => some cs
  | '\r' :: '\n' :: cs => some cs
  | _ => none

/-- Blanks and line breaks left out. -/
def skipBlankLines : List Char → List Char
  | ' ' :: cs => skipBlankLines cs
  | '\t' :: cs => skipBlankLines cs
  | '\n' :: cs => skipBlankLines cs
  | '\r' :: '\n' :: cs => skipBlankLines cs
  | cs => cs

/-- A backslash at the end of a line joins it with the next that is not blank. -/
def skipJoin? (cs : List Char) : Option (List Char) :=
  (skipNewLine? (cs.dropWhile fun c => c == ' ' || c == '\t')).map skipBlankLines

/-- Three marks close a text; up to two more before them belong to it. -/
def closing? (mark : Char) (cs : List Char) : Option (List Char × List Char) :=
  let marks := (cs.takeWhile (· == mark)).length
  if 3 ≤ marks ∧ marks ≤ 5 then some (List.replicate (marks - 3) mark, cs.drop marks)
  else none

/-- A text over several lines up to its closing quotes; `fuel` bounds its length. -/
def takeBasicLines? (fuel : Nat) (seen : List Char) (cs : List Char) :
    Option (List Char × List Char) :=
  match fuel with
  | 0 => none
  | fuel + 1 =>
      match closing? '"' cs with
      | some (quotes, rest) => some (seen.reverse ++ quotes, rest)
      | none =>
          match cs with
          | [] => none
          | '\\' :: cs =>
              match skipJoin? cs with
              | some cs => takeBasicLines? fuel seen cs
              | none =>
                  match takeEscape? cs with
                  | some (e, cs) => takeBasicLines? fuel (e :: seen) cs
                  | none => none
          | '\n' :: rest => takeBasicLines? fuel ('\n' :: seen) rest
          | '\r' :: '\n' :: rest => takeBasicLines? fuel ('\n' :: '\r' :: seen) rest
          | c :: rest =>
              if isForbidden c || (c == '"' && 5 < (cs.takeWhile (· == '"')).length) then none
              else takeBasicLines? fuel (c :: seen) rest

/-- A text over several lines up to its closing apostrophes; `fuel` bounds its length. -/
def takeLiteralLines? (fuel : Nat) (seen : List Char) (cs : List Char) :
    Option (List Char × List Char) :=
  match fuel with
  | 0 => none
  | fuel + 1 =>
      match closing? '\'' cs with
      | some (quotes, rest) => some (seen.reverse ++ quotes, rest)
      | none =>
          match cs with
          | [] => none
          | '\n' :: rest => takeLiteralLines? fuel ('\n' :: seen) rest
          | '\r' :: '\n' :: rest => takeLiteralLines? fuel ('\n' :: '\r' :: seen) rest
          | c :: rest =>
              if isForbidden c || (c == '\'' && 5 < (cs.takeWhile (· == '\'')).length) then none
              else takeLiteralLines? fuel (c :: seen) rest

/-- A line break right after the opening marks is no part of the text. -/
def skipFirstNewLine (cs : List Char) : List Char := (skipNewLine? cs).getD cs

/-- A text on one line in quotes or apostrophes. -/
def takeOneLine? : List Char → Option (List Char × List Char)
  | '"' :: cs => takeBasic? (cs.length + 1) [] cs
  | '\'' :: cs => takeLiteral? [] cs
  | _ => none

/-- A text in quotes or apostrophes, on one line or over several. -/
def takeText? : List Char → Option (List Char × List Char)
  | '"' :: '"' :: '"' :: cs => takeBasicLines? (cs.length + 1) [] (skipFirstNewLine cs)
  | '\'' :: '\'' :: '\'' :: cs => takeLiteralLines? (cs.length + 1) [] (skipFirstNewLine cs)
  | cs => takeOneLine? cs

end VaultQuery.Toml
