import VaultQuery.Json.Quoted
import VaultQuery.Number.Decimal

/-! # YAML texts

    How a text is written in YAML: plain where that cannot be mistaken, in single quotes, in
    double quotes with escapes, or line by line.

    - `looksTyped`: a plain text that a reader would take for something else;
    - `Style`, `styleOf`: the choice;
    - `writeText`: the written text. -/

namespace VaultQuery.Yaml

/-- Line breaks of the format. -/
def isBreak (c : Char) : Bool :=
  c == '\n' || c == '\r' || c == '\u0085' || c == '\u2028' || c == '\u2029'

/-- Spaces, tabs, breaks and the null character. -/
def isGap (c : Char) : Bool := c == ' ' || c == '\t' || c == '\x00' || isBreak c

/-- Characters that may stand for themselves. -/
def isPrintable (c : Char) : Bool :=
  let n := c.toNat
  n == 0x0A || (0x20 ≤ n && n ≤ 0x7E) || (0xA0 ≤ n && n ≤ 0xFFFD && n != 0xFEFF) || 0x10000 ≤ n

/-- A sign, at most one, left out. -/
def withoutSign : List Char → List Char
  | '-' :: cs => cs
  | '+' :: cs => cs
  | cs => cs

/-- Digits in a base as a number below `limit`. -/
def spellsBelow (base limit : Nat) (cs : List Char) : Bool :=
  !cs.isEmpty &&
    match cs.foldl (fun n c => n.bind fun n => (Json.hexValue? c).bind fun d =>
        if d < base then some (n * base + d) else none) (some 0) with
    | some n => n < limit
    | none => false

/-- A number with a base mark such as `0x`, of at most 128 bits. -/
def spellsBased (cs : List Char) : Bool :=
  let limit := if cs.head? == some '-' then (1 <<< 127) + 1 else 1 <<< 128
  match withoutSign cs with
  | '0' :: 'x' :: ds => spellsBelow 16 limit ds
  | '0' :: 'o' :: ds => spellsBelow 8 limit ds
  | '0' :: 'b' :: ds => spellsBelow 2 limit ds
  | _ => false

/-- A row of digits that begins with a zero, after a sign or not: some readers take it for a
    number and others do not. -/
def spellsPaddedDigits (cs : List Char) : Bool :=
  match withoutSign cs with
  | '0' :: ds => !ds.isEmpty && ds.all Text.isDigit
  | _ => false

/-- A number in decimal notation that a double can hold. -/
def spellsDecimal (cs : List Char) : Bool :=
  match Decimal.read? cs with
  | some d => d.nearest.isFinite
  | none => false

/-- A reader would take the plain text for nothing, a truth value or a number. -/
def looksTyped (cs : List Char) : Bool :=
  cs.isEmpty ||
    ["~", "null", "Null", "NULL", "true", "True", "TRUE", "false", "False", "FALSE", ".inf",
      ".Inf", ".INF", "+.inf", "+.Inf", "+.INF", "-.inf", "-.Inf", "-.INF", ".nan", ".NaN",
      ".NAN"].contains (String.ofList cs) ||
    spellsBased cs || spellsPaddedDigits cs || spellsDecimal cs

/-- The ways to write a text. -/
inductive Style where
  | plain
  | singleQuoted
  | doubleQuoted
  /-- On lines of its own. -/
  | literal
deriving DecidableEq

/-- A first character that has a meaning of its own in front of a plain text. -/
def isIndicator (c : Char) : Bool :=
  ['#', ',', '[', ']', '\x7b', '\x7d', '&', '*', '!', '|', '>', '\'', '"', '%', '@',
    '\x60'].contains c

/-- Inside a text: a colon before a gap, or a number sign after one. -/
def hasInnerIndicator (afterGap : Bool) : List Char → Bool
  | [] => false
  | ':' :: cs => (cs.head?.all isGap) || hasInnerIndicator false cs
  | '#' :: cs => afterGap || hasInnerIndicator false cs
  | c :: cs => hasInnerIndicator (isGap c) cs

/-- The text would read as something else if it stood plain. -/
def hasIndicator (cs : List Char) : Bool :=
  "---".toList.isPrefixOf cs || "...".toList.isPrefixOf cs ||
    match cs with
    | [] => false
    | c :: rest =>
        isIndicator c || ((c == '?' || c == ':' || c == '-') && rest.head?.all isGap) ||
          hasInnerIndicator (isGap c) rest

/-- A space directly before a break. -/
def hasSpaceBreak : List Char → Bool
  | a :: b :: cs => (a == ' ' && isBreak b) || hasSpaceBreak (b :: cs)
  | _ => false

/-- A space directly after a break. -/
def hasBreakSpace : List Char → Bool
  | a :: b :: cs => (isBreak a && b == ' ') || hasBreakSpace (b :: cs)
  | _ => false

/-- The text begins or ends with a space or a break. -/
def hasOuterSpace (cs : List Char) : Bool :=
  let isEdge (c : Char) : Bool := c == ' ' || isBreak c
  cs.head?.any isEdge || cs.getLast?.any isEdge

/-- The text can stand without quotes, what it looks like aside. -/
def plainAllowed (cs : List Char) : Bool :=
  !hasOuterSpace cs && cs.all (fun c => isPrintable c && !isBreak c) && !hasIndicator cs

/-- The text can stand in single quotes. -/
def singleAllowed (cs : List Char) : Bool :=
  cs.all isPrintable && !hasSpaceBreak cs && !hasBreakSpace cs

/-- The text can stand on lines of its own. -/
def literalAllowed (cs : List Char) : Bool :=
  cs.all isPrintable && !hasSpaceBreak cs && cs.getLast? != some ' '

/-- How a text is written; one that contains a line feed preferably on lines of its own. -/
def styleOf (cs : List Char) : Style :=
  if cs.contains '\n' then (if literalAllowed cs then .literal else .doubleQuoted)
  else if !looksTyped cs && plainAllowed cs then .plain
  else if singleAllowed cs then .singleQuoted
  else .doubleQuoted

/-- The spaces in front of a line. -/
def indentation (indent : Nat) : List Char := List.replicate indent ' '

/-- What is written ends its line; a text on lines of its own may have a break there already. -/
def endLine (cs : List Char) : List Char :=
  if cs.getLast?.any isBreak then cs else cs ++ ['\n']

/-- What stands between single quotes: an apostrophe is doubled, and what follows a break is
    indented. -/
def singleText (indent : Nat) (afterBreak : Bool) : List Char → List Char
  | [] => if afterBreak then indentation indent else []
  | c :: cs =>
      if isBreak c then c :: singleText indent true cs
      else
        (if afterBreak then indentation indent else []) ++
          (if c = '\'' then ['\'', '\''] else [c]) ++ singleText indent false cs

/-- Digits in base sixteen with capital letters, at least `width`. -/
def hexText (width n : Nat) : List Char :=
  let ds := (Nat.toDigits 16 n).map Char.toUpper
  List.replicate (width - ds.length) '0' ++ ds

/-- A character as it stands between double quotes. -/
def doubleChar (c : Char) : List Char :=
  let n := c.toNat
  if n = 0x00 then ['\\', '0']
  else if n = 0x07 then ['\\', 'a']
  else if n = 0x08 then ['\\', 'b']
  else if n = 0x09 then ['\\', 't']
  else if n = 0x0A then ['\\', 'n']
  else if n = 0x0B then ['\\', 'v']
  else if n = 0x0C then ['\\', 'f']
  else if n = 0x0D then ['\\', 'r']
  else if n = 0x1B then ['\\', 'e']
  else if n = 0x22 then ['\\', '"']
  else if n = 0x5C then ['\\', '\\']
  else if n = 0x85 then ['\\', 'N']
  else if n = 0x2028 then ['\\', 'L']
  else if n = 0x2029 then ['\\', 'P']
  else if isPrintable c then [c]
  else if n ≤ 0xFF then '\\' :: 'x' :: hexText 2 n
  else if n ≤ 0xFFFF then '\\' :: 'u' :: hexText 4 n
  else '\\' :: 'U' :: hexText 8 n

/-- The mark in front of a text on lines of its own: whether its indentation has to be told,
    and what becomes of its last line feeds. -/
def literalMark (cs : List Char) : List Char :=
  let width := if cs.head?.any fun c => c == ' ' || isBreak c then ['2'] else []
  let ending :=
    match cs.reverse with
    | [] => ['-']
    | c :: rest =>
        if !isBreak c then ['-']
        else if rest.head?.all isBreak then ['+']
        else []
  '|' :: width ++ ending

/-- The lines of a text, indented where they are not empty. -/
def literalLines (indent : Nat) (atStart : Bool) : List Char → List Char
  | [] => []
  | c :: cs =>
      if isBreak c then c :: literalLines indent true cs
      else
        (if atStart then indentation indent else []) ++ c :: literalLines indent false cs

/-- A text on lines of its own. -/
def literalText (indent : Nat) (cs : List Char) : List Char :=
  literalMark cs ++ '\n' :: literalLines indent true cs

/-- A text in a style; lines after the first are indented. -/
def writeStyled (indent : Nat) (style : Style) (cs : List Char) : List Char :=
  match style with
  | .plain => cs
  | .singleQuoted => '\'' :: singleText indent false cs ++ ['\'']
  | .doubleQuoted => '"' :: cs.flatMap doubleChar ++ ['"']
  | .literal => literalText indent cs

/-- The written text. -/
def writeText (indent : Nat) (cs : List Char) : List Char :=
  writeStyled indent (styleOf cs) cs

end VaultQuery.Yaml
