import VaultQuery.Number.Decimal
import VaultQuery.Json.Quoted
import VaultQuery.Time.Calendar

/-! # Bare TOML values

    Which words are numbers, dates or truth values.

    - `isInteger`, `isFloat`: numbers, with underscores between digits, of at most 128 bits and
      in the range of doubles;
    - `isDateTime`: a day, a time of day, or both with or without a zone;
    - `isBareValue`: any of them. -/

namespace VaultQuery.Toml

open Text

/-- Digits of a base with single underscores between them, at least one. -/
def isDigitRow (isDigit : Char → Bool) : List Char → Bool
  | [] => false
  | [c] => isDigit c
  | c :: '_' :: cs => isDigit c && isDigitRow isDigit cs
  | c :: cs => isDigit c && isDigitRow isDigit cs

def isHexDigit (c : Char) : Bool := (Json.hexValue? c).isSome
def isOctalDigit (c : Char) : Bool := '0' ≤ c && c ≤ '7'
def isBinaryDigit (c : Char) : Bool := c == '0' || c == '1'

/-- Decimal digits without a leading zero. -/
def isDecimalRow (cs : List Char) : Bool :=
  isDigitRow isDigit cs && !(cs.head? == some '0' && 1 < cs.length)

/-- The number that a row of digits spells in a base; underscores do not count. -/
def rowValue (base : Nat) (cs : List Char) : Nat :=
  cs.foldl (fun n c => match Json.hexValue? c with
    | some d => n * base + d
    | none => n) 0

/-- 128 bits hold the integer: with a sign if it is negative, else without. -/
def fits (negative : Bool) (n : Nat) : Bool :=
  if negative then n ≤ 1 <<< 127 else n < 1 <<< 128

/-- An integer of 128 bits: decimal with an optional sign, or hexadecimal, octal, binary. -/
def isInteger : List Char → Bool
  | '0' :: 'x' :: cs => isDigitRow isHexDigit cs && fits false (rowValue 16 cs)
  | '0' :: 'o' :: cs => isDigitRow isOctalDigit cs && fits false (rowValue 8 cs)
  | '0' :: 'b' :: cs => isDigitRow isBinaryDigit cs && fits false (rowValue 2 cs)
  | cs =>
      let (negative, ds) := takeSign cs
      isDecimalRow ds && fits negative (rowValue 10 ds)

/-- The decimal number that digits with underscores spell is one that a double can hold. -/
def isFinite (cs : List Char) : Bool :=
  match Decimal.read? (cs.filter (· != '_')) with
  | some d => d.nearest.isFinite
  | none => false

/-- A float: a decimal integer with a fraction, an exponent or both, in the range of
    doubles, or a name. -/
def isFloat (cs : List Char) : Bool :=
  let unsigned := (takeSign cs).2
  if unsigned = "inf".toList ∨ unsigned = "nan".toList then true
  else
    let isExponentMark (c : Char) : Bool := c == 'e' || c == 'E'
    let mantissa := unsigned.takeWhile (!isExponentMark ·)
    let exponent := unsigned.dropWhile (!isExponentMark ·)
    let whole := mantissa.takeWhile (· != '.')
    let fraction := mantissa.dropWhile (· != '.')
    isDecimalRow whole && (fraction.isEmpty || isDigitRow isDigit (fraction.drop 1)) &&
      (exponent.isEmpty || isDigitRow isDigit (takeSign (exponent.drop 1)).2) &&
      !(fraction.isEmpty && exponent.isEmpty) && isFinite unsigned

/-- A day such as `2024-05-17`. -/
def isDay (cs : List Char) : Bool :=
  match cs with
  | [a, b, c, d, '-', e, f, '-', g, h] =>
      [a, b, c, d, e, f, g, h].all isDigit &&
        (Day.make? (digitsValue [a, b, c, d]) (digitsValue [e, f]) (digitsValue [g, h])).isSome
  | _ => false

/-- A point and digits, or nothing. -/
def isFraction (cs : List Char) : Bool :=
  match cs with
  | [] => true
  | '.' :: ds => !ds.isEmpty && ds.all isDigit
  | _ => false

/-- A time of day, its seconds and their fraction possibly missing. -/
def isTime (cs : List Char) : Bool :=
  match cs with
  | a :: b :: ':' :: c :: d :: rest =>
      [a, b, c, d].all isDigit && digitsValue [a, b] < 24 && digitsValue [c, d] < 60 &&
        match rest with
        | [] => true
        | ':' :: e :: f :: rest =>
            [e, f].all isDigit && digitsValue [e, f] ≤ 60 && isFraction rest
        | _ => false
  | _ => false

/-- A zone: `Z` or hours and minutes with a sign. -/
def isZone (cs : List Char) : Bool :=
  match cs with
  | ['Z'] => true
  | ['z'] => true
  | [s, a, b, ':', c, d] =>
      (s == '+' || s == '-') && [a, b, c, d].all isDigit && digitsValue [a, b] < 24 &&
        digitsValue [c, d] < 60
  | _ => false

/-- A day, a time of day, or both, then possibly with a zone. -/
def isDateTime (cs : List Char) : Bool :=
  isDay cs || isTime cs ||
    match cs.drop 10 with
    | [] => false
    | c :: rest =>
        let isZoneStart (c : Char) : Bool := c == 'Z' || c == 'z' || c == '+' || c == '-'
        isDay (cs.take 10) && (c == 'T' || c == 't' || c == ' ') &&
          isTime (rest.takeWhile (!isZoneStart ·)) &&
          (rest.all (!isZoneStart ·) || isZone (rest.dropWhile (!isZoneStart ·)))

/-- The word is a number, a date or a truth value. -/
def isBareValue (cs : List Char) : Bool :=
  cs = "true".toList || cs = "false".toList || isInteger cs || isFloat cs || isDateTime cs

end VaultQuery.Toml
