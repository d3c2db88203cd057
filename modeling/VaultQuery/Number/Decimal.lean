import VaultQuery.Number.Double
import VaultQuery.Text.Blank

/-! # Decimal numbers

    Numbers in positional or scientific notation and the doubles they stand for:

    - `digitsValue`: the natural number a row of digits stands for;
    - `Decimal`: a whole number times a power of ten;
    - `Decimal.nearest`: the double nearest to it;
    - `readDouble?`: the finite double a text spells, blanks at its edges allowed. -/

namespace VaultQuery

namespace Text

/-- The digits `0` to `9`. -/
def isDigit (c : Char) : Bool := '0' ≤ c && c ≤ '9'

/-- The value of a digit. -/
def digitValue (c : Char) : Nat := c.toNat - '0'.toNat

/-- The natural number written by a row of digits; the empty row stands for zero. -/
def digitsValue (ds : List Char) : Nat := ds.foldl (fun n c => 10 * n + digitValue c) 0

/-- The leading digits and what follows them. -/
def takeDigits (cs : List Char) : List Char × List Char :=
  (cs.takeWhile isDigit, cs.dropWhile isDigit)

/-- A leading `+` or `-` and what follows; the flag tells a minus. -/
def takeSign : List Char → Bool × List Char
  | '-' :: cs => (true, cs)
  | '+' :: cs => (false, cs)
  | cs => (false, cs)

/-- An exponent at the very end: `e` or `E`, an optional sign, digits. Nothing at all is the
    exponent zero. -/
def readExponent? : List Char → Option Int
  | [] => some 0
  | c :: cs =>
      if c = 'e' ∨ c = 'E' then
        let (negative, cs) := takeSign cs
        let (ds, rest) := takeDigits cs
        if ds.isEmpty || !rest.isEmpty then none
        else some (if negative then -(digitsValue ds : Int) else digitsValue ds)
      else none

end Text

/-- Ten to the power `n`. -/
def powerOfTen (n : Nat) : Nat := Nat.pow 10 n

/-- The number `digits * 10 ^ exponent`, with a sign. -/
structure Decimal where
  negative : Bool
  digits : Nat
  exponent : Int

namespace Decimal

/-- One more than the exponent of the leading digit. -/
def pointPosition (d : Decimal) : Int := (Nat.toDigits 10 d.digits).length + d.exponent

/-- The double nearest to a decimal. What lies past `10 ^ 310` is past every double and what
    lies below `10 ^ -330` is nearest to zero, so that no larger power is ever formed. -/
def nearest (d : Decimal) : Double :=
  if d.digits = 0 then Double.zero d.negative
  else if 310 < d.pointPosition then Double.infinity d.negative
  else if d.pointPosition < -330 then Double.zero d.negative
  else if 0 ≤ d.exponent then
    Double.nearest d.negative (d.digits * powerOfTen d.exponent.toNat) 1
  else Double.nearest d.negative d.digits (powerOfTen d.exponent.natAbs)

/-- An optional sign, digits with an optional point among them, an optional exponent. There
    is at least one digit before the exponent. -/
def read? (cs : List Char) : Option Decimal :=
  let (negative, cs) := Text.takeSign cs
  let (whole, cs) := Text.takeDigits cs
  let (fraction, cs) :=
    match cs with
    | '.' :: rest => Text.takeDigits rest
    | _ => ([], cs)
  if whole.isEmpty && fraction.isEmpty then none
  else
    (Text.readExponent? cs).map fun e =>
      ⟨negative, Text.digitsValue (whole ++ fraction), e - fraction.length⟩

end Decimal

/-- The finite double that a text spells, blanks at its edges aside. -/
def readDouble? (s : String) : Option Double :=
  match Decimal.read? (Text.trimChars s.toList) with
  | some d => if d.nearest.isFinite then some d.nearest else none
  | none => none

/-- The truth value that a text spells, blanks at its edges aside. -/
def readBool? (s : String) : Option Bool :=
  let cs := Text.trimChars s.toList
  if cs = "true".toList then some true
  else if cs = "false".toList then some false
  else none

end VaultQuery
