import VaultQuery.Number.Shortest

/-! # Number texts

    How a double is written. Three layouts share the digits of `Double.shortest`:

    - `Layout.plain`: what the text operators see, always positional;
    - `Layout.json`: always recognisable as a fractional number, `5.0` or `1e+21`;
    - `Layout.yaml`: the same without the plus, and with names for what is not finite. -/

namespace VaultQuery

/-- How numbers are written. -/
structure Layout where
  /-- Which of two decimals at the same distance is taken. -/
  tie : Tie
  /-- Whether a number whose point stands after that many digits has no exponent. -/
  positional : Int → Bool
  /-- What follows a positional whole number. -/
  wholeMark : String
  /-- The sign of exponents that are not negative. -/
  exponentPlus : String
  /-- Negative zero keeps its sign. -/
  signedZero : Bool
  /-- The texts of NaN, infinity and negative infinity. -/
  nan : String
  infinity : String
  negativeInfinity : String

namespace Layout

/-- The form the text operators see: never an exponent, whole numbers without a point. -/
def plain : Layout where
  tie := .up
  positional _ := true
  wholeMark := ""
  exponentPlus := ""
  signedZero := false
  nan := "NaN"
  infinity := "inf"
  negativeInfinity := "-inf"

/-- The form in JSON: an exponent from `10 ^ 16` up and below `10 ^ -5`, and `null` for what
    JSON cannot write. -/
def json : Layout where
  tie := .even
  positional point := -5 < point && point ≤ 16
  wholeMark := ".0"
  exponentPlus := "+"
  signedZero := true
  nan := "null"
  infinity := "null"
  negativeInfinity := "null"

/-- The form in YAML: as in JSON, without a plus in exponents. -/
def yaml : Layout where
  tie := .even
  positional point := -5 < point && point ≤ 16
  wholeMark := ".0"
  exponentPlus := ""
  signedZero := true
  nan := ".nan"
  infinity := ".inf"
  negativeInfinity := "-.inf"

/-- The digits of a decimal without trailing zeros, at least one. -/
def significantDigits (d : Decimal) : List Char :=
  if d.digits = 0 then ['0']
  else ((Nat.toDigits 10 d.digits).reverse.dropWhile (· == '0')).reverse

/-- Digits written positionally, the point standing after `point` of them. -/
def positionalText (wholeMark : String) (ds : List Char) (point : Int) : List Char :=
  if point ≤ 0 then '0' :: '.' :: List.replicate point.natAbs '0' ++ ds
  else if ds.length ≤ point.toNat then
    ds ++ List.replicate (point.toNat - ds.length) '0' ++ wholeMark.toList
  else ds.take point.toNat ++ '.' :: ds.drop point.toNat

/-- Digits written with one of them before the point and an exponent. -/
def scientificText (exponentPlus : String) (ds : List Char) (exponent : Int) : List Char :=
  let fraction := if ds.length ≤ 1 then [] else '.' :: ds.drop 1
  let sign := if exponent < 0 then ['-'] else exponentPlus.toList
  ds.take 1 ++ fraction ++ 'e' :: sign ++ Nat.toDigits 10 exponent.natAbs

/-- The text of a finite number without its sign. -/
def unsignedText (l : Layout) (d : Double) : List Char :=
  let c := d.shortest l.tie
  let ds := significantDigits c
  let point := c.pointPosition
  if l.positional point then positionalText l.wholeMark ds point
  else scientificText l.exponentPlus ds (point - 1)

/-- The text of a number. -/
def write (l : Layout) (d : Double) : String :=
  if d.isNaN then l.nan
  else if d.isInfinite then (if d.negative then l.negativeInfinity else l.infinity)
  else if d.negative && (l.signedZero || d.magnitude != 0) then
    String.ofList ('-' :: l.unsignedText d)
  else String.ofList (l.unsignedText d)

end Layout
end VaultQuery
