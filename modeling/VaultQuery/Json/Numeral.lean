import VaultQuery.Number.Decimal

/-! # Numbers as written in JSON

    - `Numeral`: the parts of a written number;
    - `Numeral.read?`: the grammar: no leading zeros, digits on both sides of a point;
    - `Numeral.number?`: what it means: an integer of 64 bits as it is, any other number as
      a double, computed by scaling the leading digits with one power of ten.

    Scaling rounds twice, so that a long fraction may come out one step beside the nearest
    double. -/

namespace VaultQuery.Json

open Text

/-- A written number: sign, digits before the point, digits after it, exponent. -/
structure Numeral where
  negative : Bool
  whole : List Char
  fraction : List Char
  exponent : Option Int

/-- What a written number means. -/
inductive Number where
  | integer (n : Int)
  | real (d : Double)

namespace Numeral

/-- Digits after a point, if there is one. -/
def takeFraction? : List Char → Option (List Char × List Char)
  | '.' :: cs => if (takeDigits cs).1.isEmpty then none else some (takeDigits cs)
  | cs => some ([], cs)

/-- All of the text is one number. -/
def read? (cs : List Char) : Option Numeral := do
  let (negative, cs) :=
    match cs with
    | '-' :: rest => (true, rest)
    | _ => (false, cs)
  let (whole, cs) := takeDigits cs
  if whole.isEmpty || (whole.head? == some '0' && 1 < whole.length) then none
  else
    let (fraction, cs) ← takeFraction? cs
    if cs.isEmpty then some ⟨negative, whole, fraction, none⟩
    else
      let e ← readExponent? cs
      some ⟨negative, whole, fraction, some e⟩

/-- One more than the largest number of 64 bits. -/
def wordLimit : Nat := 0x10000000000000000

/-- The digits appended to `n` as long as 64 bits hold it, and the digits left over. -/
def accumulate (n : Nat) : List Char → Nat × List Char
  | [] => (n, [])
  | c :: cs =>
      if n * 10 + digitValue c < wordLimit then accumulate (n * 10 + digitValue c) cs
      else (n, c :: cs)

/-- `n * 10 ^ e`, first `n` and then the product or quotient rounded to a double; nothing if
    that is too large. Below `10 ^ -308` the quotient is taken in two steps. -/
def scale? (n : Nat) (e : Int) : Option Double :=
  let d := Double.ofNat n
  if 308 < e then (if n = 0 then some d else none)
  else if 0 ≤ e then
    let product := d.mul (Double.ofNat (powerOfTen e.toNat))
    if product.isInfinite then none else some product
  else if -308 ≤ e then some (d.div (Double.ofNat (powerOfTen e.natAbs)))
  else if -616 ≤ e then
    some ((d.div (Double.ofNat (powerOfTen 308))).div
      (Double.ofNat (powerOfTen (e.natAbs - 308))))
  else some (Double.zero false)

/-- The double a written number means, read as a fraction; nothing if it is too large. -/
def real? (n : Numeral) : Option Double :=
  let (m, extra) := accumulate 0 n.whole
  let (m, ignored) := accumulate m n.fraction
  let e := (extra.length : Int) - (n.fraction.length - ignored.length : Nat)
    + n.exponent.getD 0
  (scale? m e).map fun d => { d with negative := n.negative }

/-- What a written number means. Without point and exponent it is an integer if 64 bits hold
    it, signed when it is negative; `-0` is the double. -/
def number? (n : Numeral) : Option Number :=
  let value := digitsValue n.whole
  if n.fraction.isEmpty && n.exponent.isNone && !n.negative && value < wordLimit then
    some (.integer value)
  else if n.fraction.isEmpty && n.exponent.isNone && n.negative && 0 < value
      && 2 * value ≤ wordLimit then
    some (.integer (-value))
  else n.real?.map .real

end Numeral
end VaultQuery.Json
