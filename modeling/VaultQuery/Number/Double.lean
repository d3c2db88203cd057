/-! # Double-precision numbers

    The numbers of the vault are IEEE 754 doubles, held as a sign and the other 63 bits, so
    that signed zeros, infinities and every NaN stay apart.

    - `Double`: sign and magnitude bits;
    - `Double.equal`, `Double.compare?`: numeric equality and order, in which the two zeros
      are one number and a NaN has no place;
    - `Double.totalCompare`: the total order on the bits, negative NaNs first;
    - `Double.nearest`: the double nearest to a quotient of naturals, ties to even. -/

namespace VaultQuery

/-- The weight of the sign bit: magnitudes are less. -/
def signWeight : Nat := 0x8000000000000000

/-- The weight of the lowest exponent bit: what stands below belongs to the fraction. -/
def exponentWeight : Nat := 0x10000000000000

/-- The magnitude bits of infinity: all ones in the exponent, zeros below. -/
def infinityMagnitude : Nat := 0x7FF0000000000000

/-- How many units make one: every finite double is a whole number of units of `2 ^ -1074`,
    the least positive double. -/
def unitsPerOne : Nat := 1 <<< 1074

/-- A double by its sign and its other 63 bits. -/
structure Double where
  negative : Bool
  magnitude : Nat
  magnitude_lt : magnitude < signWeight
deriving DecidableEq

namespace Double

/-- The double with these 64 bits; higher bits are dropped. -/
def ofBits (bits : Nat) : Double where
  negative := bits / signWeight % 2 == 1
  magnitude := bits % signWeight
  magnitude_lt := Nat.mod_lt _ (by decide)

/-- The 64 bits. -/
def toBits (d : Double) : Nat := (if d.negative then signWeight else 0) + d.magnitude

def isNaN (d : Double) : Bool := infinityMagnitude < d.magnitude

def isInfinite (d : Double) : Bool := d.magnitude == infinityMagnitude

def isFinite (d : Double) : Bool := d.magnitude < infinityMagnitude

theorem isNaN_eq_false_of_isFinite {d : Double} (h : d.isFinite = true) : d.isNaN = false :=
  decide_eq_false (Nat.lt_asymm (of_decide_eq_true h))

theorem isInfinite_eq_false_of_isFinite {d : Double} (h : d.isFinite = true) :
    d.isInfinite = false :=
  beq_eq_false_iff_ne.mpr (Nat.ne_of_lt (of_decide_eq_true h))

/-- The exponent bits. -/
def exponentBits (d : Double) : Nat := d.magnitude / exponentWeight

/-- The whole number `m` of the value `m * 2 ^ (exponentBits - 1075)`; without exponent
    bits the leading one is missing and the exponent is that of the least normal numbers. -/
def significand (d : Double) : Nat :=
  if d.exponentBits = 0 then d.magnitude
  else exponentWeight + d.magnitude % exponentWeight

/-- The exponent counted from the least one: a finite double, without its sign, has
    `significand * 2 ^ scale` units. -/
def scale (d : Double) : Nat := d.exponentBits - 1

/-- The number of units of a finite double without its sign. -/
def units (d : Double) : Nat := d.significand <<< d.scale

/-- The key of the numeric order: the two zeros share it. -/
def key (d : Double) : Int := if d.negative then -(d.magnitude : Int) else d.magnitude

/-- The key of the total order: negative zero comes right before zero. -/
def totalKey (d : Double) : Int := if d.negative then -(d.magnitude : Int) - 1 else d.magnitude

/-- Numeric equality: a NaN equals nothing. -/
def equal (a b : Double) : Bool := !a.isNaN && !b.isNaN && a.key == b.key

/-- Numeric order: a NaN has no place in it. -/
def compare? (a b : Double) : Option Ordering :=
  if a.isNaN || b.isNaN then none else some (compare a.key b.key)

/-- The order of all doubles by their bits. -/
def totalCompare (a b : Double) : Ordering := compare a.totalKey b.totalKey

/-- The quotient as a whole number, a half rounded to the even neighbour. -/
def divideToEven (num den : Nat) : Nat :=
  let q := num / den
  let r := num % den
  if 2 * r < den then q
  else if den < 2 * r then q + 1
  else if q % 2 = 0 then q else q + 1

/-- The least exponent, counted like `scale`, at which `num / den` has no more than 53 binary
    digits before the point. -/
def fittingScale (num den : Nat) : Nat := (num * unitsPerOne / den).log2 - 52

/-- The magnitude bits of the double nearest to `num / den`, ties to even; from half a step
    past the largest double on this is infinity. -/
def nearestMagnitude (num den : Nat) : Nat :=
  let s := fittingScale num den
  min infinityMagnitude (s * exponentWeight + divideToEven (num * unitsPerOne) (den <<< s))

theorem nearestMagnitude_lt (num den : Nat) : nearestMagnitude num den < signWeight :=
  Nat.lt_of_le_of_lt (Nat.min_le_left ..) (by decide)

/-- The double nearest to `num / den` with the given sign. -/
def nearest (negative : Bool) (num den : Nat) : Double :=
  ⟨negative, nearestMagnitude num den, nearestMagnitude_lt num den⟩

/-- The double nearest to a natural number. -/
def ofNat (n : Nat) : Double := nearest false n 1

/-- The double nearest to an integer. -/
def ofInt (n : Int) : Double := nearest (n < 0) n.natAbs 1

/-- Zero with a sign. -/
def zero (negative : Bool) : Double := ⟨negative, 0, by decide⟩

/-- Infinity with a sign. -/
def infinity (negative : Bool) : Double := ⟨negative, infinityMagnitude, by decide⟩

/-- The largest finite double, a natural number. -/
def largestFinite : Nat := 0x1FFFFFFFFFFFFF <<< 971

/-- The product, rounded to nearest. -/
def mul (a b : Double) : Double :=
  nearest (a.negative != b.negative) (a.units * b.units) (unitsPerOne * unitsPerOne)

/-- The quotient of finite doubles, rounded to nearest; the divisor is not zero. -/
def div (a b : Double) : Double :=
  nearest (a.negative != b.negative) a.units b.units

end Double
end VaultQuery
