import VaultQuery.Time.Instant

/-! # Written instants

    The internet date format: `2024-05-17T10:20:30.500` and a zone. Fractions have as many
    digits as needed out of none, three, six and nine; years of more than four digits and
    negative years are signed.

    - `Instant.withOffset`: the zone as `+00:00`, the form text operators see;
    - `Instant.withZulu`: the zone as `Z`, the form in files. -/

namespace VaultQuery

/-- The digits of a number with leading zeros up to a width. -/
def padded (width n : Nat) : List Char :=
  let ds := Nat.toDigits 10 n
  List.replicate (width - ds.length) '0' ++ ds

/-- A year of four digits; other years are signed. -/
def yearText (year : Int) : List Char :=
  if 0 ≤ year ∧ year ≤ 9999 then padded 4 year.toNat
  else (if year < 0 then '-' else '+') :: padded 4 year.natAbs

/-- A fraction of a second given in nanoseconds. -/
def fractionText (nanosecond : Nat) : List Char :=
  if nanosecond = 0 then []
  else if nanosecond % 1000000 = 0 then '.' :: padded 3 (nanosecond / 1000000)
  else if nanosecond % 1000 = 0 then '.' :: padded 6 (nanosecond / 1000)
  else '.' :: padded 9 nanosecond

namespace Instant

/-- Day and time without a zone. -/
def localText (t : Instant) : List Char :=
  yearText t.day.year ++ '-' :: padded 2 t.day.month ++ '-' :: padded 2 t.day.day ++
    'T' :: padded 2 (t.second / 3600) ++ ':' :: padded 2 (t.second / 60 % 60) ++
    ':' :: padded 2 t.clockSecond ++ fractionText (t.nanosecond % 1000000000)

/-- Day and time with the zone `+00:00`. -/
def withOffset (t : Instant) : String := String.ofList (t.localText ++ "+00:00".toList)

/-- Day and time with the zone `Z`. -/
def withZulu (t : Instant) : String := String.ofList (t.localText ++ ['Z'])

end Instant
end VaultQuery
