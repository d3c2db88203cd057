import VaultQuery.Time.Instant

/-! # Counted time

    Instants counted from the beginning of 1970 in universal time, as system clocks count
    them:

    - `Day.ofEpochDay?`: the day after so many days;
    - `Instant.ofEpochNanoseconds?`: the instant after so many nanoseconds. -/

namespace VaultQuery

/-- The day `n` days after the first of January 1970. Days are counted from the first of March
    of the year zero in cycles of 400 years, so that a leap day ends its year. -/
def Day.ofEpochDay? (n : Int) : Option Day :=
  let shifted := n + 719468
  let cycle := shifted / 146097
  let dayOfCycle := (shifted % 146097).toNat
  let yearOfCycle :=
    (dayOfCycle - dayOfCycle / 1460 + dayOfCycle / 36524 - dayOfCycle / 146096) / 365
  let dayOfYear := dayOfCycle - (365 * yearOfCycle + yearOfCycle / 4 - yearOfCycle / 100)
  let marchMonth := (5 * dayOfYear + 2) / 153
  let day := dayOfYear - (153 * marchMonth + 2) / 5 + 1
  let month := if marchMonth < 10 then marchMonth + 3 else marchMonth - 9
  let year := cycle * 400 + yearOfCycle + (if month ≤ 2 then 1 else 0)
  make? year month day

/-- The instant `n` nanoseconds after the beginning of 1970. -/
def Instant.ofEpochNanoseconds? (n : Int) : Option Instant :=
  let seconds := n / 1000000000
  (Day.ofEpochDay? (seconds / 86400)).bind fun d =>
    make? d (seconds % 86400).toNat (n % 1000000000).toNat

end VaultQuery
