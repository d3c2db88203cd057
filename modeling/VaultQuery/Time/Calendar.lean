/-! # The calendar

    Days of the proleptic Gregorian calendar, year zero and negative years included:

    - `Day`: a year, a month and a day that belong together;
    - `Day.next?`, `Day.previous?`: the neighbouring days, if the calendar reaches them. -/

namespace VaultQuery

/-- Every fourth year, but of the full centuries only every fourth. -/
def isLeapYear (year : Int) : Bool :=
  year % 4 == 0 && (year % 100 != 0 || year % 400 == 0)

/-- The length of a month; numbers that name no month count as a long one. -/
def daysInMonth (year : Int) (month : Nat) : Nat :=
  if month = 2 then (if isLeapYear year then 29 else 28)
  else if month = 4 ∨ month = 6 ∨ month = 9 ∨ month = 11 then 30
  else 31

/-- A day of the years the calendar covers. -/
structure Day where
  year : Int
  month : Nat
  day : Nat
  year_mem : -262143 ≤ year ∧ year ≤ 262142
  month_mem : 1 ≤ month ∧ month ≤ 12
  day_mem : 1 ≤ day ∧ day ≤ daysInMonth year month
deriving DecidableEq

namespace Day

/-- The day with these numbers, if there is one. -/
def make? (year : Int) (month day : Nat) : Option Day :=
  if hy : -262143 ≤ year ∧ year ≤ 262142 then
    if hm : 1 ≤ month ∧ month ≤ 12 then
      if hd : 1 ≤ day ∧ day ≤ daysInMonth year month then some ⟨year, month, day, hy, hm, hd⟩
      else none
    else none
  else none

/-- The day after. -/
def next? (d : Day) : Option Day :=
  if d.day < daysInMonth d.year d.month then make? d.year d.month (d.day + 1)
  else if d.month < 12 then make? d.year (d.month + 1) 1
  else make? (d.year + 1) 1 1

/-- The day before. -/
def previous? (d : Day) : Option Day :=
  if 1 < d.day then make? d.year d.month (d.day - 1)
  else if 1 < d.month then make? d.year (d.month - 1) (daysInMonth d.year (d.month - 1))
  else make? (d.year - 1) 12 31

/-- A day is made of its own numbers. -/
@[simp] theorem make?_self (d : Day) : make? d.year d.month d.day = some d := by
  rw [make?, dif_pos d.year_mem, dif_pos d.month_mem, dif_pos d.day_mem]

end Day
end VaultQuery
