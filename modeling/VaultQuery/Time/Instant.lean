import VaultQuery.Time.Calendar

/-! # Instants

    Points in universal time to the nanosecond, leap seconds included.

    - `Instant`: a day, the second of the day and the nanosecond; a leap second is the last
      second of its minute with a nanosecond past `10 ^ 9`;
    - `Instant.compare`: their order, that of their keys;
    - `Instant.ofFields?`: the instant of a clock reading at some distance from universal
      time;
    - `key_injective`: instants with one key are one instant. -/

namespace VaultQuery

/-- A point in universal time. -/
structure Instant where
  day : Day
  second : Nat
  nanosecond : Nat
  second_lt : second < 86400
  nanosecond_lt : nanosecond < 2000000000
  leap_mem : 1000000000 ≤ nanosecond → second % 60 = 59
deriving DecidableEq

namespace Instant

/-- The instant with these numbers, if there is one. -/
def make? (day : Day) (second nanosecond : Nat) : Option Instant :=
  if hs : second < 86400 then
    if hn : nanosecond < 2000000000 then
      if hl : 1000000000 ≤ nanosecond → second % 60 = 59 then
        some ⟨day, second, nanosecond, hs, hn, hl⟩
      else none
    else none
  else none

/-- The numbers of an instant as one number in mixed radix: the order of instants is that
    of their keys. -/
def key (t : Instant) : Int :=
  (((t.day.year * 13 + t.day.month) * 32 + t.day.day) * 86400 + t.second) * 2000000000
    + t.nanosecond

/-- Earlier instants are less. -/
def compare (a b : Instant) : Ordering := Ord.compare a.key b.key

/-- The second within the minute; `60` in a leap second. -/
def clockSecond (t : Instant) : Nat :=
  if t.nanosecond < 1000000000 then t.second % 60 else 60

/-- The instant of a clock reading that is `offset` seconds ahead of universal time. A
    `second` of `60` is a leap second. -/
def ofFields? (year : Int) (month day hour minute second nanosecond : Nat) (offset : Int) :
    Option Instant :=
  if hour < 24 ∧ minute < 60 ∧ second ≤ 60 ∧ nanosecond < 1000000000 then
    let leap := if second = 60 then 1000000000 else 0
    let s : Int := (hour * 3600 + minute * 60 + min second 59 : Nat) - offset
    (Day.make? year month day).bind fun d =>
      let shifted :=
        if s < 0 then d.previous?
        else if s < 86400 then some d
        else d.next?
      shifted.bind fun d => make? d (s % 86400).toNat (nanosecond + leap)
  else none

theorem day_le_31 (d : Day) : d.day ≤ 31 := by
  have h := d.day_mem.2
  have hm : daysInMonth d.year d.month ≤ 31 := by
    rw [daysInMonth]
    split
    · split <;> decide
    · split <;> decide
  exact Nat.le_trans h hm

/-- Instants with one key are one instant. -/
theorem key_injective {a b : Instant} (h : a.key = b.key) : a = b := by
  have ha := day_le_31 a.day
  have hb := day_le_31 b.day
  obtain ⟨⟨ya, ma, da, hya, hma, hda⟩, sa, na, hsa, hna, hla⟩ := a
  obtain ⟨⟨yb, mb, db, hyb, hmb, hdb⟩, sb, nb, hsb, hnb, hlb⟩ := b
  simp only [key] at h ha hb
  have hn : na = nb := by omega
  have hs : sa = sb := by omega
  have hd : da = db := by omega
  have hm : ma = mb := by omega
  have hy : ya = yb := by omega
  subst hn hs hd hm hy
  rfl

end Instant
end VaultQuery
