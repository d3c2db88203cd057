import VaultQuery.Time.Instant
import VaultQuery.Number.Decimal

/-! # Reading instants

    - `Instant.read?`: what counts as a date in a text: the strict internet format, a day
      with a time, or a day alone, the last two taken as universal time;
    - `Instant.readLenient?`: the times of a document, where blanks may stand around the
      parts, years may be signed and the zone may be `UTC`. -/

namespace VaultQuery

namespace Text

/-- The number that `least` up to `most` leading digits spell. -/
def takeNumber? (least most : Nat) (cs : List Char) : Option (Nat × List Char) :=
  let ds := (cs.take most).takeWhile isDigit
  if ds.length < least then none else some (digitsValue ds, cs.drop ds.length)

/-- What follows the given character. -/
def skip? (c : Char) : List Char → Option (List Char)
  | [] => none
  | d :: cs => if d = c then some cs else none

end Text

namespace Instant

open Text

/-- The nine leading digits of a fraction as nanoseconds; further digits are passed over. -/
def takeFraction? (cs : List Char) : Option (Nat × List Char) :=
  let ds := (takeDigits cs).1
  if ds.isEmpty then none
  else
    let kept := ds.take 9
    some (digitsValue kept * powerOfTen (9 - kept.length), (takeDigits cs).2)

/-- A point with a fraction, if there is a point. -/
def takeNanosecond? : List Char → Option (Nat × List Char)
  | '.' :: cs => takeFraction? cs
  | cs => some (0, cs)

/-- Hours and minutes ahead of universal time in seconds; `separator` passes over what
    stands between them. -/
def takeOffset? (separator : List Char → Option (List Char)) (cs : List Char) :
    Option (Int × List Char) :=
  match cs with
  | [] => none
  | c :: cs =>
      if c = 'Z' ∨ c = 'z' then some (0, cs)
      else if c = '+' ∨ c = '-' ∨ c = '−' then do
        let (hours, cs) ← takeNumber? 2 2 cs
        let cs ← separator cs
        let (minutes, cs) ← takeNumber? 2 2 cs
        if minutes < 60 ∧ hours < 24 then
          let seconds : Int := (hours * 3600 + minutes * 60 : Nat)
          some (if c = '+' then seconds else -seconds, cs)
        else none
      else none

/-- The strict internet format, all of the text. -/
def readStrict? (cs : List Char) : Option Instant := do
  let (year, cs) ← takeNumber? 4 4 cs
  let cs ← skip? '-' cs
  let (month, cs) ← takeNumber? 2 2 cs
  let cs ← skip? '-' cs
  let (day, cs) ← takeNumber? 2 2 cs
  let cs ← (skip? 'T' cs).or ((skip? 't' cs).or (skip? ' ' cs))
  let (hour, cs) ← takeNumber? 2 2 cs
  let cs ← skip? ':' cs
  let (minute, cs) ← takeNumber? 2 2 cs
  let cs ← skip? ':' cs
  let (second, cs) ← takeNumber? 2 2 cs
  let (nanosecond, cs) ← takeNanosecond? cs
  let (offset, cs) ← takeOffset? (skip? ':') cs
  if cs.isEmpty then ofFields? year month day hour minute second nanosecond offset else none

/-- One or two digits after blanks. -/
def takeTwo? (cs : List Char) : Option (Nat × List Char) := takeNumber? 1 2 (trimLeft cs)

/-- A year after blanks: up to four digits, or a sign and any number of digits. -/
def takeYear? (cs : List Char) : Option (Int × List Char) :=
  match trimLeft cs with
  | '-' :: cs => (takeNumber? 1 cs.length cs).map fun (n, cs) => (-(n : Int), cs)
  | '+' :: cs => (takeNumber? 1 cs.length cs).map fun (n, cs) => ((n : Int), cs)
  | cs => (takeNumber? 1 4 cs).map fun (n, cs) => ((n : Int), cs)

/-- A day alone, all of the text; the instant is its midnight. -/
def readDay? (cs : List Char) : Option Instant := do
  let (year, cs) ← takeYear? cs
  let cs ← skip? '-' cs
  let (month, cs) ← takeTwo? cs
  let cs ← skip? '-' cs
  let (day, cs) ← takeTwo? cs
  if cs.isEmpty then ofFields? year month day 0 0 0 0 0 else none

/-- A day and a time without a zone, all of the text. -/
def readDayTime? (cs : List Char) : Option Instant := do
  let (year, cs) ← takeYear? cs
  let cs ← skip? '-' cs
  let (month, cs) ← takeTwo? cs
  let cs ← skip? '-' cs
  let (day, cs) ← takeTwo? cs
  let cs ← skip? 'T' cs
  let (hour, cs) ← takeTwo? cs
  let cs ← skip? ':' cs
  let (minute, cs) ← takeTwo? cs
  let cs ← skip? ':' cs
  let (second, cs) ← takeTwo? cs
  if cs.isEmpty then ofFields? year month day hour minute second 0 0 else none

/-- The instant that a text spells, blanks at its edges aside. -/
def read? (s : String) : Option Instant :=
  let cs := trimChars s.toList
  (readStrict? cs).or ((readDayTime? cs).or (readDay? cs))

/-- Colons and blanks are passed over. -/
def skipColonsAndBlanks (cs : List Char) : Option (List Char) :=
  some (cs.dropWhile fun c => c == ':' || isBlank c)

/-- A zone: `UTC` in any case, or as in the strict format with blanks or nothing in place of
    the colon. -/
def takeZone? (cs : List Char) : Option (Int × List Char) :=
  if (cs.take 3).map Char.toUpper = ['U', 'T', 'C'] then some (0, cs.drop 3)
  else takeOffset? skipColonsAndBlanks cs

/-- Day, time and zone with blanks between the parts, all of the text. -/
def readLenient? (cs : List Char) : Option Instant := do
  let (year, cs) ← takeYear? cs
  let cs ← skip? '-' (trimLeft cs)
  let (month, cs) ← takeTwo? cs
  let cs ← skip? '-' (trimLeft cs)
  let (day, cs) ← takeTwo? cs
  let cs ← (skip? 'T' cs).or ((skip? 't' cs).or (skip? ' ' cs))
  let (hour, cs) ← takeTwo? cs
  let cs ← skip? ':' (trimLeft cs)
  let (minute, cs) ← takeTwo? cs
  let cs ← skip? ':' (trimLeft cs)
  let (second, cs) ← takeTwo? cs
  let (nanosecond, cs) ← takeNanosecond? cs
  let (offset, cs) ← takeZone? (trimLeft cs)
  if (trimLeft cs).isEmpty then
    ofFields? year month day hour minute second nanosecond offset
  else none

end Instant
end VaultQuery
