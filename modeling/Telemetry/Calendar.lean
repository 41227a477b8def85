/-!
# Dates in text

An instant, in milliseconds since the start of 1970, is written as an RFC 3339 date and time in
universal time: `2023-11-14T22:13:20.123+00:00`. Years have at least four digits and a sign outside
`0` to `9999`; a fraction is written only when it is not zero, with three digits.

Days are counted in the proleptic Gregorian calendar in eras of four hundred years, each beginning on
the first of March, so that a leap day is the last of its year.
-/

namespace Telemetry.Calendar

/-- A day of the calendar. Years are counted astronomically, the year before 1 being 0; months and days begin at 1. -/
structure Day where
  year : Int
  month : Nat
  day : Nat
  deriving DecidableEq, Repr

/-- The day that lies `days` after the first of January 1970. -/
def Day.ofEpochDays (days : Int) : Day :=
  let shifted := days + 719468
  let era := Int.fdiv shifted 146097
  let dayOfEra := (Int.fmod shifted 146097).toNat
  let yearOfEra := (dayOfEra - dayOfEra / 1460 + dayOfEra / 36524 - dayOfEra / 146096) / 365
  let dayOfYear := dayOfEra - (365 * yearOfEra + yearOfEra / 4 - yearOfEra / 100)
  let monthFromMarch := (5 * dayOfYear + 2) / 153
  let month := if monthFromMarch < 10 then monthFromMarch + 3 else monthFromMarch - 9
  { year := yearOfEra + era * 400 + if month ≤ 2 then 1 else 0
    month
    day := dayOfYear - (153 * monthFromMarch + 2) / 5 + 1 }

/-- The instants that have a date: from the year -262143 to the year 262142. -/
def hasDate (millis : Int) : Bool :=
  -8334601228800000 ≤ millis && millis ≤ 8210266876799999

/-- A number with zeros in front to make up `width` digits. -/
def padded (width n : Nat) : List Char :=
  let digits := Nat.toDigits 10 n
  List.replicate (width - digits.length) '0' ++ digits

/-- A year: four digits from 0 to 9999, and otherwise a sign and at least four digits. -/
def yearText (year : Int) : List Char :=
  if 0 ≤ year ∧ year ≤ 9999 then padded 4 year.toNat
  else (if year < 0 then '-' else '+') :: padded 4 year.natAbs

/-- An instant as RFC 3339 text. -/
def text (millis : Int) : String :=
  let day := Day.ofEpochDays (Int.fdiv millis 86400000)
  let ofDay := (Int.fmod millis 86400000).toNat
  let seconds := ofDay / 1000
  let fraction := ofDay % 1000
  String.ofList <|
    yearText day.year ++ '-' :: padded 2 day.month ++ '-' :: padded 2 day.day ++
    'T' :: padded 2 (seconds / 3600) ++ ':' :: padded 2 (seconds / 60 % 60) ++
    ':' :: padded 2 (seconds % 60) ++
    (if fraction = 0 then [] else '.' :: padded 3 fraction) ++ "+00:00".toList

/-- The text of an instant that has a date. -/
def text? (millis : Int) : Option String :=
  if hasDate millis then some (text millis) else none

end Telemetry.Calendar
