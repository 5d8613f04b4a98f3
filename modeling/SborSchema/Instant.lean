/-
# Instants

An instant is a whole second counted from the start of 1970, inside the years
that the calendar covers. It is written as date and time of day in universal
time. Days are counted in eras of four hundred years that start in March, so
that the leap day is the last day of its year.

Key definitions: `Instant`, `Instant.ofSeconds?`, `Instant.text`, `Instant.shortText`.
-/
import SborSchema.Digits

namespace SborSchema

/-- A second of the calendar, counted from the start of 1970. -/
structure Instant where
  seconds : Int
  inCalendar : -8334601228800 ≤ seconds ∧ seconds ≤ 8210266876799
deriving DecidableEq, Repr

/-- A day of the calendar. -/
structure CivilDate where
  year : Int
  month : Nat
  day : Nat
deriving DecidableEq, Repr

/-- The date that lies `days` days after the first of January 1970. -/
def CivilDate.ofDays (days : Int) : CivilDate :=
  let shifted := days + 719468
  let era := shifted.fdiv 146097
  let dayOfEra := (shifted.fmod 146097).toNat
  let yearOfEra :=
    (dayOfEra - dayOfEra / 1460 + dayOfEra / 36524 - dayOfEra / 146096) / 365
  let dayOfYear := dayOfEra - (365 * yearOfEra + yearOfEra / 4 - yearOfEra / 100)
  let monthFromMarch := (5 * dayOfYear + 2) / 153
  let month := if monthFromMarch < 10 then monthFromMarch + 3 else monthFromMarch - 9
  let year : Int := yearOfEra + era * 400
  { year := if month ≤ 2 then year + 1 else year
    month := month
    day := dayOfYear - (153 * monthFromMarch + 2) / 5 + 1 }

/-- A year: four digits, with a sign when it needs more or is negative. -/
def CivilDate.yearChars (year : Int) : List Char :=
  if 0 ≤ year ∧ year ≤ 9999 then Digits.padded 4 year.toNat
  else (if year < 0 then '-' else '+') :: Digits.padded 4 year.natAbs

namespace Instant

/-- The instant of a count of seconds, if the calendar covers it. -/
def ofSeconds? (seconds : Int) : Option Instant :=
  if h : -8334601228800 ≤ seconds ∧ seconds ≤ 8210266876799 then some ⟨seconds, h⟩ else none

/-- Date and time of day, with `T` between them. -/
def chars (t : Instant) : List Char :=
  let date := CivilDate.ofDays (t.seconds.fdiv 86400)
  let second := (t.seconds.fmod 86400).toNat
  CivilDate.yearChars date.year ++ '-' :: Digits.padded 2 date.month ++
    '-' :: Digits.padded 2 date.day ++ 'T' :: Digits.padded 2 (second / 3600) ++
    ':' :: Digits.padded 2 (second / 60 % 60) ++ ':' :: Digits.padded 2 (second % 60)

/-- The written form with the offset of universal time in digits. -/
def text (t : Instant) : String := String.ofList (t.chars ++ "+00:00".toList)

/-- The written form with the letter of universal time. -/
def shortText (t : Instant) : String := String.ofList (t.chars ++ ['Z'])

end Instant

end SborSchema
