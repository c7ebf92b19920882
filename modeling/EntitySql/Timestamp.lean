/-! Instants in UTC, counted from the start of 1970, and their text in the proleptic Gregorian calendar. -/

set_option autoImplicit false

namespace EntitySql

/-- The nanoseconds of a leap second run on to two thousand million. -/
structure Timestamp where
  seconds : Int
  nanos : Nat
  deriving DecidableEq

namespace Timestamp

/-- The first second of the year -262143. -/
def earliest : Int := -8334601228800

/-- The last second of the year 262142. -/
def latest : Int := 8210266876799

/-- A leap second follows the last second of a minute. -/
def ofUnix? (seconds : Int) (nanos : Nat) : Option Timestamp :=
  if earliest ≤ seconds && seconds ≤ latest
      && (nanos < 1000000000 || nanos < 2000000000 && seconds % 60 = 59) then
    some ⟨seconds, nanos⟩
  else none

structure Date where
  year : Int
  month : Nat
  day : Nat
  deriving DecidableEq

/-- The date a number of days after the start of 1970. Years are counted from March, so that the leap
day ends its year, in eras of 400 years, which are all of one length. -/
def Date.ofDays (days : Int) : Date :=
  let shifted := days + 719468
  let era := shifted / 146097
  let dayOfEra := (shifted % 146097).toNat
  let yearOfEra := (dayOfEra - dayOfEra / 1460 + dayOfEra / 36524 - dayOfEra / 146096) / 365
  let dayOfYear := dayOfEra - (365 * yearOfEra + yearOfEra / 4 - yearOfEra / 100)
  let month := (5 * dayOfYear + 2) / 153
  let day := dayOfYear - (153 * month + 2) / 5 + 1
  if month < 10 then ⟨era * 400 + yearOfEra, month + 3, day⟩
  else ⟨era * 400 + yearOfEra + 1, month - 9, day⟩

def padded (width n : Nat) : String :=
  String.ofList (List.leftpad width '0' (Nat.toDigits 10 n))

def yearText (year : Int) : String :=
  if 0 ≤ year && year ≤ 9999 then padded 4 year.toNat
  else (if year < 0 then "-" else "+") ++ padded 4 year.natAbs

/-- The shortest of three, six and nine digits that is exact, or nothing at all. -/
def fractionText (nanos : Nat) : String :=
  if nanos = 0 then ""
  else if nanos % 1000000 = 0 then "." ++ padded 3 (nanos / 1000000)
  else if nanos % 1000 = 0 then "." ++ padded 6 (nanos / 1000)
  else "." ++ padded 9 nanos

/-- Date and time, followed by `zone`, one of the ways to write the offset of UTC. A leap second is the
second 60 of its minute. -/
def text (zone : String) (t : Timestamp) : String :=
  let date := Date.ofDays (t.seconds / 86400)
  let second := (t.seconds % 86400).toNat
  let leap := t.nanos / 1000000000
  yearText date.year ++ "-" ++ padded 2 date.month ++ "-" ++ padded 2 date.day
    ++ "T" ++ padded 2 (second / 3600) ++ ":" ++ padded 2 (second / 60 % 60)
    ++ ":" ++ padded 2 (second % 60 + leap) ++ fractionText (t.nanos % 1000000000) ++ zone

def literalZone : String := "+00:00"

def documentZone : String := "Z"

end Timestamp

end EntitySql
