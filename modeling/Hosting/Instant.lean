/-! # Instants

    Points in time, as seconds from the start of 1970 in UTC and nanoseconds within the
    second. A leap second is counted as more nanoseconds of the second before it, and is
    written as second 60. The written form is that of RFC 3339, with as few digits of the
    fraction in groups of three as are exact, and with a sign where the year does not have
    four digits.

    - `civil` is the calendar date of a day count, by eras of 400 years.
-/

namespace Hosting

/-- A point in time. -/
structure Instant where
  seconds : Int
  /-- Below `10 ^ 9`, or below twice that within the leap second that follows `seconds`. -/
  nanos : Nat
deriving DecidableEq, Repr

namespace Instant

/-- At least `width` decimal digits. -/
def padded (width n : Nat) : String :=
  let ds := Nat.toDigits 10 n
  .ofList (List.replicate (width - ds.length) '0' ++ ds)

/-- Year, month and day of the day that lies `days` after the first of 1970. The year is counted
    from March, so that a leap day comes last. -/
def civil (days : Int) : Int × Nat × Nat :=
  let z := days + 719468
  let era := z.fdiv 146097
  let dayOfEra := (z.fmod 146097).toNat
  let yearOfEra := (dayOfEra - dayOfEra / 1460 + dayOfEra / 36524 - dayOfEra / 146096) / 365
  let dayOfYear := dayOfEra - (365 * yearOfEra + yearOfEra / 4 - yearOfEra / 100)
  let month := (5 * dayOfYear + 2) / 153
  let day := dayOfYear - (153 * month + 2) / 5 + 1
  let civilMonth := if month < 10 then month + 3 else month - 9
  let year := era * 400 + yearOfEra + if civilMonth ≤ 2 then 1 else 0
  (year, civilMonth, day)

/-- A year of four digits, or a longer or negative one with its sign. -/
def yearText (year : Int) : String :=
  if 0 ≤ year ∧ year ≤ 9999 then padded 4 year.toNat
  else (if year < 0 then "-" else "+") ++ padded 4 year.natAbs

/-- The fraction of the second with its point: none, or 3, 6 or 9 digits. -/
def fractionText (nanos : Nat) : String :=
  if nanos = 0 then ""
  else if nanos % 1000000 = 0 then "." ++ padded 3 (nanos / 1000000)
  else if nanos % 1000 = 0 then "." ++ padded 6 (nanos / 1000)
  else "." ++ padded 9 nanos

/-- The day, and the hour, minute and second within it. -/
def parts (t : Instant) : (Int × Nat × Nat) × Nat × Nat × Nat :=
  let second := (t.seconds.fmod 86400).toNat
  let leap := if t.nanos < 1000000000 then 0 else 1
  (civil (t.seconds.fdiv 86400), second / 3600, second / 60 % 60, second % 60 + leap)

/-- The written form, in UTC. -/
def text (t : Instant) : String :=
  let ((year, month, day), hour, minute, second) := t.parts
  yearText year ++ "-" ++ padded 2 month ++ "-" ++ padded 2 day ++ "T" ++ padded 2 hour ++ ":" ++
    padded 2 minute ++ ":" ++ padded 2 second ++ fractionText (t.nanos % 1000000000) ++ "+00:00"

/-- The written form for people: date and time to the second. -/
def plainText (t : Instant) : String :=
  let ((year, month, day), hour, minute, second) := t.parts
  yearText year ++ "-" ++ padded 2 month ++ "-" ++ padded 2 day ++ " " ++ padded 2 hour ++ ":" ++
    padded 2 minute ++ ":" ++ padded 2 second

end Instant

end Hosting
