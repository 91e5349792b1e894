import EntryCode.Text.Number

/-!
Universal time. Days are counted from the first of January 1970 in the Gregorian calendar.
-/

namespace EntryCode.Calendar

structure Date where
  year : Int
  month : Nat
  day : Nat
  deriving DecidableEq, Repr

/-- The date of a day. Years are counted from March, so that a leap day is the last one of its year;
four centuries have 146097 days. -/
def dateOfDay (day : Int) : Date :=
  let shifted := day + 719468
  let era := shifted / 146097
  let dayOfEra := shifted % 146097
  let yearOfEra := (dayOfEra - dayOfEra / 1460 + dayOfEra / 36524 - dayOfEra / 146096) / 365
  let dayOfYear := dayOfEra - (365 * yearOfEra + yearOfEra / 4 - yearOfEra / 100)
  let month := (5 * dayOfYear + 2) / 153
  let year := yearOfEra + 400 * era
  { year := if month < 10 then year else year + 1
    month := (if month < 10 then month + 3 else month - 9).toNat
    day := (dayOfYear - (153 * month + 2) / 5 + 1).toNat }

def padded (width n : Nat) : String :=
  let digits := Nat.toDigits 10 n
  String.ofList (List.replicate (width - digits.length) '0' ++ digits)

/-- The first moment that is counted: the beginning of March in a year that four hundred divides. -/
def firstMoment : Int := -9223372028741760000

/-- The moment among those counted for a number of seconds; after the last one the first follows. -/
def momentOf (seconds : Int) : Int :=
  firstMoment + (seconds - firstMoment) % 0x10000000000000000

/-- A moment in seconds of Unix time as a date and a time of day. -/
def timestamp (unixSeconds : Int) : String :=
  let seconds := momentOf unixSeconds
  let date := dateOfDay (seconds / 86400)
  let second := (seconds % 86400).toNat
  let year := (if date.year < 0 then "-" else "") ++ padded 4 date.year.natAbs
  s!"{year}-{padded 2 date.month}-{padded 2 date.day}T{padded 2 (second / 3600)}:" ++
    s!"{padded 2 (second / 60 % 60)}:{padded 2 (second % 60)}Z"

end EntryCode.Calendar
