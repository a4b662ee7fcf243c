import UsagePolicy.Number.Double
import UsagePolicy.Text.Basic

/-!
# Times of log records

A time is a number of seconds since the beginning of 1970. It is written as a date and a time of day
in universal time, with microseconds unless they are zero; years from 1 to 9999 can be written.
-/

namespace UsagePolicy

/-- A time in whole seconds and microseconds. -/
structure Timestamp where
  seconds : Int
  micros : Nat
deriving DecidableEq

/-- Why a number of seconds has no date. -/
inductive TimestampFlaw
  | notANumber
  | outOfRange
  | overflow
  | year (y : Int)
deriving DecidableEq

/-- A calendar date. -/
structure CalendarDate where
  year : Int
  month : Nat
  day : Nat
deriving DecidableEq

namespace CalendarDate

/-- The date that lies a number of days after the first day of 1970. Years begin in March here, so
that a leap day is the last one of its year, and 400 years have 146097 days. -/
def ofDays (days : Int) : CalendarDate :=
  let shifted := days + 719468
  let era := shifted / 146097
  let dayOfEra := (shifted % 146097).toNat
  let yearOfEra :=
    (dayOfEra - dayOfEra / 1460 + dayOfEra / 36524 - dayOfEra / 146096) / 365
  let dayOfYear := dayOfEra - (365 * yearOfEra + yearOfEra / 4 - yearOfEra / 100)
  let monthFromMarch := (5 * dayOfYear + 2) / 153
  let day := dayOfYear - (153 * monthFromMarch + 2) / 5 + 1
  let month := if monthFromMarch < 10 then monthFromMarch + 3 else monthFromMarch - 9
  ⟨yearOfEra + era * 400 + (if month ≤ 2 then 1 else 0), month, day⟩

end CalendarDate

namespace TimestampFlaw

/-- The message of a flaw. -/
def message : TimestampFlaw → Text
  | .notANumber => "Invalid value NaN (not a number)"
  | .outOfRange => "timestamp out of range for platform time_t"
  | .overflow => "[Errno 75] Value too large for defined data type"
  | .year y => ("year " : Text) ++ Text.decimalInt y ++ (" is out of range" : Text)

end TimestampFlaw

namespace Timestamp

/-- The time that is a number of seconds after the beginning of 1970. The fraction of a second is
scaled to microseconds in double precision and then rounded, a half to the even neighbour. -/
def ofSeconds : Double → Except TimestampFlaw Timestamp
  | .nan => .error .notANumber
  | .infinite _ => .error .outOfRange
  | .finite negative m e _ =>
    let (num, den) := Double.magnitude m e
    let whole : Int := if negative then -(num / den : Nat) else (num / den : Nat)
    if whole < -0x8000000000000000 ∨ 0x8000000000000000 ≤ whole then .error .outOfRange
    else
      let micros := match (Double.ofRatio false (num % den * 1000000) den).ratio? with
        | some (n, d) => roundHalfEven n.toNat d
        | none => 0
      if negative then
        if micros = 0 then .ok ⟨whole, 0⟩ else .ok ⟨whole - 1, 1000000 - micros⟩
      else if micros = 1000000 then .ok ⟨whole + 1, 0⟩
      else .ok ⟨whole, micros⟩

/-- A number with at least `width` digits. -/
def padded (width n : Nat) : Text := Text.padLeft 0x30 width (Text.decimal n)

/-- A time as it is written. A year that cannot be written is reported as a signed number of 32
bits. -/
def text (t : Timestamp) : Except TimestampFlaw Text :=
  let date := CalendarDate.ofDays (t.seconds / 86400)
  let second := (t.seconds % 86400).toNat
  if date.year - 1900 < -0x80000000 ∨ 0x80000000 ≤ date.year - 1900 then .error .overflow
  else if date.year < 1 ∨ 9999 < date.year then
    .error (.year (date.year.bmod 0x100000000))
  else .ok (padded 4 date.year.toNat ++ 0x2D :: padded 2 date.month ++ 0x2D :: padded 2 date.day
    ++ 0x54 :: padded 2 (second / 3600) ++ 0x3A :: padded 2 (second / 60 % 60)
    ++ 0x3A :: padded 2 (second % 60)
    ++ (if t.micros = 0 then [] else 0x2E :: padded 6 t.micros) ++ ("+00:00" : Text))

/-- A time as plain lines have it, with milliseconds. -/
def plainText (t : Timestamp) : Text :=
  let date := CalendarDate.ofDays (t.seconds / 86400)
  let second := (t.seconds % 86400).toNat
  padded 4 date.year.toNat ++ 0x2D :: padded 2 date.month ++ 0x2D :: padded 2 date.day
    ++ 0x20 :: padded 2 (second / 3600) ++ 0x3A :: padded 2 (second / 60 % 60)
    ++ 0x3A :: padded 2 (second % 60) ++ 0x2C :: padded 3 (t.micros / 1000)

end Timestamp

end UsagePolicy
