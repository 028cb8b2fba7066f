import CaveMap.Text.Digit

namespace CaveMap

structure Clock where
  hour : Nat
  minute : Nat
  second : Nat
  microsecond : Nat
  /-- Minutes east of the prime meridian, where known. -/
  offset : Option Int
  deriving DecidableEq

structure Moment where
  year : Nat
  month : Nat
  day : Nat
  clock : Option Clock
  deriving DecidableEq

namespace Moment

def isLeap (year : Nat) : Bool :=
  year % 4 = 0 && (year % 100 ≠ 0 || year % 400 = 0)

def daysInMonth (year : Nat) : Nat → Nat
  | 2 => if isLeap year then 29 else 28
  | 4 | 6 | 9 | 11 => 30
  | _ => 31

/-- Year, month and day from the number of days since 1 January 1970. -/
def civil (days : Int) : Int × Nat × Nat :=
  let shifted := days + 719468
  let era := shifted.fdiv 146097
  let dayOfEra := (shifted - era * 146097).toNat
  let yearOfEra := (dayOfEra - dayOfEra / 1460 + dayOfEra / 36524 - dayOfEra / 146096) / 365
  let dayOfYear := dayOfEra - (365 * yearOfEra + yearOfEra / 4 - yearOfEra / 100)
  let monthFromMarch := (5 * dayOfYear + 2) / 153
  let day := dayOfYear - (153 * monthFromMarch + 2) / 5 + 1
  let month := if monthFromMarch < 10 then monthFromMarch + 3 else monthFromMarch - 9
  ((yearOfEra : Int) + era * 400 + if month ≤ 2 then 1 else 0, month, day)

def dateText (m : Moment) : String :=
  Text.paddedText 4 m.year ++ "-" ++ Text.paddedText 2 m.month ++ "-" ++ Text.paddedText 2 m.day

end Moment

namespace Clock

/-- A span of minutes in days and seconds, the seconds never negative. -/
def spanText (minutes : Int) : String :=
  let days := minutes.fdiv 1440
  let seconds := (minutes.fmod 1440).toNat * 60
  let parts :=
    (if days = 0 then [] else ["days=" ++ Text.integerText days]) ++
      if seconds = 0 then [] else ["seconds=" ++ Text.decimalText seconds]
  "datetime.timedelta(" ++ (if parts.isEmpty then "0" else String.intercalate ", " parts) ++ ")"

def offsetText (minutes : Int) : String :=
  (if minutes < 0 then "-" else "+") ++ Text.paddedText 2 (minutes.natAbs / 60) ++ ":" ++
    Text.paddedText 2 (minutes.natAbs % 60)

def secondsText (c : Clock) : String :=
  Text.paddedText 2 c.hour ++ ":" ++ Text.paddedText 2 c.minute ++ ":" ++ Text.paddedText 2 c.second

/-- The fraction of a second is written only where there is one. -/
def text (c : Clock) : String :=
  c.secondsText ++ (if c.microsecond = 0 then "" else "." ++ Text.paddedText 6 c.microsecond) ++
    (c.offset.map offsetText).getD ""

end Clock

def Moment.text (m : Moment) : String :=
  match m.clock with
  | none => m.dateText
  | some clock => m.dateText ++ "T" ++ clock.text

end CaveMap
