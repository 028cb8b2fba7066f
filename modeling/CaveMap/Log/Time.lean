import CaveMap.Moment
import CaveMap.Number.Binary64
import CaveMap.Number.Word

namespace CaveMap.Log

inductive TimeFault
  | notANumber
  | tooFar
  /-- No calendar reaches so far. -/
  | noCalendar
  | year (number : Int)
  deriving DecidableEq

def TimeFault.message : TimeFault → String
  | notANumber => "Invalid value NaN (not a number)"
  | tooFar => "timestamp out of range"
  | noCalendar => "no such date"
  | year number => "year " ++ Text.integerText number ++ " is out of range"

def wholeSeconds (seconds : Binary64) : Except TimeFault (Int × Nat) :=
  match seconds.split? with
  | none => throw (if seconds = .nan then .notANumber else .tooFar)
  | some (whole, fraction) =>
    let micros := ((fraction.mul (.ofInt 1000000)).round?).getD 0
    let whole := whole + micros.fdiv 1000000
    if isWord whole then return (whole, (micros.fmod 1000000).toNat)
    else throw .tooFar

/-- Years are counted in 32 bits. -/
def maxYear : Int := 0x80000000 + 1899

def momentOf (seconds : Binary64) : Except TimeFault Moment := do
  let (whole, microsecond) ← wholeSeconds seconds
  let (year, month, day) := Moment.civil (whole.fdiv 86400)
  let second := (whole.fmod 86400).toNat
  if maxYear < year ∨ year < 1900 - 0x80000000 then throw .noCalendar
  if year < 1 ∨ 9999 < year then throw (.year year)
  return {
    year := year.toNat, month, day
    clock := some
      { hour := second / 3600, minute := second / 60 % 60, second := second % 60, microsecond
        offset := some 0 } }

/-- To the millisecond, with a `Z` for the prime meridian; the rest is cut off. -/
def shortTime (m : Moment) : String :=
  let clock := m.clock.getD ⟨0, 0, 0, 0, none⟩
  Text.decimalText m.year ++ "-" ++ Text.paddedText 2 m.month ++ "-" ++ Text.paddedText 2 m.day ++ "T" ++
    clock.secondsText ++ "." ++ Text.paddedText 3 (clock.microsecond / 1000) ++ "Z"

end CaveMap.Log
