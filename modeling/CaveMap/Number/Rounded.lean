import CaveMap.Number.Notation

namespace CaveMap.Binary64

def splitDigits (places n : Nat) : List Char × List Char :=
  let digits := (Text.paddedText (places + 1) n).toList
  (digits.take (digits.length - places), digits.drop (digits.length - places))

/-- A point without places behind it is written only on request. -/
def pointed (point : Bool) (whole fraction : List Char) : List Char :=
  if fraction.isEmpty && !point then whole else whole ++ '.' :: fraction

def fixedText (count : Nat) (point : Bool) (code : Nat) : List Char :=
  let n := roundedQuotient (units code * Nat.pow 10 count) (Nat.pow 10 (places code))
  let (whole, fraction) := splitDigits count n
  pointed point whole fraction

def scientificDigits (count : Nat) (code : Nat) : Nat × Int :=
  if code = 0 then (0, 0)
  else
    let power := (Decimal.mk (units code) (-(places code : Int))).leadingPower
    let shift := (count : Int) - power
    let n := roundedQuotient (units code * Nat.pow 10 shift.toNat) (Nat.pow 10 (places code + (-shift).toNat))
    if n = Nat.pow 10 (count + 1) then (Nat.pow 10 count, power + 1) else (n, power)

def exponentText (power : Int) : List Char :=
  'e' :: (if power < 0 then '-' else '+') :: (Text.paddedText 2 power.natAbs).toList

def scientificText (count : Nat) (point : Bool) (code : Nat) : List Char :=
  let (n, power) := scientificDigits count code
  let (whole, fraction) := splitDigits count n
  pointed point whole fraction ++ exponentText power

def withoutZeros (digits : List Char) : List Char := (digits.reverse.dropWhile (· = '0')).reverse

def generalText (digits : Nat) (zeros : Bool) (code : Nat) : List Char :=
  let count := digits - 1
  let (n, power) := scientificDigits count code
  let trimmed (fraction : List Char) := if zeros then fraction else withoutZeros fraction
  if -4 ≤ power ∧ power ≤ count then
    let behind := (count - power).toNat
    let (whole, fraction) := splitDigits behind n
    pointed zeros whole (trimmed fraction)
  else
    let (whole, fraction) := splitDigits count n
    pointed zeros whole (trimmed fraction) ++ exponentText power

end CaveMap.Binary64
