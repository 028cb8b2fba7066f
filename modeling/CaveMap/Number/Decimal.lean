import CaveMap.Text.Digit

namespace CaveMap

structure Decimal where
  digits : Nat
  exponent : Int
  deriving DecidableEq

namespace Decimal

def leadingPower (d : Decimal) : Int := (Nat.toDigits 10 d.digits).length + d.exponent - 1

def positional (d : Decimal) : List Char × List Char :=
  let digits := Nat.toDigits 10 d.digits
  let point : Int := digits.length + d.exponent
  if point ≤ 0 then (['0'], List.replicate (-point).toNat '0' ++ digits)
  else (digits.take point.toNat ++ List.replicate (point.toNat - digits.length) '0',
    digits.drop point.toNat)

/-- One digit before the point, and a signed exponent of at least two digits. -/
def scientific (d : Decimal) : String :=
  let digits := Nat.toDigits 10 d.digits
  let fraction := if digits.length ≤ 1 then [] else '.' :: digits.drop 1
  String.ofList (digits.take 1 ++ fraction) ++ "e" ++ (if d.leadingPower < 0 then "-" else "+") ++
    Text.paddedText 2 d.leadingPower.natAbs

end Decimal

end CaveMap
