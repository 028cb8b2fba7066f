import CaveMap.Number.Shortest

namespace CaveMap

namespace Binary64

def signMark (negative : Bool) : String := if negative then "-" else ""

/-- The fewest digits that identify the number: positionally from 0.0001 up to 10^16, with an exponent
outside. An integral number keeps a zero behind the point. -/
def text : Binary64 → String
  | nan => "nan"
  | infinite negative => signMark negative ++ "inf"
  | finite negative code =>
    let d := shortest code
    signMark negative ++
      if -4 ≤ d.leadingPower ∧ d.leadingPower < 16 then
        let (whole, fraction) := d.positional
        String.ofList (whole ++ '.' :: if fraction.isEmpty then ['0'] else fraction)
      else d.scientific

/-- A number as a map document takes it: never with an exponent, an integral one without a point. -/
def plainText (x : Binary64) : String :=
  match x, x.toInt? with
  | _, some i => Text.integerText i
  | finite negative code, none =>
    let (whole, fraction) := (shortest code).positional
    signMark negative ++ String.ofList (whole ++ '.' :: fraction)
  | other, none => text other

end Binary64

end CaveMap
