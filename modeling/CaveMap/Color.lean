import CaveMap.Number.Binary64
import CaveMap.Value

namespace CaveMap

structure Color where
  red : Nat
  green : Nat
  blue : Nat
  deriving DecidableEq

namespace Color

def hexDigit? (c : Char) : Option Nat :=
  if c.toNat < 128 then Text.digitIn? 16 c else none

def channel? (high low : Char) : Option Nat := do
  return (← hexDigit? high) * 16 + (← hexDigit? low)

/-- A color is a number sign and exactly six ASCII hexadecimal digits. -/
def ofHex? (text : String) : Option Color :=
  match text.toList with
  | ['#', r, s, g, h, b, c] => do return ⟨← channel? r s, ← channel? g h, ← channel? b c⟩
  | _ => none

def ofValue? : Value → Option Color
  | .text s => ofHex? s
  | _ => none

def percent (channel : Nat) : Nat := (2 * 100 * channel + 255) / (2 * 255)

def fraction (channel : Nat) : String :=
  let thousandths := Binary64.roundedQuotient (1000 * channel) 255
  Text.decimalText (thousandths / 1000) ++ "." ++ Text.paddedText 3 (thousandths % 1000)

def neutralPercentages : String := "[100 100 100]"

def neutralFractions : String := "(0.0, 0.0, 0.0)"

def percentages (color : Color) : String :=
  let channels := [color.red, color.green, color.blue].map fun c => Text.decimalText (percent c)
  "[" ++ String.intercalate " " channels ++ "]"

def fractions (color : Color) : String :=
  "(" ++ String.intercalate ", " ([color.red, color.green, color.blue].map fraction) ++ ")"

/-- The percentages of a color value; anything that is no color gives white. -/
def percentagesOf (value : Value) : String :=
  ((ofValue? value).map percentages).getD neutralPercentages

/-- The fractions of a color value; anything that is no color gives black. -/
def fractionsOf (value : Value) : String :=
  ((ofValue? value).map fractions).getD neutralFractions

def brightness (color : Color) : Nat := 299 * color.red + 587 * color.green + 114 * color.blue

/-- Black text on a bright color and white text on a dark one; black on what is no color. -/
def contrastOf (value : Value) : String :=
  match ofValue? value with
  | none => "#000000"
  | some color => if color.brightness > 128000 then "#000000" else "#ffffff"

end Color

end CaveMap
