import CaveMap.Text.Quoted

namespace CaveMap.Yaml

inductive Fault
  | malformed
  /-- An escape past the last code point. -/
  | codePoint
  /-- An escape past the range of code points that can be looked up at all. -/
  | hugeCodePoint
  | notFlag (text : String)
  | notInteger (base : Nat) (text : String)
  | longInteger (digits : Nat)
  | notNumber (text : String)
  | noDigits
  /-- More places in base sixty than a floating-point number has room for. -/
  | manyPlaces
  /-- The number of a surrogate, of which no text here is made. -/
  | surrogate
  /-- A collection that holds itself, of which no value here is made. -/
  | cyclic
  | notMoment
  | badMoment (reason : String)
  deriving DecidableEq

def Fault.message : Fault → String
  | malformed => "malformed document"
  | codePoint => "chr() arg not in range(0x110000)"
  | hugeCodePoint => "escape out of range"
  | notFlag text => Text.quote text
  | notInteger base text =>
    "invalid literal for int() with base " ++ Text.decimalText base ++ ": " ++ Text.quote text
  | longInteger digits =>
    "Exceeds the limit (" ++ Text.decimalText Text.maxDigits ++
      " digits) for integer string conversion: value has " ++ Text.decimalText digits ++
      " digits; use sys.set_int_max_str_digits() to increase the limit"
  | notNumber text => "could not convert string to float: " ++ Text.quote text
  | noDigits => "no digits"
  | manyPlaces => "int too large to convert to float"
  | surrogate => "surrogates not allowed"
  | cyclic => "collection within itself"
  | notMoment => "no date"
  | badMoment reason => reason

end CaveMap.Yaml
