import CaveMap.Text.Split

namespace CaveMap.Yaml

namespace Tag

def core : String := "tag:yaml.org,2002:"

def null : String := core ++ "null"
def flag : String := core ++ "bool"
def integer : String := core ++ "int"
def number : String := core ++ "float"
def binary : String := core ++ "binary"
def moment : String := core ++ "timestamp"
def orderedMapping : String := core ++ "omap"
def pairs : String := core ++ "pairs"
def set : String := core ++ "set"
def text : String := core ++ "str"
def sequence : String := core ++ "seq"
def mapping : String := core ++ "map"
def merge : String := core ++ "merge"
def value : String := core ++ "value"

end Tag

namespace Implicit

def nulls : List String := ["", "~", "null", "Null", "NULL"]

def flags : List String :=
  ["yes", "Yes", "YES", "no", "No", "NO", "true", "True", "TRUE", "false", "False", "FALSE", "on", "On",
   "ON", "off", "Off", "OFF"]

def isSign (c : Char) : Bool := c = '-' || c = '+'

def unsigned : List Char → List Char
  | [] => []
  | c :: rest => if isSign c then rest else c :: rest

def isDigitOrBar (c : Char) : Bool := c.isDigit || c = '_'

def isHexDigit (c : Char) : Bool := c.isDigit || ('a' ≤ c && c ≤ 'f') || ('A' ≤ c && c ≤ 'F')

def filled (p : Char → Bool) (text : List Char) : Bool := !text.isEmpty && text.all p

def isSixtieth : List Char → Bool
  | [a] => a.isDigit
  | [a, b] => '0' ≤ a && a ≤ '5' && b.isDigit
  | _ => false

def isSexagesimal (leads : Char → Bool) (text : List Char) : Bool :=
  match Text.stretches (· = ':') text with
  | (c :: digits) :: sixtieths@(_ :: _) => leads c && digits.all isDigitOrBar && sixtieths.all isSixtieth
  | _ => false

def isInteger (text : List Char) : Bool :=
  let rest := unsigned text
  (match rest with
    | '0' :: 'b' :: bits => filled (fun c => c = '0' || c = '1' || c = '_') bits
    | '0' :: 'x' :: digits => filled (fun c => isHexDigit c || c = '_') digits
    | ['0'] => true
    | '0' :: digits => digits.all fun c => ('0' ≤ c && c ≤ '7') || c = '_'
    | c :: digits => c.isDigit && digits.all isDigitOrBar
    | [] => false) ||
    isSexagesimal (fun c => c.isDigit && c ≠ '0') rest

def isExponent : List Char → Bool
  | [] => true
  | e :: sign :: digits => (e = 'e' || e = 'E') && isSign sign && filled Char.isDigit digits
  | _ => false

def isFraction (text : List Char) : Bool := isExponent (text.dropWhile isDigitOrBar)

def isPositional (text : List Char) : Bool :=
  match unsigned text with
  | [] => false
  | c :: rest =>
    c.isDigit &&
      match rest.dropWhile isDigitOrBar with
      | '.' :: fraction => isFraction fraction
      | _ => false

def isPointed : List Char → Bool
  | '.' :: c :: rest => c.isDigit && isFraction rest
  | _ => false

def isPointedSexagesimal (text : List Char) : Bool :=
  let rest := unsigned text
  match rest.dropWhile (· ≠ '.') with
  | '.' :: fraction => fraction.all isDigitOrBar && isSexagesimal Char.isDigit (rest.takeWhile (· ≠ '.'))
  | _ => false

def infinities : List String := [".inf", ".Inf", ".INF"]

def nans : List String := [".nan", ".NaN", ".NAN"]

def isNumber (text : List Char) : Bool :=
  isPositional text || isPointed text || isPointedSexagesimal text ||
    infinities.contains (String.ofList (unsigned text)) || nans.contains (String.ofList text)

def isBlank (c : Char) : Bool := c = ' ' || c = '\t'

def isDigits (least most : Nat) (text : List Char) : Bool :=
  text.all Char.isDigit && decide (least ≤ text.length) && decide (text.length ≤ most)

/-- The date of a moment; only a date that stands alone has to have two digits in month and day. -/
def isDate (least : Nat) (text : List Char) : Bool :=
  match Text.stretches (· = '-') text with
  | [year, month, day] => isDigits 4 4 year && isDigits least 2 month && isDigits least 2 day
  | _ => false

def isZone : List Char → Bool
  | [] => true
  | ['Z'] => true
  | sign :: rest =>
    isSign sign &&
      match Text.stretches (· = ':') rest with
      | [hours] => isDigits 1 2 hours
      | [hours, minutes] => isDigits 1 2 hours && isDigits 2 2 minutes
      | _ => false

def isClockEnd (text : List Char) : Bool :=
  let rest :=
    match text with
    | '.' :: more => more.dropWhile Char.isDigit
    | _ => text
  isZone (rest.dropWhile isBlank) && (rest.isEmpty || !(rest.dropWhile isBlank).isEmpty)

def isClock (text : List Char) : Bool :=
  match Text.stretches (· = ':') text with
  | hours :: minutes :: seconds :: more =>
    let tail := (":".toList).intercalate (seconds.drop 2 :: more)
    isDigits 1 2 hours && isDigits 2 2 minutes && isDigits 2 2 (seconds.take 2) && isClockEnd tail
  | _ => false

def isMoment (text : List Char) : Bool :=
  isDate 2 text ||
    let isGap (c : Char) : Bool := c = 'T' || c = 't' || isBlank c
    let date := text.takeWhile (!isGap ·)
    match text.dropWhile (!isGap ·) with
    | c :: rest => isDate 1 date && isClock (if isBlank c then rest.dropWhile isBlank else rest)
    | [] => false

def tagOf (text : String) : String :=
  if nulls.contains text then Tag.null
  else if flags.contains text then Tag.flag
  else if isNumber text.toList then Tag.number
  else if isInteger text.toList then Tag.integer
  else if text = "<<" then Tag.merge
  else if isMoment text.toList then Tag.moment
  else if text = "=" then Tag.value
  else Tag.text

end Implicit

end CaveMap.Yaml
