import CaveMap.Color
import CaveMap.Number.Numeral
import CaveMap.Settings.Basic
import CaveMap.SettingsFile.Problem
import CaveMap.Text.Utf8

namespace CaveMap.SettingsFile

def checkText : Value → Check String
  | .text s => return s
  | .bytes bytes =>
    match Text.ofUtf8? bytes with
    | some s => return s
    | none => .complain .textEncoding
  | _ => .complain .textType

/-- A text that stands for a number or a truth value; bytes have to be well-formed. -/
def spelled? (malformed : Complaint) : Value → Option (Check (List Char))
  | .text s => some (.ok s.toList)
  | .bytes bytes =>
    some <|
      match Text.ofUtf8? bytes with
      | some s => .ok s.toList
      | none => .complain malformed
  | _ => none

/-- A number in ASCII, without white space or underscores. -/
def bareNumber? (text : List Char) : Option Binary64 :=
  if text.all (·.toNat < 128) then
    let (negative, rest) := Numeral.splitSign text
    Numeral.unsigned? negative rest
  else none

/-- The text without its underscores, unless one stands at an end or two stand side by side. -/
def withoutUnderscores? (text : List Char) : Option (List Char) :=
  let stretches := Text.stretches (· = '_') text
  if stretches.any (·.isEmpty) then none else some stretches.flatten

/-- White space around a number is allowed, and underscores within, but not both. -/
def number? (text : List Char) : Option Binary64 :=
  (bareNumber? (Text.stripOf Text.isSpace text)).or ((withoutUnderscores? text).bind bareNumber?)

def checkNumber (value : Value) : Check Binary64 :=
  match spelled? .numberText value with
  | some text => do
    match number? (← text) with
    | some x => return x
    | none => .complain .numberText
  | none =>
    match value with
    | .float x => return x
    | value =>
      match value.integer?.map Binary64.ofInt with
      | some (.finite negative code) => return .finite negative code
      | _ => .complain .numberType

/-- The longest text that is taken for an integer, in bytes. -/
def maxIntegerText : Nat := 4300

/-- An integer in ASCII: white space around it, underscores between digits and a fraction of zeros are
allowed. -/
def integerOf? (text : List Char) : Option Int :=
  let (negative, rest) := Numeral.splitSign (Text.stripOf Text.isSpace text)
  let whole := rest.takeWhile (· ≠ '.')
  let isWhole :=
    match rest.dropWhile (· ≠ '.') with
    | [] => true
    | _ :: zeros => !zeros.isEmpty && zeros.all (· = '0')
  if isWhole && whole.all (·.toNat < 128) then
    ((Numeral.dropUnderscores? Char.isDigit whole).bind (Numeral.digitsValue? 10)).map
      (Binary64.signed negative)
  else none

/-- The integer that an integral floating-point number within 64 bits stands for. -/
def checkIntegral (x : Binary64) : Check Int :=
  match x, x.toInt? with
  | .finite _ _, none => .complain .integerFraction
  | _, none => .complain .integerInfinite
  | _, some i => if -wordLimit < i ∧ i < wordLimit then return i else .complain .integerSize

def checkInteger (value : Value) : Check Int :=
  match spelled? .integerText value with
  | some text => do
    let text ← text
    if (Text.utf8 text).length > maxIntegerText then .complain .integerSize
    else
      match integerOf? text with
      | some i => return i
      | none => .complain .integerText
  | none =>
    match value with
    | .float x => checkIntegral x
    | value =>
      match value.integer? with
      | some i => return i
      | none => .complain .integerType

def yesWords : List String := ["1", "t", "y", "on", "yes", "true"]

def noWords : List String := ["0", "f", "n", "no", "off", "false"]

def flagOf? (text : List Char) : Option Bool :=
  let word := String.ofList (text.map Char.toLower)
  if yesWords.contains word then some true else if noWords.contains word then some false else none

def checkFlagNumber (i : Int) : Check Bool :=
  if i = 0 then return false else if i = 1 then return true else .complain .flagText

def checkFlag (value : Value) : Check Bool :=
  match spelled? .flagText value with
  | some text => do
    match flagOf? (← text) with
    | some b => return b
    | none => .complain .flagText
  | none =>
    match value with
    | .bool b => return b
    | .int i => if isWord i then checkFlagNumber i else .complain .flagType
    | .float x =>
      match checkIntegral x with
      | .ok i => checkFlagNumber i
      | .error _ => .complain .flagType
    | _ => .complain .flagType

def checkChoice (names : List String) : Value → Check String
  | .text s => if names.contains s then return s else .complain (.choice names)
  | _ => .complain (.choice names)

/-- Seven characters, the first a number sign and the others a numeral in base sixteen. -/
def isColorText (s : String) : Bool :=
  match s.toList with
  | '#' :: digits => digits.length = 6 && (Numeral.integer? 16 (String.ofList digits)).isSome
  | _ => false

def checkColor (value : Value) : Check String := do
  let s ← checkText value
  if isColorText s then return s
  else .complain (.refused ("Color must be '#RRGGBB', got '" ++ s ++ "'"))

def checkAnchor (value : Value) : Check String := do
  let s ← checkText value
  if HeaderAnchor.all.contains s then return s
  else
    .complain (.refused
      ("header_anchor must be one of " ++ Text.quotedList HeaderAnchor.all ++ ", got '" ++ s ++ "'"))

def checkFilledText (value : Value) : Check String := do
  let s ← checkText value
  if s.isEmpty then .complain .textTooShort else return s

def checkPositive (value : Value) : Check Binary64 := do
  let x ← checkNumber value
  if x.isPositive then return x else .complain (.notGreater 0)

def checkNonnegative (value : Value) : Check Binary64 := do
  let x ← checkNumber value
  if x.isNonnegative then return x else .complain (.less 0)

def checkCount (value : Value) : Check Int := do
  let i ← checkInteger value
  if 1 ≤ i then return i else .complain (.less 1)

/-- The items of a list or a set, each checked in its place. -/
def checkItems {α : Type} (check : Value → Check α) (value : Value) : Check (List α) :=
  let inOrder (items : List Value) : Check (List α) :=
    .gather (items.zipIdx.map fun (item, i) => (check item).within (.index i))
  match value with
  | .list items => inOrder items
  | .set items => inOrder items
  | _ => .complain .listType

end CaveMap.SettingsFile

namespace CaveMap

open SettingsFile in
/-- The values that a field takes. -/
def Field.check : Field → Value → Check Value
  | caveName | selectName | author | colorScheme | logoPath | topoTeam | cartoTeam | exploTeam
  | exploTitle | comment => fun v => (checkText v).map .text
  | language | defaultSymbolSet => fun v => (checkFilledText v).map .text
  | mapBgColor | mapFgColor | surveyColor => fun v => (checkColor v).map .text
  | headerAnchor => fun v => (checkAnchor v).map .text
  | paperSize => fun v => (checkChoice (PaperSize.all.map (·.name)) v).map .text
  | surveyStyle => fun v => (checkChoice (SurveyStyle.all.map (·.name)) v).map .text
  | exportTypes => fun v =>
    (checkItems (checkChoice ExportKind.all) v).map fun kinds => .list (kinds.map .text)
  | printMode | showLegend | headerBg | showSurvey | debugStationNames | transparency =>
    fun v => (checkFlag v).map .bool
  | legendColumns => fun v => (checkCount v).map .int
  | scale | legendWidth | logoWidth | caveNameFontSize | stationLabelSize =>
    fun v => (checkPositive v).map .float
  | borderThickness | overlap | scaleBarLength => fun v => (checkNonnegative v).map .float
  | headerX | headerY | rotation => fun v => (checkNumber v).map .float

end CaveMap
