import CaveMap.Text.Digit
import CaveMap.Text.Printable

namespace CaveMap.Text

/-- Double quotes only around a text that holds single quotes and no double ones. -/
def quoteMark (text : List Char) : Char :=
  if text.contains '\'' && !text.contains '"' then '"' else '\''

def quotedChar (mark : Char) (c : Char) : List Char :=
  if c = mark ∨ c = '\\' then ['\\', c]
  else if c = '\n' then ['\\', 'n']
  else if c = '\r' then ['\\', 'r']
  else if c = '\t' then ['\\', 't']
  else if isPrintable c then [c]
  else if c.toNat < 0x100 then '\\' :: 'x' :: hexDigits 2 c.toNat
  else if c.toNat < 0x10000 then '\\' :: 'u' :: hexDigits 4 c.toNat
  else '\\' :: 'U' :: hexDigits 8 c.toNat

def quote (text : String) : String :=
  let mark := quoteMark text.toList
  String.ofList (mark :: text.toList.flatMap (quotedChar mark) ++ [mark])

def quotedList (texts : List String) : String :=
  "[" ++ String.intercalate ", " (texts.map quote) ++ "]"

def quotedChoices (texts : List String) : String :=
  "(" ++ String.intercalate ", " (texts.map quote) ++ ")"

end CaveMap.Text
