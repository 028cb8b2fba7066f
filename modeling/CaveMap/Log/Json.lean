import CaveMap.Text.Utf16
import CaveMap.Value

namespace CaveMap.Log.Json

def unitEscape (n : Nat) : List Char := '\\' :: 'u' :: Text.hexDigits 4 n

def escapedChar (c : Char) : List Char :=
  if c = '"' ∨ c = '\\' then ['\\', c]
  else if ' ' ≤ c ∧ c ≤ '~' then [c]
  else
    match c with
    | '\n' => ['\\', 'n']
    | '\r' => ['\\', 'r']
    | '\t' => ['\\', 't']
    | '\x08' => ['\\', 'b']
    | '\x0C' => ['\\', 'f']
    | c => (Text.unitsOf c).flatMap unitEscape

def quoted (text : String) : String := String.ofList ('"' :: text.toList.flatMap escapedChar ++ ['"'])

def floatText : Binary64 → String
  | .nan => "NaN"
  | .infinite false => "Infinity"
  | .infinite true => "-Infinity"
  | x => x.text

inductive Fault
  /-- JSON does not know values of its kind. -/
  | unknownKind
  | longInteger
  deriving DecidableEq

def integer (i : Int) : Except Fault String :=
  if Text.isWritable i then return Text.integerText i else throw .longInteger

/-- Keys of objects are texts; numbers, truth values and null become texts. -/
def keyText : Value → Except Fault String
  | .text s => return s
  | .null => return "null"
  | .bool b => return if b then "true" else "false"
  | .int i => integer i
  | .float x => return floatText x
  | _ => throw .unknownKind

mutual

def text : Value → Except Fault String
  | .null => return "null"
  | .bool b => return if b then "true" else "false"
  | .int i => integer i
  | .float x => return floatText x
  | .text s => return quoted s
  | .list items => do return "[" ++ String.intercalate ", " (← itemTexts items) ++ "]"
  | .map entries => do return "\x7b" ++ String.intercalate ", " (← entryTexts entries) ++ "\x7d"
  | .moment _ => throw .unknownKind
  | .bytes _ => throw .unknownKind
  | .set _ => throw .unknownKind

def itemTexts : List Value → Except Fault (List String)
  | [] => return []
  | v :: rest => do return (← text v) :: (← itemTexts rest)

def entryTexts : List (Value × Value) → Except Fault (List String)
  | [] => return []
  | (k, v) :: rest => do
    return (quoted (← keyText k) ++ ": " ++ (← text v)) :: (← entryTexts rest)

end

def object (fields : List (String × Value)) : Except Fault String :=
  text (.map (fields.map fun (name, v) => (.text name, v)))

end CaveMap.Log.Json
