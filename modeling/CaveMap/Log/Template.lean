import CaveMap.Number.Rounded
import CaveMap.Value

namespace CaveMap.Log.Template

inductive Fault
  /-- Too few or too many arguments, or one of the wrong kind. -/
  | argument
  | outOfRange
  | notANumber
  | missingKey (key : String)
  | incomplete
  | incompleteKey
  | tooWide
  | tooPrecise
  | longInteger
  /-- The number of a surrogate, of which no text here is made. -/
  | surrogate
  | unknownKind (kind : Char) (index : Nat)
  deriving DecidableEq

def hexText (n : Nat) : String := String.ofList (Nat.toDigits 16 n)

def Fault.message : Fault → String
  | argument => "unsuitable arguments"
  | outOfRange => "argument out of range"
  | notANumber => "cannot convert float NaN to integer"
  | missingKey key => Text.quote key
  | incomplete => "incomplete format"
  | incompleteKey => "incomplete format key"
  | tooWide => "width too big"
  | tooPrecise => "precision too big"
  | longInteger => Text.longIntegerMessage
  | surrogate => "surrogates not allowed"
  | unknownKind kind index =>
    let shown := if 31 ≤ kind.toNat ∧ kind.toNat < 126 then kind else '?'
    "unsupported format character '" ++ String.singleton shown ++ "' (0x" ++ hexText kind.toNat ++
      ") at index " ++ Text.decimalText index

/-- Arguments are taken one after the other. Those of a mapping are taken by their keys, and the mapping
itself may be taken once. -/
inductive Arguments
  | row (rest : List Value)
  | keyed (entries : List (Value × Value)) (next : Option Value)

def Arguments.ofList : List Value → Arguments
  | [.map (entry :: entries)] => keyed (entry :: entries) (some (.map (entry :: entries)))
  | values => row values

def Arguments.next : Arguments → Except Fault (Value × Arguments)
  | row (v :: rest) => return (v, row rest)
  | keyed entries (some v) => return (v, keyed entries none)
  | _ => throw .argument

def Arguments.choose (key : String) : Arguments → Except Fault Arguments
  | row _ => throw .argument
  | keyed entries _ =>
    match Value.entry? entries key with
    | some v => return keyed entries (some v)
    | none => throw (.missingKey key)

def Arguments.isSpent : Arguments → Bool
  | row rest => rest.isEmpty
  | keyed .. => true

/-- What is left of the template, where it begins, and what is left of the arguments. -/
structure Rest where
  chars : List Char
  index : Nat
  arguments : Arguments

namespace Rest

def skip (rest : Rest) (n : Nat) : Rest :=
  { rest with chars := rest.chars.drop n, index := rest.index + n }

def keyChars : (depth : Nat) → List Char → Option (List Char)
  | _, [] => none
  | depth, c :: cs =>
    if c = ')' then if depth = 0 then some [] else (keyChars (depth - 1) cs).map (c :: ·)
    else (keyChars (if c = '(' then depth + 1 else depth) cs).map (c :: ·)

def key (rest : Rest) : Except Fault Rest :=
  match rest.chars with
  | '(' :: cs =>
    match rest.arguments with
    | .row _ => throw .argument
    | .keyed .. =>
      match keyChars 0 cs with
      | none => throw .incompleteKey
      | some key => do
        let arguments ← rest.arguments.choose (String.ofList key)
        return { rest.skip (key.length + 2) with arguments }
  | _ => return rest

/-- A number in the template, or a star for one among the arguments. -/
def amount (rest : Rest) (limit : Nat) (tooBig : Fault) : Except Fault (Option Int × Rest) :=
  match rest.chars with
  | '*' :: _ => do
    match ← rest.arguments.next with
    | (.int i, arguments) =>
      if i.natAbs ≤ limit then return (some i, { rest.skip 1 with arguments }) else throw .outOfRange
    | (.bool b, arguments) => return (some (if b then 1 else 0), { rest.skip 1 with arguments })
    | _ => throw .argument
  | chars =>
    let digits := chars.takeWhile Char.isDigit
    let n := digits.foldl (fun n c => n * 10 + (c.toNat - '0'.toNat)) 0
    if digits.isEmpty then return (none, rest)
    else if limit < n then throw tooBig
    else return (some n, rest.skip digits.length)

end Rest

structure Conversion where
  flags : List Char
  width : Nat
  precision : Option Nat
  kind : Char

namespace Conversion

def has (conversion : Conversion) (flag : Char) : Bool := conversion.flags.contains flag

def signOf (conversion : Conversion) (negative : Bool) : List Char :=
  if negative then ['-']
  else if conversion.has '+' then ['+']
  else if conversion.has ' ' then [' ']
  else []

/-- Filled up to the width, behind the text or in front of it; zeros go between the front of a number
and its digits. -/
def fill (conversion : Conversion) (zeros : Bool) (front body : List Char) : List Char :=
  let missing := conversion.width - (front.length + body.length)
  if conversion.has '-' then front ++ body ++ List.replicate missing ' '
  else if zeros then front ++ List.replicate missing '0' ++ body
  else List.replicate missing ' ' ++ front ++ body

def text (conversion : Conversion) (chars : List Char) : List Char :=
  conversion.fill false []
    (match conversion.precision with
    | none => chars
    | some n => chars.take n)

def integer (conversion : Conversion) (base : Nat) (mark : List Char) (i : Int) : List Char :=
  let digits := Nat.toDigits base i.natAbs
  let precise := List.replicate (conversion.precision.getD 0 - digits.length) '0' ++ digits
  conversion.fill (conversion.has '0')
    (conversion.signOf (i < 0) ++ if conversion.has '#' then mark else []) precise

def float (conversion : Conversion) (x : Binary64) : List Char :=
  let precision := conversion.precision.getD 6
  let alternate := conversion.has '#'
  let digits :=
    match x with
    | .nan => "nan".toList
    | .infinite _ => "inf".toList
    | .finite _ code =>
      match conversion.kind.toLower with
      | 'e' => Binary64.scientificText precision alternate code
      | 'f' => Binary64.fixedText precision alternate code
      | _ => Binary64.generalText (max precision 1) alternate code
  let shown := if conversion.kind.isUpper then digits.map Char.toUpper else digits
  conversion.fill (conversion.has '0') (conversion.signOf x.isNegative) shown

end Conversion

def asciiQuoted (v : Value) : List Char :=
  v.quoted.toList.flatMap fun c =>
    if c.toNat < 0x80 then [c]
    else if c.toNat < 0x100 then '\\' :: 'x' :: Text.hexDigits 2 c.toNat
    else if c.toNat < 0x10000 then '\\' :: 'u' :: Text.hexDigits 4 c.toNat
    else '\\' :: 'U' :: Text.hexDigits 8 c.toNat

def wholeNumber : Value → Except Fault Int
  | .float .nan => throw .notANumber
  | .float x =>
    match x.split? with
    | some (whole, _) => return whole
    | none => throw .outOfRange
  | v =>
    match v.integer? with
    | some i => return i
    | none => throw .argument

def strictInteger (v : Value) : Except Fault Int :=
  match v.integer? with
  | some i => return i
  | none => throw .argument

def floatOf : Value → Except Fault Binary64
  | .float x => return x
  | v =>
    match v.integer?.map Binary64.ofInt with
    | none => throw .argument
    | some x => if x.isFinite then return x else throw .outOfRange

def character : Value → Except Fault Char
  | .text s =>
    match s.toList with
    | [c] => return c
    | _ => throw .argument
  | v => do
    let i ← strictInteger v
    if i < 0 ∨ 0x110000 ≤ i then throw .outOfRange
    else if 0xD800 ≤ i ∧ i < 0xE000 then throw .surrogate
    else return Char.ofNat i.toNat

def writtenAs (text : Value → List Char) (v : Value) : Except Fault (List Char) :=
  if v.isWritable then return text v else throw .longInteger

def writtenInteger (i : Int) : Except Fault Int := if Text.isWritable i then return i else throw .longInteger

def written (conversion : Conversion) (index : Nat) (v : Value) : Except Fault (List Char) :=
  match conversion.kind with
  | 's' => do return conversion.text (← writtenAs (·.shown.toList) v)
  | 'r' => do return conversion.text (← writtenAs (·.quoted.toList) v)
  | 'a' => do return conversion.text (← writtenAs asciiQuoted v)
  | 'd' | 'i' | 'u' => do return conversion.integer 10 [] (← writtenInteger (← wholeNumber v))
  | 'o' => do return conversion.integer 8 ['0', 'o'] (← strictInteger v)
  | 'x' => do return conversion.integer 16 ['0', 'x'] (← strictInteger v)
  | 'X' => do return (conversion.integer 16 ['0', 'x'] (← strictInteger v)).map Char.toUpper
  | 'e' | 'E' | 'f' | 'F' | 'g' | 'G' => do return conversion.float (← floatOf v)
  | 'c' => do return { conversion with precision := none }.text [← character v]
  | kind => throw (.unknownKind kind index)

def isFlag (c : Char) : Bool := "-+ #0".toList.contains c

def isLength (c : Char) : Bool := "hlL".toList.contains c

def place (rest : Rest) : Except Fault (List Char × Rest) := do
  let rest ← rest.key
  let flags := rest.chars.takeWhile isFlag
  let (width, rest) ← (rest.skip flags.length).amount 0x7FFFFFFFFFFFFFFF .tooWide
  let (precision, rest) ←
    match rest.chars with
    | '.' :: _ => do
      let (n, rest) ← (rest.skip 1).amount 0x7FFFFFFF .tooPrecise
      pure (some (n.getD 0).toNat, rest)
    | _ => pure (none, rest)
  let rest := if rest.chars.head?.any isLength then rest.skip 1 else rest
  match rest.chars with
  | [] => throw .incomplete
  | kind :: _ => do
    let (v, arguments) ← rest.arguments.next
    let width := width.getD 0
    let flags := if width < 0 then '-' :: flags else flags
    let chars ← written { flags, width := width.natAbs, precision, kind } rest.index v
    return (chars, { rest.skip 1 with arguments })

/-- Each round takes at least one character. -/
def chars : (fuel : Nat) → Rest → Except Fault (List Char)
  | 0, _ => return []
  | fuel + 1, rest =>
    match rest.chars with
    | [] => if rest.arguments.isSpent then return [] else throw .argument
    | '%' :: '%' :: _ => do return '%' :: (← chars fuel (rest.skip 2))
    | '%' :: _ => do
      let (text, rest) ← place (rest.skip 1)
      return text ++ (← chars fuel rest)
    | c :: _ => do return c :: (← chars fuel (rest.skip 1))

/-- The template with its arguments in their places. Without arguments it is taken as it is. -/
def fill (template : String) (arguments : List Value) : Except Fault String :=
  if arguments.isEmpty then return template
  else
    let cs := template.toList
    return String.ofList (← chars (cs.length + 1) ⟨cs, 0, .ofList arguments⟩)

end CaveMap.Log.Template
