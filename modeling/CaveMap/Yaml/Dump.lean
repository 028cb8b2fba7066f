import CaveMap.Value
import CaveMap.Yaml.Char
import CaveMap.Yaml.Implicit

namespace CaveMap.Yaml

def width : Nat := 80

def spaces (n : Nat) : List Char := List.replicate n ' '

def newLine (indent : Nat) : List Char := '\n' :: spaces indent

namespace Written

def startsWith (start : String) (text : List Char) : Bool := start.toList.isPrefixOf text

def isSeparated : Char → Bool := fun c => isGap c || c = '\r' || c = '\x00'

def gapFirst (text : List Char) : Bool := text.head?.all isSeparated

def hasInnerIndicator : (afterGap : Bool) → List Char → Bool
  | _, [] => false
  | afterGap, c :: rest =>
    (c = ':' && gapFirst rest) || (c = '#' && afterGap) || hasInnerIndicator (isSeparated c) rest

/-- Whether a plain scalar with this text would be taken for something else. -/
def hasIndicator (text : List Char) : Bool :=
  startsWith "---" text || startsWith "..." text ||
    match text with
    | [] => false
    | c :: rest =>
      "#,[]\x7b\x7d&*!|>'\"%@\x60".toList.contains c || ((c = '?' || c = ':' || c = '-') && gapFirst rest) ||
        hasInnerIndicator (isSeparated c) rest

def isOrdinary (c : Char) : Bool :=
  let n := c.toNat
  c ≠ byteOrderMark &&
    (n = 0x0A || (0x20 ≤ n && n ≤ 0x7E) || n = 0x85 || (0xA0 ≤ n && n ≤ 0xFFFD) ||
      (0x10000 ≤ n && n < 0x10FFFF))

/-- A space and a line end side by side, in an order given by the tests. -/
def hasNeighbours (first second : Char → Bool) : List Char → Bool
  | a :: b :: rest => (first a && second b) || hasNeighbours first second (b :: rest)
  | _ => false

def isSpace (c : Char) : Bool := c = ' '

def isMultiline (text : List Char) : Bool := text.any isBreak

def edgeIs (p : Char → Bool) (text : List Char) : Bool := text.head?.any p || text.getLast?.any p

def allowsPlain (text : List Char) : Bool :=
  text.all isOrdinary && !isMultiline text && !edgeIs isSpace text && !hasIndicator text

def allowsSingle (text : List Char) : Bool :=
  text.all isOrdinary && !hasNeighbours isSpace isBreak text && !hasNeighbours isBreak isSpace text

inductive Form
  | plain | single | double
  deriving DecidableEq

/-- `isOwn` says that the bare text would be read as the value that it stands for. -/
def formOf (isOwn : Bool) (text : List Char) : Form :=
  if isOwn && allowsPlain text then .plain
  else if allowsSingle text then .single
  else .double

/-- A single space in a line that is full becomes a line end. Nothing is folded at the edges. -/
def folds (split afterSpace : Bool) (column : Nat) (rest : List Char) : Bool :=
  split && !afterSpace && decide (width < column) && rest.head?.any (· ≠ ' ')

def plainChars (indent : Nat) (split afterSpace : Bool) (column : Nat) : List Char → List Char
  | [] => []
  | c :: rest =>
    if c = ' ' && folds split afterSpace column rest then
      newLine indent ++ plainChars indent split false indent rest
    else c :: plainChars indent split (c = ' ') (column + 1) rest

/-- Quotes are doubled, and so is the first of consecutive line ends. -/
def singleChars (indent : Nat) (split afterSpace afterBreak : Bool) (column : Nat) :
    List Char → List Char
  | [] => []
  | c :: rest =>
    if isBreak c then
      let more := rest.head?.any isBreak
      (if !afterBreak && c = '\n' then ['\n'] else []) ++ c :: (if more then [] else spaces indent) ++
        singleChars indent split false true (if more then 0 else indent) rest
    else if c = '\'' then '\'' :: '\'' :: singleChars indent split false false (column + 2) rest
    else if c = ' ' && folds split afterSpace column rest then
      newLine indent ++ singleChars indent split false false indent rest
    else c :: singleChars indent split (c = ' ') false (column + 1) rest

def needsEscape (c : Char) : Bool :=
  let n := c.toNat
  "\"\\\u0085\u2028\u2029\uFEFF".toList.contains c ||
    !((0x20 ≤ n && n ≤ 0x7E) || (0xA0 ≤ n && n ≤ 0xFFFD))

def upperHex (width n : Nat) : List Char := (Text.hexDigits width n).map Char.toUpper

def escaped (c : Char) : List Char :=
  '\\' ::
    match c with
    | '\x00' => ['0']
    | '\x07' => ['a']
    | '\x08' => ['b']
    | '\t' => ['t']
    | '\n' => ['n']
    | '\x0B' => ['v']
    | '\x0C' => ['f']
    | '\r' => ['r']
    | '\x1B' => ['e']
    | '"' => ['"']
    | '\\' => ['\\']
    | '\u0085' => ['N']
    | '\u00A0' => ['_']
    | '\u2028' => ['L']
    | '\u2029' => ['P']
    | c =>
      if c.toNat < 0x100 then 'x' :: upperHex 2 c.toNat
      else if c.toNat < 0x10000 then 'u' :: upperHex 4 c.toNat
      else 'U' :: upperHex 8 c.toNat

/-- A backslash at the end of a line joins it with the next; a space that comes first there needs one of
its own. -/
def continued (indent : Nat) (rest : List Char) : List Char :=
  '\\' :: newLine indent ++ if rest.head? = some ' ' then ['\\'] else []

def columnContinued (indent : Nat) (rest : List Char) : Nat :=
  indent + if rest.head? = some ' ' then 1 else 0

/-- A full line is broken at a space or behind an escape. -/
def doubleChars (indent : Nat) (split first fresh : Bool) (column : Nat) : List Char → List Char
  | [] => []
  | c :: rest =>
    let mayBreak := split && !first && !rest.isEmpty
    if needsEscape c then
      let column := column + (escaped c).length
      if mayBreak && decide (width < column - 1) then
        escaped c ++ continued indent rest ++
          doubleChars indent split false true (columnContinued indent rest) rest
      else escaped c ++ doubleChars indent split false true column rest
    else if mayBreak && (c = ' ' || fresh) && decide (width < column) then
      continued indent (c :: rest) ++
        c :: doubleChars indent split false false (columnContinued indent (c :: rest) + 1) rest
    else c :: doubleChars indent split false false (column + 1) rest

/-- A text in a form, from a column on; further lines are indented. -/
def chars (form : Form) (indent column : Nat) (split : Bool) (text : List Char) : List Char :=
  match form with
  | .plain => plainChars indent split true column text
  | .single => '\'' :: singleChars indent split true false (column + 1) text ++ ['\'']
  | .double => '"' :: doubleChars indent split true true (column + 1) text ++ ['"']

def floatText (x : Binary64) : String :=
  match x with
  | .nan => ".nan"
  | .infinite false => ".inf"
  | .infinite true => "-.inf"
  | x =>
    let text := x.text.toList
    if text.contains '.' then String.ofList text
    else String.ofList (text.flatMap fun c => if c = 'e' then ".0e".toList else [c])

def sixBitChar (n : Nat) : Char :=
  if n < 26 then Char.ofNat ('A'.toNat + n)
  else if n < 52 then Char.ofNat ('a'.toNat + (n - 26))
  else if n < 62 then Char.ofNat ('0'.toNat + (n - 52))
  else if n = 62 then '+'
  else '/'

def base64Text : List UInt8 → List Char
  | [] => []
  | [a] => [sixBitChar (a.toNat / 4), sixBitChar (a.toNat % 4 * 16), '=', '=']
  | [a, b] =>
    [sixBitChar (a.toNat / 4), sixBitChar (a.toNat % 4 * 16 + b.toNat / 16),
      sixBitChar (b.toNat % 16 * 4), '=']
  | a :: b :: c :: rest =>
    sixBitChar (a.toNat / 4) :: sixBitChar (a.toNat % 4 * 16 + b.toNat / 16) ::
      sixBitChar (b.toNat % 16 * 4 + c.toNat / 64) :: sixBitChar (c.toNat % 64) :: base64Text rest

/-- The text of a scalar and its tag. An empty tag stands with a text that is written as it is; larger
collections have no text. -/
def scalar? : Value → Option (String × String)
  | .null => some ("null", Tag.null)
  | .bool b => some (if b then "true" else "false", Tag.flag)
  | .int i => some (Text.integerText i, Tag.integer)
  | .float x => some (floatText x, Tag.number)
  | .text s => some (s, Tag.text)
  | .moment m => some (m.text, Tag.moment)
  | .bytes bs => some ("!!binary \"" ++ String.ofList (base64Text bs) ++ "\"", "")
  | .list [] => some ("[]", "")
  | .map [] => some ("\x7b\x7d", "")
  | .set [] => some ("\x7b\x7d", "")
  | _ => none

def isOwn (text tag : String) : Bool := Implicit.tagOf text = tag

def scalarChars (indent column : Nat) (split : Bool) (text tag : String) : List Char :=
  if tag.isEmpty then text.toList
  else chars (formOf (isOwn text tag) text.toList) indent column split text.toList

/-- Keys longer than this, their tag included, get a mark of their own. -/
def maxKey : Nat := 128

def tagLength (tag : String) : Nat := tag.length - Tag.core.length + 2

def isSimpleKey (text tag : String) : Bool :=
  tag.isEmpty ||
    (!text.isEmpty && !isMultiline text.toList && decide (text.length + tagLength tag < maxKey))

def keyChars (indent : Nat) (key : Value) : List Char × Bool :=
  let (text, tag) := (scalar? key).getD ("", Tag.text)
  if isSimpleKey text tag then (scalarChars (indent + 2) indent false text tag ++ [':'], true)
  else
    ('?' :: ' ' :: scalarChars (indent + 2) (indent + 2) true text tag ++ newLine indent ++ [':'], false)

def columnBehind (column : Nat) (text : List Char) : Nat :=
  text.foldl (fun column c => if c = '\n' then 0 else column + 1) column

def members (indent : Nat) (items : List Value) : List Char :=
  (newLine indent).intercalate (items.map fun item => (keyChars indent item).1 ++ " null".toList)

mutual

/-- A value behind a mark that ends at a column; `compact` collections go on in the same line. -/
def behindMark (indent column : Nat) (compact : Bool) (value : Value) : List Char :=
  match scalar? value with
  | some (text, tag) => ' ' :: scalarChars (indent + 2) (column + 1) true text tag
  | none =>
    match value with
    | .list items =>
      if compact then ' ' :: sequence (indent + 2) items else newLine indent ++ sequence indent items
    | .map entries => (if compact then [' '] else newLine (indent + 2)) ++ mapping (indent + 2) entries
    | .set items => " !!set".toList ++ newLine (indent + 2) ++ members (indent + 2) items
    | _ => []

def sequence (indent : Nat) : List Value → List Char
  | [] => []
  | item :: rest =>
    '-' :: behindMark indent (indent + 1) true item ++
      if rest.isEmpty then [] else newLine indent ++ sequence indent rest

def mapping (indent : Nat) : List (Value × Value) → List Char
  | [] => []
  | (key, value) :: rest =>
    let (start, simple) := keyChars indent key
    start ++ behindMark indent (columnBehind indent start) (!simple) value ++
      if rest.isEmpty then [] else newLine indent ++ mapping indent rest

end

/-- A plain scalar that is the whole document is followed by an end mark. -/
def document (value : Value) : List Char :=
  match scalar? value, value with
  | some (text, tag), _ =>
    let isPlain := !tag.isEmpty && formOf (isOwn text tag) text.toList = .plain
    scalarChars 2 0 true text tag ++ '\n' :: if isPlain then "...\n".toList else []
  | none, .list items => sequence 0 items ++ ['\n']
  | none, .map entries => mapping 0 entries ++ ['\n']
  | none, .set items => "!!set".toList ++ newLine 0 ++ members 0 items ++ ['\n']
  | none, _ => []

end Written

def dump (value : Value) : String := String.ofList (Written.document value)

end CaveMap.Yaml
