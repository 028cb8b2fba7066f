import CaveMap.Moment
import CaveMap.Number.Notation
import CaveMap.Text.Quoted

namespace CaveMap

inductive Value
  | null
  | bool (b : Bool)
  | int (i : Int)
  | float (x : Binary64)
  | text (s : String)
  | list (items : List Value)
  | map (entries : List (Value × Value))
  | moment (m : Moment)
  | bytes (bytes : List UInt8)
  | set (items : List Value)
  deriving Inhabited, BEq

namespace Value

def quotedByte (b : UInt8) : List Char :=
  if b = 10 then ['\\', 'n'] else if b = 13 then ['\\', 'r'] else if b = 9 then ['\\', 't']
  else if b = 39 ∨ b = 92 then ['\\', Char.ofNat b.toNat]
  else if 32 ≤ b ∧ b < 127 then [Char.ofNat b.toNat]
  else '\\' :: 'x' :: Text.hexDigits 2 b.toNat

def quotedMoment (m : Moment) : String :=
  let comma := String.intercalate ", "
  let date := [m.year, m.month, m.day].map Text.decimalText
  match m.clock with
  | none => "datetime.date(" ++ comma date ++ ")"
  | some c =>
    let seconds := if c.second = 0 ∧ c.microsecond = 0 then [] else [c.second]
    let micros := if c.microsecond = 0 then [] else [c.microsecond]
    let zone :=
      match c.offset with
      | none => []
      | some 0 => ["tzinfo=datetime.timezone.utc"]
      | some minutes => ["tzinfo=datetime.timezone(" ++ Clock.spanText minutes ++ ")"]
    "datetime.datetime(" ++
      comma (date ++ ([c.hour, c.minute] ++ seconds ++ micros).map Text.decimalText ++ zone) ++ ")"

mutual

/-- A value as it stands inside a message or a list. -/
def quoted : Value → String
  | null => "None"
  | bool true => "True"
  | bool false => "False"
  | int i => Text.integerText i
  | float x => x.text
  | text s => Text.quote s
  | list items => "[" ++ quotedItems items ++ "]"
  | map entries => "\x7b" ++ quotedEntries entries ++ "\x7d"
  | moment m => quotedMoment m
  | bytes bs => "b'" ++ String.ofList (bs.flatMap quotedByte) ++ "'"
  | set [] => "set()"
  | set items => "\x7b" ++ quotedItems items ++ "\x7d"

def quotedItems : List Value → String
  | [] => ""
  | [v] => v.quoted
  | v :: rest => v.quoted ++ ", " ++ quotedItems rest

def quotedEntries : List (Value × Value) → String
  | [] => ""
  | [(k, v)] => k.quoted ++ ": " ++ v.quoted
  | (k, v) :: rest => k.quoted ++ ": " ++ v.quoted ++ ", " ++ quotedEntries rest

end

mutual

/-- Whether all integers in a value are short enough to be written. -/
def isWritable : Value → Bool
  | int i => Text.isWritable i
  | list items => areWritable items
  | map entries => entriesWritable entries
  | set items => areWritable items
  | _ => true

def areWritable : List Value → Bool
  | [] => true
  | v :: rest => v.isWritable && areWritable rest

def entriesWritable : List (Value × Value) → Bool
  | [] => true
  | (k, v) :: rest => k.isWritable && v.isWritable && entriesWritable rest

end

/-- A value as it stands in a document: a text as it is, anything else as it is quoted. -/
def shown : Value → String
  | text s => s
  | moment m =>
    match m.clock with
    | none => m.dateText
    | some c => m.dateText ++ " " ++ c.text
  | v => v.quoted

/-- A number in the notation of map documents, anything else as it is shown. -/
def plain : Value → String
  | float x => x.plainText
  | v => v.shown

def shown? (v : Value) : Option String := if v.isWritable then some v.shown else none

def plain? (v : Value) : Option String := if v.isWritable then some v.plain else none

def withQuoted (v : Value) (message : String → String) : String :=
  if v.isWritable then message v.quoted else Text.longIntegerMessage

def integer? : Value → Option Int
  | bool b => some (if b then 1 else 0)
  | int i => some i
  | _ => none

mutual

/-- Equality by meaning: numbers are compared across their kinds, and mappings without regard to order. -/
def equals : Value → Value → Bool
  | null, null => true
  | text s, text t => s = t
  | list as, list bs => equalItems as bs
  | map as, map bs => as.length = bs.length && entriesWithin as bs
  | moment m, moment n => m = n
  | bytes as, bytes bs => as = bs
  | set as, set bs => as.length = bs.length && itemsWithin as bs
  | float x, float y => x.equals y
  | float x, b => b.integer?.any x.equalsInt
  | a, float y => a.integer?.any y.equalsInt
  | a, b => a.integer?.isSome && a.integer? = b.integer?

def equalItems : List Value → List Value → Bool
  | [], [] => true
  | a :: as, b :: bs => a.equals b && equalItems as bs
  | _, _ => false

def itemsWithin : List Value → List Value → Bool
  | [], _ => true
  | a :: as, bs => bs.any (fun b => a.equals b) && itemsWithin as bs

def entriesWithin : List (Value × Value) → List (Value × Value) → Bool
  | [], _ => true
  | (k, v) :: as, bs => bs.any (fun (l, w) => k.equals l && v.equals w) && entriesWithin as bs

end

def holds : Value → Bool
  | null => false
  | bool b => b
  | int i => i ≠ 0
  | float x => !x.isZero
  | text s => !s.isEmpty
  | list items => !items.isEmpty
  | map entries => !entries.isEmpty
  | moment _ => true
  | bytes bs => !bs.isEmpty
  | set items => !items.isEmpty

/-- Only values that cannot change may be keys. -/
def isKey : Value → Bool
  | list _ => false
  | map _ => false
  | set _ => false
  | _ => true

/-- The items that a value yields one by one. -/
def items? : Value → Option (List Value)
  | text s => some (s.toList.map fun c => text (String.singleton c))
  | list items => some items
  | map entries => some (entries.map (·.1))
  | bytes bs => some (bs.map fun b => int b.toNat)
  | set items => some items
  | _ => none

def kindName : Value → String
  | null => "NoneType"
  | bool _ => "bool"
  | int _ => "int"
  | float _ => "float"
  | text _ => "str"
  | list _ => "list"
  | map _ => "dict"
  | moment m => if m.clock.isNone then "datetime.date" else "datetime.datetime"
  | bytes _ => "bytes"
  | set _ => "set"

def text? : Value → Option String
  | text s => some s
  | _ => none

/-- The values without repetitions; the first of equal ones stays. -/
def distinct (items : List Value) : List Value :=
  items.foldl (fun kept v => if kept.any v.equals then kept else kept ++ [v]) []

/-- Sets a key: a key that is present keeps its place, a new one goes to the end. -/
def insertEntry (key value : Value) : List (Value × Value) → List (Value × Value)
  | [] => [(key, value)]
  | (k, v) :: rest =>
    if k.equals key then (k, value) :: rest else (k, v) :: insertEntry key value rest

def mapOf (entries : List (Value × Value)) : Value :=
  map (entries.foldl (fun kept (k, v) => insertEntry k v kept) [])

def entry? (entries : List (Value × Value)) (key : String) : Option Value :=
  (entries.find? fun (k, _) => k.equals (text key)).map (·.2)

end Value

end CaveMap
