import CaveMap.Number.Numeral
import CaveMap.Value
import CaveMap.Yaml.Node

namespace CaveMap.Yaml

namespace Scalar

def flagOf? (text : String) : Option Bool :=
  if ["yes", "true", "on"].contains text then some true
  else if ["no", "false", "off"].contains text then some false
  else none

def flag (text : String) : Except Fault Bool :=
  let word := String.ofList (Text.lower text.toList)
  match flagOf? word with
  | some b => return b
  | none => throw (.notFlag word)

def withoutBars (text : List Char) : List Char := text.filter (· ≠ '_')

def signed (text : List Char) : Except Fault (Bool × List Char) :=
  let text := withoutBars text
  if text.isEmpty then throw .noDigits else return Numeral.splitSign text

def numeral (base : Nat) (text : List Char) : Except Fault Int :=
  let digits := (text.filter Char.isDigit).length
  match Numeral.integer? base (String.ofList text) with
  | none => throw (.notInteger base (String.ofList text))
  | some i => if base = 10 ∧ Text.maxDigits < digits then throw (.longInteger digits) else return i

def sexagesimal (places : List Int) : Int := places.foldl (fun n place => n * 60 + place) 0

def magnitude (text : List Char) : Except Fault Int :=
  match text with
  | [] => throw .noDigits
  | ['0'] => return 0
  | '0' :: 'b' :: bits => numeral 2 bits
  | '0' :: 'x' :: digits => numeral 16 digits
  | '0' :: _ => numeral 8 text
  | _ =>
    if text.contains ':' then do
      return sexagesimal (← (Text.stretches (· = ':') text).mapM (numeral 10))
    else numeral 10 text

def integer (text : String) : Except Fault Int := do
  let (negative, rest) ← signed text.toList
  let n ← magnitude rest
  return if negative then -n else n

def floating (text : List Char) : Except Fault Binary64 :=
  match Numeral.float? (String.ofList text) with
  | some x => return x
  | none => throw (.notNumber (String.ofList text))

/-- The value of places in base sixty, added up from the last one. -/
def floatingSexagesimal (places : List Binary64) : Except Fault Binary64 :=
  if (Binary64.ofInt (Nat.pow 60 (places.length - 1))).isFinite then
    return (places.reverse.foldl
      (fun (sum, base) place => (sum.add (place.mul (.ofInt base)), base * 60))
      (Binary64.ofInt 0, (1 : Int))).1
  else throw .manyPlaces

def number (text : String) : Except Fault Binary64 := do
  let (negative, rest) ← signed (Text.lower text.toList)
  let x ←
    if rest = ".inf".toList then pure (Binary64.infinite false)
    else if rest = ".nan".toList then pure Binary64.nan
    else if rest.contains ':' then
      floatingSexagesimal (← (Text.stretches (· = ':') rest).mapM floating)
    else floating rest
  return if negative then x.negate else x

def sixBits? (c : Char) : Option Nat :=
  if 'A' ≤ c ∧ c ≤ 'Z' then some (c.toNat - 'A'.toNat)
  else if 'a' ≤ c ∧ c ≤ 'z' then some (c.toNat - 'a'.toNat + 26)
  else if '0' ≤ c ∧ c ≤ '9' then some (c.toNat - '0'.toNat + 52)
  else if c = '+' then some 62
  else if c = '/' then some 63
  else none

/-- Four characters for three bytes; other characters are skipped, and the padding ends the text. `held`
is what the characters of an unfinished group come to. -/
def base64 (count held pads : Nat) : List Char → Option (List UInt8)
  | [] => if count = 0 then some [] else none
  | c :: rest =>
    if c = '=' then
      if 2 ≤ count ∧ 4 ≤ count + pads + 1 then some []
      else base64 count held (if 2 ≤ count then pads + 1 else pads) rest
    else
      match sixBits? c with
      | none => base64 count held pads rest
      | some n =>
        match count with
        | 0 => base64 1 n 0 rest
        | 1 => (base64 2 (n % 16) 0 rest).map ((held * 4 + n / 16).toUInt8 :: ·)
        | 2 => (base64 3 (n % 4) 0 rest).map ((held * 16 + n / 4).toUInt8 :: ·)
        | _ => (base64 0 0 0 rest).map ((held * 64 + n).toUInt8 :: ·)

def binary (text : String) : Except Fault (List UInt8) :=
  if text.toList.all (·.toNat < 128) then
    match base64 0 0 0 text.toList with
    | some bytes => return bytes
    | none => throw .malformed
  else throw .malformed

def digitsOf (text : List Char) : Nat := text.foldl (fun n c => n * 10 + (c.toNat - '0'.toNat)) 0

def datePart? (text : List Char) : Option (Nat × Nat × Nat) :=
  if Implicit.isDate 1 text then
    match Text.stretches (· = '-') text with
    | [year, month, day] => some (digitsOf year, digitsOf month, digitsOf day)
    | _ => none
  else none

def zoneOf (text : List Char) : Option Int :=
  match text with
  | [] => none
  | ['Z'] => some 0
  | sign :: rest =>
    let minutes : Int :=
      match Text.stretches (· = ':') rest with
      | [hours, minutes] => (digitsOf hours * 60 + digitsOf minutes : Nat)
      | _ => (digitsOf rest * 60 : Nat)
    some (if sign = '-' then -minutes else minutes)

def clockPart? (text : List Char) : Option Clock :=
  if Implicit.isClock text then
    match Text.stretches (· = ':') text with
    | hours :: minutes :: seconds :: more =>
      let tail := (":".toList).intercalate (seconds.drop 2 :: more)
      let fraction := (tail.drop 1).takeWhile Char.isDigit
      let isFraction := tail.head? = some '.'
      let zone := (if isFraction then (tail.drop 1).dropWhile Char.isDigit else tail).dropWhile
        Implicit.isBlank
      let sixPlaces := (fraction ++ List.replicate 6 '0').take 6
      some
        { hour := digitsOf hours
          minute := digitsOf minutes
          second := digitsOf (seconds.take 2)
          microsecond := if isFraction then digitsOf sixPlaces else 0
          offset := zoneOf zone }
    | _ => none
  else none

def isDateGap (c : Char) : Bool := c = 'T' || c = 't' || Implicit.isBlank c

def momentOf? (text : List Char) : Option Moment := do
  let (year, month, day) ← datePart? (text.takeWhile (!isDateGap ·))
  match text.dropWhile (!isDateGap ·) with
  | [] => return ⟨year, month, day, none⟩
  | c :: rest =>
    let clock ← clockPart? (if Implicit.isBlank c then rest.dropWhile Implicit.isBlank else rest)
    return ⟨year, month, day, some clock⟩

/-- What no calendar or clock shows. -/
def momentFault? (m : Moment) : Option String :=
  let clock := m.clock.getD ⟨0, 0, 0, 0, none⟩
  let offset := clock.offset.getD 0
  if 1440 ≤ offset.natAbs then
    some ("offset must be a timedelta strictly between -timedelta(hours=24) and timedelta(hours=24), not " ++
      Clock.spanText offset ++ ".")
  else if m.year = 0 then some "year 0 is out of range"
  else if m.month = 0 ∨ 12 < m.month then some "month must be in 1..12"
  else if m.day = 0 ∨ Moment.daysInMonth m.year m.month < m.day then some "day is out of range for month"
  else if 23 < clock.hour then some "hour must be in 0..23"
  else if 59 < clock.minute then some "minute must be in 0..59"
  else if 59 < clock.second then some "second must be in 0..59"
  else none

def moment (text : String) : Except Fault Moment :=
  match momentOf? text.toList with
  | none => throw .notMoment
  | some m =>
    match momentFault? m with
    | some reason => throw (.badMoment reason)
    | none => return m

end Scalar

/-- A fault, and how many levels further in than the value itself it comes up. -/
structure Trouble where
  level : Nat
  fault : Fault

abbrev Loaded (α : Type) := Except Trouble α

namespace Loaded

def broken {α : Type} : Loaded α := throw ⟨0, .malformed⟩

def inside {α : Type} (x : Loaded α) : Loaded α := x.mapError fun t => { t with level := t.level + 1 }

/-- All results, or the first trouble of the lowest level. -/
def gather {α : Type} : List (Loaded α) → Loaded (List α)
  | [] => return []
  | x :: rest =>
    match x, gather rest with
    | .ok a, .ok more => return a :: more
    | .ok _, .error t => throw t
    | .error t, .ok _ => throw t
    | .error t, .error u => throw (if u.level < t.level then u else t)

end Loaded

namespace Node

def tag : Node → String
  | scalar tag _ => tag
  | sequence tag _ => tag
  | mapping tag _ => tag

def retag (tag : String) : Node → Node
  | scalar _ text => scalar tag text
  | sequence _ items => sequence tag items
  | mapping _ entries => mapping tag entries

mutual

def depth : Node → Nat
  | scalar _ _ => 0
  | sequence _ items => depthOfAll items + 1
  | mapping _ entries => depthOfEntries entries + 1

def depthOfAll : List Node → Nat
  | [] => 0
  | node :: rest => max node.depth (depthOfAll rest)

def depthOfEntries : List (Node × Node) → Nat
  | [] => 0
  | (key, value) :: rest => max (max key.depth value.depth) (depthOfEntries rest)

end

/-- The text of a scalar, or of the entry of a mapping that stands for the whole. -/
def text? : (fuel : Nat) → Node → Option String
  | _, scalar _ text => some text
  | _, sequence _ _ => none
  | 0, mapping _ _ => none
  | fuel + 1, mapping _ entries =>
    match entries.find? fun (key, _) => key.tag = Tag.value with
    | some (_, value) => text? fuel value
    | none => none

/-- The entries of a mapping, with those of the mappings to be merged in front; of the merged ones, the
first to be listed come last, so that they prevail. -/
def flatEntries : (fuel : Nat) → Node → Option (List (Node × Node))
  | fuel + 1, mapping _ entries => do
    let isMerge : Node × Node → Bool := fun (key, _) => key.tag = Tag.merge
    let merged ← (entries.filter isMerge).mapM fun (_, value) =>
      match value with
      | mapping tag inner => flatEntries fuel (mapping tag inner)
      | sequence _ items => do return (← items.mapM (flatEntries fuel)).reverse.flatten
      | scalar _ _ => none
    let own := (entries.filter (!isMerge ·)).map fun (key, value) =>
      (if key.tag = Tag.value then key.retag Tag.text else key, value)
    return merged.flatten ++ own
  | _, _ => none

def scalarWith {α : Type} (fuel : Nat) (node : Node) (read : String → Except Fault α) : Loaded α :=
  match node.text? fuel with
  | none => .broken
  | some text => (read text).mapError (⟨0, ·⟩)

/-- A list of alternating keys and values as pairs. -/
def pairUp : List Value → List (Value × Value)
  | key :: item :: rest => (key, item) :: pairUp rest
  | _ => []

def isCollection (node : Node) : Bool :=
  [Tag.sequence, Tag.mapping, Tag.set, Tag.orderedMapping, Tag.pairs].contains node.tag

/-- A collection is no key, whatever is in it. -/
def checkedKey (node : Node) (key : Loaded Value) : Loaded Value :=
  if node.isCollection then .broken else key

mutual

def value : (fuel : Nat) → Node → Loaded Value
  | 0, _ => .broken
  | fuel + 1, node =>
    let tag := node.tag
    if tag = Tag.null then (scalarWith (fuel + 1) node fun _ => return ()).map fun _ => .null
    else if tag = Tag.flag then (scalarWith (fuel + 1) node Scalar.flag).map .bool
    else if tag = Tag.integer then (scalarWith (fuel + 1) node Scalar.integer).map .int
    else if tag = Tag.number then (scalarWith (fuel + 1) node Scalar.number).map .float
    else if tag = Tag.binary then (scalarWith (fuel + 1) node Scalar.binary).map .bytes
    else if tag = Tag.moment then (scalarWith (fuel + 1) node Scalar.moment).map .moment
    else if tag = Tag.text then (scalarWith (fuel + 1) node fun text => return text).map .text
    else if tag = Tag.sequence then (items fuel node).inside.map .list
    else if tag = Tag.mapping then (entries fuel node).inside.map Value.mapOf
    else if tag = Tag.set then
      (entries fuel node).inside.map fun entries =>
        .set ((entries.foldl (fun kept (k, v) => Value.insertEntry k v kept) []).map (·.1))
    else if tag = Tag.orderedMapping ∨ tag = Tag.pairs then (pairs fuel node).inside.map .list
    else .broken

def items : (fuel : Nat) → Node → Loaded (List Value)
  | fuel + 1, .sequence _ nodes => .gather (nodes.map (value fuel))
  | _, _ => .broken

def entries : (fuel : Nat) → Node → Loaded (List (Value × Value))
  | 0, _ => .broken
  | fuel + 1, node =>
    match node.flatEntries (fuel + 1) with
    | none => .broken
    | some flat => do
      let values ← Loaded.gather (flat.flatMap fun (key, item) =>
        [checkedKey key (value fuel key), value fuel item])
      return pairUp values

def pairs : (fuel : Nat) → Node → Loaded (List Value)
  | fuel + 1, .sequence _ nodes => do
    let values ← Loaded.gather (nodes.flatMap fun
      | .mapping _ [(key, item)] => [value fuel key, value fuel item]
      | _ => [.broken])
    return (pairUp values).map fun (key, item) => .list [key, item]
  | _, _ => .broken

end

end Node

/-- The value of a text in YAML; a text without contents is null. -/
def load (text : List Char) : Except Fault Value := do
  match ← Node.read text with
  | none => return .null
  | some node => (node.value (2 * node.depth + 2)).mapError (·.fault)

end CaveMap.Yaml
