import CaveMap.Yaml.Lexeme

namespace CaveMap.Yaml

inductive Token
  | directive (d : Directive)
  | documentStart
  | documentEnd
  | blockSequenceStart
  | blockMappingStart
  | blockEnd
  | flowSequenceStart
  | flowSequenceEnd
  | flowMappingStart
  | flowMappingEnd
  | blockEntry
  | flowEntry
  | key
  | value
  | alias (name : String)
  | anchor (name : String)
  | tag (handle : Option String) (name : String)
  | scalar (text : String) (plain : Bool)
  deriving DecidableEq

structure Cursor where
  rest : List Char
  index : Nat
  line : Nat
  column : Nat

namespace Cursor

def advance (c : Cursor) : Cursor :=
  match c.rest with
  | [] => c
  | ch :: rest =>
    if isBreak ch then ⟨rest, c.index + 1, c.line + 1, 0⟩
    else ⟨rest, c.index + 1, c.line, if ch = byteOrderMark then c.column else c.column + 1⟩

def skip (c : Cursor) : Nat → Cursor
  | 0 => c
  | n + 1 => c.advance.skip n

def moveTo (c : Cursor) (rest : List Char) : Cursor := c.skip (c.rest.length - rest.length)

end Cursor

/-- A token that a colon may turn into a key. -/
structure PendingKey where
  /-- How many tokens stand before it. -/
  position : Nat
  /-- At the indentation of a block there has to be a key. -/
  required : Bool
  index : Nat
  line : Nat
  column : Nat

structure Scanner where
  cursor : Cursor
  tokens : Array Token := #[]
  flowLevel : Nat := 0
  indent : Int := -1
  /-- The indentations of the enclosing blocks. -/
  indents : List Int := []
  /-- Whether a key may begin here. -/
  keyAllowed : Bool := true
  /-- At most one key is pending at each flow level. -/
  pending : List (Nat × PendingKey) := []

namespace Scanner

/-- The longest key without a mark of its own. -/
def maxKey : Nat := 1024

def fail : Except Fault Scanner := throw .malformed

def emit (s : Scanner) (token : Token) : Scanner := { s with tokens := s.tokens.push token }

def inFlow (s : Scanner) : Bool := s.flowLevel ≠ 0

def column (s : Scanner) : Int := s.cursor.column

def take (s : Scanner) (n : Nat) (token : Token) : Scanner :=
  { s with cursor := s.cursor.skip n, tokens := s.tokens.push token }

def pendingHere? (s : Scanner) : Option PendingKey := s.pending.lookup s.flowLevel

def forgetPending (s : Scanner) : Scanner :=
  { s with pending := s.pending.filter (·.1 ≠ s.flowLevel) }

def dropPending (s : Scanner) : Except Fault Scanner :=
  if s.pendingHere?.any (·.required) then fail else return s.forgetPending

/-- Gives up the keys that have become too long or lie on an earlier line. -/
def dropStale (s : Scanner) : Except Fault Scanner :=
  let stale (key : PendingKey) : Bool :=
    key.line ≠ s.cursor.line || maxKey < s.cursor.index - key.index
  if s.pending.any fun (_, key) => stale key && key.required then fail
  else return { s with pending := s.pending.filter fun (_, key) => !stale key }

def expectKey (s : Scanner) : Except Fault Scanner := do
  if s.keyAllowed then
    let required := !s.inFlow && decide (s.indent = s.column)
    let s ← s.dropPending
    let key : PendingKey :=
      ⟨s.tokens.size, required, s.cursor.index, s.cursor.line, s.cursor.column⟩
    return { s with pending := (s.flowLevel, key) :: s.pending }
  else return s

def unwindTo (column : Int) : (indents : List Int) → Scanner → Scanner
  | [], s => s
  | outer :: indents, s =>
    if column < s.indent then
      unwindTo column indents ({ s with indent := outer, indents }.emit .blockEnd)
    else s

def unwind (s : Scanner) (column : Int) : Scanner :=
  if s.inFlow then s else unwindTo column s.indents s

def openBlock (s : Scanner) (column : Int) : Scanner × Bool :=
  if s.indent < column then ({ s with indent := column, indents := s.indent :: s.indents }, true)
  else (s, false)

def openBlockWith (s : Scanner) (token : Token) : Scanner :=
  match s.openBlock s.column with
  | (s, true) => s.emit token
  | (s, false) => s

/-- Skips spaces, comments and line ends; outside of flow collections a key may begin on a new line. -/
def skipBlank : (fuel : Nat) → Scanner → Scanner
  | 0, s => s
  | fuel + 1, s =>
    let text := s.cursor.rest.dropWhile (· = ' ')
    let text := if text.head? = some '#' then (splitLine text).2 else text
    let s := { s with cursor := s.cursor.moveTo text }
    if text.head?.any isBreak then
      skipBlank fuel { s with cursor := s.cursor.advance, keyAllowed := s.keyAllowed || !s.inFlow }
    else s

def skipMark (s : Scanner) : Scanner :=
  if s.cursor.index = 0 ∧ s.cursor.rest.head? = some byteOrderMark then
    { s with cursor := s.cursor.advance }
  else s

def restart (s : Scanner) : Except Fault Scanner := do
  let s ← (s.unwind (-1)).dropPending
  return { s with keyAllowed := false }

def scanDirective (s : Scanner) : Except Fault Scanner := do
  let s ← s.restart
  let (d, rest) ← Lexeme.directive (s.cursor.rest.drop 1)
  return { s with cursor := s.cursor.moveTo rest }.emit (.directive d)

def openFlow (s : Scanner) (token : Token) : Except Fault Scanner := do
  let s ← s.expectKey
  return { s with flowLevel := s.flowLevel + 1, keyAllowed := true }.take 1 token

def closeFlow (s : Scanner) (token : Token) : Except Fault Scanner := do
  if s.flowLevel = 0 then fail
  else
    let s ← s.dropPending
    return { s with flowLevel := s.flowLevel - 1, keyAllowed := false }.take 1 token

def scanFlowEntry (s : Scanner) : Except Fault Scanner := do
  let s ← s.dropPending
  return { s with keyAllowed := true }.take 1 .flowEntry

def scanBlockEntry (s : Scanner) : Except Fault Scanner := do
  if !s.inFlow && !s.keyAllowed then fail
  else
    let s := if s.inFlow then s else s.openBlockWith .blockSequenceStart
    let s ← s.dropPending
    return { s with keyAllowed := true }.take 1 .blockEntry

def scanKey (s : Scanner) : Except Fault Scanner := do
  if !s.inFlow && !s.keyAllowed then fail
  else
    let s := if s.inFlow then s else s.openBlockWith .blockMappingStart
    let s ← s.dropPending
    return { s with keyAllowed := !s.inFlow }.take 1 .key

/-- A colon makes a key of what is pending; a key outside of flow collections may open a mapping. -/
def scanValue (s : Scanner) : Except Fault Scanner := do
  match s.pendingHere? with
  | some key =>
    let s := s.forgetPending
    let (s, opens) := if s.inFlow then (s, false) else s.openBlock key.column
    let marks := if opens then [.blockMappingStart, .key] else [.key]
    let before := s.tokens.toList.take key.position
    let after := s.tokens.toList.drop key.position
    return { s with tokens := (before ++ marks ++ after).toArray, keyAllowed := false }.take 1 .value
  | none =>
    if !s.inFlow && !s.keyAllowed then fail
    else
      let s := if s.inFlow then s else s.openBlockWith .blockMappingStart
      let s ← { s with keyAllowed := !s.inFlow }.dropPending
      return s.take 1 .value

/-- A lexeme that may be a key, and behind which no key may begin. -/
def scanKeyLike (s : Scanner) (lex : List Char → Except Fault (Token × List Char)) : Except Fault Scanner := do
  let s ← s.expectKey
  let (token, rest) ← lex s.cursor.rest
  return { s with cursor := s.cursor.moveTo rest, keyAllowed := false }.emit token

def scanBlock (s : Scanner) (fold : Bool) : Except Fault Scanner := do
  let s ← { s with keyAllowed := true }.dropPending
  let (text, rest) ← Lexeme.block fold s.indent (s.cursor.rest.drop 1)
  return { s with cursor := s.cursor.moveTo rest }.emit (.scalar text false)

def scanPlain (s : Scanner) : Except Fault Scanner := do
  let s ← s.expectKey
  let (text, spansLines, rest) := Lexeme.plain s.inFlow (s.indent + 1) s.cursor.column s.cursor.rest
  return { s with cursor := s.cursor.moveTo rest, keyAllowed := spansLines }.emit (.scalar text true)

/-- The first characters of a plain scalar; an indicator may begin one only in front of a non-blank. -/
def startsPlain (inFlow : Bool) : List Char → Bool
  | [] => false
  | c :: rest =>
    if isGap c then false
    else if "-?:,[]\x7b\x7d#&*!|>'\"%@\x60".toList.contains c then
      !endsWord rest.head? && (c = '-' || (!inFlow && (c = '?' || c = ':')))
    else true

def named (make : String → Token) (text : List Char) : Except Fault (Token × List Char) := do
  let (name, rest) ← Lexeme.anchorName (text.drop 1)
  return (make name, rest)

def tagToken (text : List Char) : Except Fault (Token × List Char) := do
  let ((handle, name), rest) ← Lexeme.tag (text.drop 1)
  return (.tag handle name, rest)

def quotedToken (double : Bool) (text : List Char) : Except Fault (Token × List Char) := do
  let (value, rest) ← Lexeme.quoted double (text.drop 1)
  return (.scalar value false, rest)

/-- The next token, and those that its place brings with it; nothing at the end of the document. -/
def scanToken (s : Scanner) : Except Fault (Option Scanner) := do
  let s ← (s.skipMark.skipBlank (s.cursor.rest.length + 1)).dropStale
  let s := s.unwind s.column
  let atStart := s.cursor.column = 0
  match s.cursor.rest with
  | [] => return none
  | c :: rest =>
    let gap := endsWord rest.head?
    if c = '%' && atStart then some <$> s.scanDirective
    else if atStart && atSeparator (c :: rest) then
      let s ← s.restart
      return some (s.take 3 (if c = '-' then .documentStart else .documentEnd))
    else if c = '[' then some <$> s.openFlow .flowSequenceStart
    else if c = '\x7b' then some <$> s.openFlow .flowMappingStart
    else if c = ']' then some <$> s.closeFlow .flowSequenceEnd
    else if c = '\x7d' then some <$> s.closeFlow .flowMappingEnd
    else if c = ',' then some <$> s.scanFlowEntry
    else if c = '-' && gap then some <$> s.scanBlockEntry
    else if c = '?' && (s.inFlow || gap) then some <$> s.scanKey
    else if c = ':' && (s.inFlow || gap) then some <$> s.scanValue
    else if c = '*' then some <$> s.scanKeyLike (named .alias)
    else if c = '&' then some <$> s.scanKeyLike (named .anchor)
    else if c = '!' then some <$> s.scanKeyLike tagToken
    else if c = '|' && !s.inFlow then some <$> s.scanBlock false
    else if c = '>' && !s.inFlow then some <$> s.scanBlock true
    else if c = '\'' then some <$> s.scanKeyLike (quotedToken false)
    else if c = '"' then some <$> s.scanKeyLike (quotedToken true)
    else if startsPlain s.inFlow (c :: rest) then some <$> s.scanPlain
    else throw .malformed

/-- The tokens that can be read without looking further: a token that may still become a key is none of them. -/
def settled (s : Scanner) : List Token :=
  let pending := (s.dropStale.toOption.getD s).pending
  s.tokens.toList.take (pending.foldl (fun least (_, key) => min least key.position) s.tokens.size)

/-- The tokens up to the end of the document or to a fault. -/
def scanAll : (fuel : Nat) → Scanner → List Token × Option Fault
  | 0, s => (s.settled, some .malformed)
  | fuel + 1, s =>
    match s.scanToken with
    | .error fault => (s.settled, some fault)
    | .ok (some next) => scanAll fuel next
    | .ok none =>
      match (s.unwind (-1)).dropPending with
      | .error fault => (s.settled, some fault)
      | .ok s => (s.tokens.toList, none)

end Scanner

/-- The tokens of a text; where the text goes wrong, those before the fault, and the fault. -/
def Token.scan (text : List Char) : List Token × Option Fault :=
  Scanner.scanAll (text.length + 1) { cursor := ⟨text, 0, 0, 0⟩ }

end CaveMap.Yaml
