import CaveMap.Text.Digit
import CaveMap.Text.Utf8
import CaveMap.Yaml.Char
import CaveMap.Yaml.Fault

namespace CaveMap.Yaml

inductive Directive
  | version (major : Nat)
  | tag (handle uri : String)
  | other
  deriving DecidableEq

namespace Lexeme

def malformed {α : Type} : Except Fault α := throw .malformed

/-- A line may end in spaces and a comment. -/
def restOfLine (text : List Char) : Except Fault (List Char) :=
  let text := text.dropWhile (· = ' ')
  let text := if text.head? = some '#' then (splitLine text).2 else text
  match text with
  | [] => return []
  | c :: rest => if isBreak c then return rest else malformed

def word (text : List Char) : Except Fault (String × List Char) :=
  let name := text.takeWhile isWordChar
  if name.isEmpty then malformed else return (String.ofList name, text.dropWhile isWordChar)

def anchorName (text : List Char) : Except Fault (String × List Char) := do
  let (name, rest) ← word text
  if endsWord rest.head? || (rest.head?.any ("?:,]\x7d%@\x60".toList.contains ·)) then return (name, rest)
  else malformed

def hexByte? : List Char → Option (UInt8 × List Char)
  | a :: b :: rest => do
    if a.toNat < 128 ∧ b.toNat < 128 then
      return (((← Text.digitIn? 16 a) * 16 + (← Text.digitIn? 16 b)).toUInt8, rest)
    else none
  | _ => none

def uriEscapes : (fuel : Nat) → List Char → Except Fault (List UInt8 × List Char)
  | fuel + 1, '%' :: rest =>
    match hexByte? rest with
    | none => malformed
    | some (b, rest) => do
      let (more, rest) ← uriEscapes fuel rest
      return (b :: more, rest)
  | _, rest => return ([], rest)

def uriChars : (fuel : Nat) → List Char → Except Fault (List Char × List Char)
  | 0, text => return ([], text)
  | _, [] => return ([], [])
  | fuel + 1, c :: rest =>
    if c = '%' then do
      let (bytes, rest) ← uriEscapes (c :: rest).length (c :: rest)
      let some chars := Text.ofUtf8? bytes | malformed
      let (more, rest) ← uriChars fuel rest
      return (chars.toList ++ more, rest)
    else if isUriChar c then do
      let (more, rest) ← uriChars fuel rest
      return (c :: more, rest)
    else return ([], c :: rest)

def uri (text : List Char) : Except Fault (String × List Char) := do
  if !(text.head?.any isUriChar) then malformed
  else
    let (chars, rest) ← uriChars text.length text
    return (String.ofList chars, rest)

def tagHandle : List Char → Except Fault (String × List Char)
  | '!' :: rest =>
    let name := rest.takeWhile isWordChar
    match rest.dropWhile isWordChar with
    | '!' :: more => return (String.ofList ('!' :: name ++ ['!']), more)
    | more => if name.isEmpty ∧ more.head? = some ' ' then return ("!", more) else malformed
  | _ => malformed

def endOfItem {α : Type} (value : α) (rest : List Char) : Except Fault (α × List Char) :=
  if endsItem rest.head? then return (value, rest) else malformed

def tag (text : List Char) : Except Fault ((Option String × String) × List Char) := do
  match text with
  | '<' :: rest =>
    match ← uri rest with
    | (name, '>' :: rest) => endOfItem (none, name) rest
    | _ => malformed
  | _ =>
    if endsWord text.head? then endOfItem (none, "!") text
    else if (text.takeWhile fun c => !endsItem (some c)).contains '!' then
      let (handle, rest) ← tagHandle ('!' :: text)
      let (name, rest) ← uri rest
      endOfItem (some handle, name) rest
    else
      let (name, rest) ← uri text
      endOfItem (some "!", name) rest

def digits (text : List Char) : Except Fault (Nat × List Char) :=
  let ds := text.takeWhile Char.isDigit
  if ds.isEmpty then malformed
  else if Text.maxDigits < ds.length then throw (.longInteger ds.length)
  else return (ds.foldl (fun n c => n * 10 + (c.toNat - '0'.toNat)) 0, text.dropWhile Char.isDigit)

def versionValue (text : List Char) : Except Fault (Directive × List Char) := do
  match ← digits (text.dropWhile (· = ' ')) with
  | (major, '.' :: rest) =>
    let (_, rest) ← digits rest
    endOfItem (.version major) rest
  | _ => malformed

def tagValue (text : List Char) : Except Fault (Directive × List Char) := do
  let (handle, rest) ← tagHandle (text.dropWhile (· = ' '))
  if rest.head? ≠ some ' ' then malformed
  else
    let (name, rest) ← uri (rest.dropWhile (· = ' '))
    endOfItem (.tag handle name) rest

def directive (text : List Char) : Except Fault (Directive × List Char) := do
  let (name, rest) ← word text
  let (_, rest) ← endOfItem () rest
  let (d, rest) ←
    if name = "YAML" then versionValue rest
    else if name = "TAG" then tagValue rest
    else pure (Directive.other, (splitLine rest).2)
  return (d, ← restOfLine rest)

/-- What a line end and the empty lines behind it come to: one line end alone becomes a space. -/
def folded (first : Char) (more : List Char) : List Char :=
  if first ≠ '\n' then first :: more else if more.isEmpty then [' '] else more

def plainRun (inFlow : Bool) : List Char → List Char
  | [] => []
  | c :: rest =>
    if isGap c then []
    else if c = ':' && (endsWord rest.head? || (inFlow && rest.head?.any isFlowMark)) then []
    else if inFlow && (c = '?' || isFlowMark c) then []
    else c :: plainRun inFlow rest

/-- Spaces and line ends between the lines of a plain scalar; none if a document separator follows. -/
def plainBreaks : List Char → Option (List Char) × List Char
  | [] => (some [], [])
  | c :: rest =>
    if c = ' ' then plainBreaks rest
    else if isBreak c then
      if atSeparator rest then (none, rest)
      else
        let (more, left) := plainBreaks rest
        (more.map (breakValue c :: ·), left)
    else (some [], c :: rest)

/-- What joins two pieces of a plain scalar, empty if nothing can follow; and whether it spans lines. -/
def plainGap (text : List Char) : List Char × Bool × List Char :=
  let blanks := text.takeWhile (· = ' ')
  match text.dropWhile (· = ' ') with
  | [] => (blanks, false, [])
  | c :: rest =>
    if isBreak c then
      if atSeparator rest then ([], true, rest)
      else
        match plainBreaks rest with
        | (none, left) => ([], true, left)
        | (some more, left) => (folded (breakValue c) more, true, left)
    else (blanks, false, c :: rest)

def columnAfter (column : Nat) : List Char → Nat
  | [] => column
  | c :: rest =>
    if isBreak c then columnAfter 0 rest
    else columnAfter (if c = byteOrderMark then column else column + 1) rest

/-- The pieces of a plain scalar; each further line has to be indented. Also tells whether the gap behind
the scalar spans lines. -/
def plainPieces (inFlow : Bool) (indent : Int) :
    (fuel : Nat) → (column : Nat) → List Char → List Char × Bool × List Char
  | 0, _, text => ([], false, text)
  | fuel + 1, column, text =>
    let run := plainRun inFlow text
    let behind := text.drop run.length
    let (gap, spansLines, rest) := plainGap behind
    let column := columnAfter column (text.take (text.length - rest.length))
    if gap.isEmpty || rest.head? = some '#' || (!inFlow && decide ((column : Int) < indent)) ||
        (plainRun inFlow rest).isEmpty then
      (run, spansLines, rest)
    else
      let (more, spansLines, rest) := plainPieces inFlow indent fuel column rest
      (run ++ gap ++ more, spansLines, rest)

def plain (inFlow : Bool) (indent : Int) (column : Nat) (text : List Char) :
    String × Bool × List Char :=
  let (value, spansLines, rest) := plainPieces inFlow indent (text.length + 1) column text
  (String.ofList value, spansLines, rest)

def escapeValue? : Char → Option Char
  | '0' => some '\x00'
  | 'a' => some '\x07'
  | 'b' => some '\x08'
  | 't' | '\t' => some '\t'
  | 'n' => some '\n'
  | 'v' => some '\x0B'
  | 'f' => some '\x0C'
  | 'r' => some '\r'
  | 'e' => some '\x1B'
  | ' ' => some ' '
  | '"' => some '"'
  | '\\' => some '\\'
  | '/' => some '/'
  | 'N' => some '\u0085'
  | '_' => some '\u00A0'
  | 'L' => some '\u2028'
  | 'P' => some '\u2029'
  | _ => none

def escapeWidth? : Char → Option Nat
  | 'x' => some 2
  | 'u' => some 4
  | 'U' => some 8
  | _ => none

def numberedChar (n : Nat) : Except Fault Char :=
  if 0x7FFFFFFF < n then throw .hugeCodePoint
  else if 0x10FFFF < n then throw .codePoint
  else if 0xD800 ≤ n ∧ n < 0xE000 then throw .surrogate
  else return Char.ofNat n

def numberedEscape (width : Nat) (text : List Char) : Except Fault (Char × List Char) := do
  let ds := text.take width
  let isHex (c : Char) : Bool := decide (c.toNat < 128) && (Text.digitIn? 16 c).isSome
  if ds.length = width ∧ ds.all isHex then
    let n := ds.foldl (fun n c => n * 16 + (Text.digitIn? 16 c).getD 0) 0
    return (← numberedChar n, text.drop width)
  else malformed

/-- Blanks and line ends between the lines of a quoted scalar. -/
def quotedBreaks : (fuel : Nat) → List Char → Except Fault (List Char × List Char)
  | 0, text => return ([], text)
  | fuel + 1, text =>
    if atSeparator text then malformed
    else
      match text.dropWhile fun c => c = ' ' || c = '\t' with
      | [] => return ([], [])
      | c :: rest =>
        if isBreak c then do
          let (more, rest) ← quotedBreaks fuel rest
          return (breakValue c :: more, rest)
        else return ([], c :: rest)

/-- The text of a quoted scalar, behind its opening mark, through its closing mark. -/
def quotedFrom (double : Bool) : (fuel : Nat) → List Char → Except Fault (List Char × List Char)
  | 0, _ => malformed
  | _, [] => malformed
  | fuel + 1, c :: rest => do
    let followedBy (chars : List Char) (rest : List Char) : Except Fault (List Char × List Char) := do
      let (more, rest) ← quotedFrom double fuel rest
      return (chars ++ more, rest)
    if c = ' ' || c = '\t' then
      let blanks := (c :: rest).takeWhile fun c => c = ' ' || c = '\t'
      match (c :: rest).dropWhile fun c => c = ' ' || c = '\t' with
      | [] => malformed
      | d :: more =>
        if isBreak d then
          let (breaks, left) ← quotedBreaks more.length more
          followedBy (folded (breakValue d) breaks) left
        else followedBy blanks (d :: more)
    else if isBreak c then
      let (breaks, left) ← quotedBreaks rest.length rest
      followedBy (folded (breakValue c) breaks) left
    else if double then
      if c = '"' then return ([], rest)
      else if c = '\\' then
        match rest with
        | [] => malformed
        | e :: more =>
          match escapeValue? e, escapeWidth? e with
          | some value, _ => followedBy [value] more
          | none, some width =>
            let (value, left) ← numberedEscape width more
            followedBy [value] left
          | none, none =>
            if isBreak e then
              let (breaks, left) ← quotedBreaks more.length more
              followedBy breaks left
            else malformed
      else followedBy [c] rest
    else if c = '\'' then
      match rest with
      | '\'' :: more => followedBy ['\''] more
      | _ => return ([], rest)
    else followedBy [c] rest

def quoted (double : Bool) (text : List Char) : Except Fault (String × List Char) := do
  let (value, rest) ← quotedFrom double (text.length + 1) text
  return (String.ofList value, rest)

/-- What becomes of the line ends at the end of a block scalar. -/
inductive Chomping
  | strip | clip | keep
  deriving DecidableEq

def chomping? : Char → Option Chomping
  | '-' => some .strip
  | '+' => some .keep
  | _ => none

def increment? (c : Char) : Option Nat :=
  if '1' ≤ c ∧ c ≤ '9' then some (c.toNat - '0'.toNat) else none

def blockHeader (text : List Char) : Except Fault ((Chomping × Option Nat) × List Char) := do
  let ((chomping, increment), rest) :=
    match text with
    | [] => ((Chomping.clip, none), [])
    | c :: rest =>
      match chomping? c with
      | some chomping =>
        match rest with
        | d :: more => if (increment? d).isSome then ((chomping, increment? d), more) else ((chomping, none), rest)
        | [] => ((chomping, none), [])
      | none =>
        match increment? c, rest with
        | none, _ => ((.clip, none), text)
        | some n, d :: more =>
          match chomping? d with
          | some chomping => ((chomping, some n), more)
          | none => ((.clip, some n), rest)
        | some n, [] => ((.clip, some n), [])
  let (_, rest) ← endOfItem () rest
  return ((chomping, increment), ← restOfLine rest)

/-- The empty lines at the start of a block scalar, the widest indentation among them and the first other
line, and the column of that line. -/
def openingBreaks (column widest : Nat) : List Char → List Char × Nat × Nat × List Char
  | [] => ([], widest, column, [])
  | c :: rest =>
    if c = ' ' then openingBreaks (column + 1) (max widest (column + 1)) rest
    else if isBreak c then
      let (more, widest, column, left) := openingBreaks 0 widest rest
      (breakValue c :: more, widest, column, left)
    else ([], widest, column, c :: rest)

def blockBreaks (indent column : Nat) : List Char → List Char × Nat × List Char
  | [] => ([], column, [])
  | c :: rest =>
    if c = ' ' then
      if column < indent then blockBreaks indent (column + 1) rest else ([], column, c :: rest)
    else if isBreak c then
      let (more, column, left) := blockBreaks indent 0 rest
      (breakValue c :: more, column, left)
    else ([], column, c :: rest)

def isBlankStart (text : List Char) : Bool := text.head? = some ' ' || text.head? = some '\t'

/-- The lines of a block scalar at one indentation, with the line ends before the first; and the last line
end and the empty lines behind it, which chomping decides on. -/
def blockLines (fold : Bool) (indent : Nat) :
    (fuel : Nat) → (breaks : List Char) → List Char → List Char × Option Char × List Char × List Char
  | 0, breaks, text => ([], none, breaks, text)
  | fuel + 1, breaks, text =>
    let (line, rest) := splitLine text
    match rest with
    | [] => (breaks ++ line, none, [], [])
    | c :: rest =>
      let (more, column, left) := blockBreaks indent 0 rest
      if column = indent && !left.isEmpty then
        let joint :=
          if fold && breakValue c = '\n' && !isBlankStart text && !isBlankStart left then
            if more.isEmpty then [' '] else []
          else [breakValue c]
        let (tail, last, ending, left) := blockLines fold indent fuel more left
        (breaks ++ line ++ joint ++ tail, last, ending, left)
      else (breaks ++ line, some (breakValue c), more, left)

/-- A block scalar, behind its mark, within a collection of the given indentation. -/
def block (fold : Bool) (outer : Int) (text : List Char) : Except Fault (String × List Char) := do
  let ((chomping, increment), rest) ← blockHeader text
  let least := (max (outer + 1) 1).toNat
  let (breaks, column, indent, rest) :=
    match increment with
    | none =>
      let (breaks, widest, column, rest) := openingBreaks 0 0 rest
      (breaks, column, max least widest, rest)
    | some n =>
      let indent := least + n - 1
      let (breaks, column, rest) := blockBreaks indent 0 rest
      (breaks, column, indent, rest)
  let (body, last, ending, rest) :=
    if column = indent && !rest.isEmpty then blockLines fold indent (rest.length + 1) breaks rest
    else ([], none, breaks, rest)
  let tail :=
    match chomping with
    | .strip => []
    | .clip => last.toList
    | .keep => last.toList ++ ending
  return (String.ofList (body ++ tail), rest)

end Lexeme

end CaveMap.Yaml
