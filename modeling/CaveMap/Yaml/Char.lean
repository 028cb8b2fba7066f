namespace CaveMap.Yaml

def isBreak (c : Char) : Bool := c = '\n' || c = '\u0085' || c = '\u2028' || c = '\u2029'

/-- What a line end counts for in a text: only the two separators stay what they are. -/
def breakValue (c : Char) : Char := if c = '\u0085' then '\n' else c

def isGap (c : Char) : Bool := c = ' ' || c = '\t' || isBreak c

/-- A gap or the end of the document. -/
def endsWord : Option Char → Bool
  | none => true
  | some c => isGap c

/-- A space, a line end or the end of the document, but no tab. -/
def endsItem : Option Char → Bool
  | none => true
  | some c => c ≠ '\t' && isGap c

def byteOrderMark : Char := '\uFEFF'

def isWordChar (c : Char) : Bool := c.isAlphanum || c = '-' || c = '_'

def isUriChar (c : Char) : Bool := c.isAlphanum || "-;/?:@&=+$,_.!~*'()[]%".toList.contains c

def isFlowMark (c : Char) : Bool := ",[]\x7b\x7d".toList.contains c

/-- The characters that may stand in a document. -/
def isAllowed (c : Char) : Bool :=
  let n := c.toNat
  n = 0x09 || n = 0x0A || n = 0x0D || (0x20 ≤ n && n ≤ 0x7E) || n = 0x85 || (0xA0 ≤ n && n ≤ 0xFFFD) ||
    0x10000 ≤ n

/-- Three hyphens or three points that stand for themselves; they separate documents at line starts. -/
def atSeparator : List Char → Bool
  | '-' :: '-' :: '-' :: rest => endsWord rest.head?
  | '.' :: '.' :: '.' :: rest => endsWord rest.head?
  | _ => false

def splitLine (text : List Char) : List Char × List Char :=
  (text.takeWhile (!isBreak ·), text.dropWhile (!isBreak ·))

end CaveMap.Yaml
