import CaveMap.Text.Split

namespace CaveMap.Text

/-- Closed ranges of code points, ascending and apart. -/
abbrev Ranges := List (Nat × Nat)

def Ranges.contain (ranges : Ranges) (c : Char) : Bool :=
  ranges.any fun (low, high) => low ≤ c.toNat && c.toNat ≤ high

/-- White space and the four information separators. -/
def blankRanges : Ranges :=
  [(0x09, 0x0D), (0x1C, 0x20), (0x85, 0x85), (0xA0, 0xA0), (0x1680, 0x1680), (0x2000, 0x200A),
   (0x2028, 0x2029), (0x202F, 0x202F), (0x205F, 0x205F), (0x3000, 0x3000)]

def isBlank (c : Char) : Bool := blankRanges.contain c

def isSpace (c : Char) : Bool := isBlank c && !(0x1C ≤ c.toNat && c.toNat ≤ 0x1F)

def lineEndRanges : Ranges :=
  [(0x0A, 0x0D), (0x1C, 0x1E), (0x85, 0x85), (0x2028, 0x2029)]

def isLineEnd (c : Char) : Bool := lineEndRanges.contain c

def words (text : List Char) : List (List Char) := pieces isBlank text

/-- The lines of a text; a line end at the very end opens no further line. -/
def lines (text : List Char) : List (List Char) :=
  let cut := stretches isLineEnd (joinReturns text)
  if cut.getLast? = some [] then cut.dropLast else cut

def strip (text : String) : String := String.ofList (stripOf isBlank text.toList)

def isBlankText (text : String) : Bool := text.toList.all isBlank

end CaveMap.Text
