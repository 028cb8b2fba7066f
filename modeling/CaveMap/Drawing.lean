import CaveMap.Symbol
import CaveMap.Text.Blank

namespace CaveMap.Drawing

def scannedColor : String := "#000000"

/-- A line uses a symbol when its first word names a category; the type stands behind the two
coordinates of a point, and directly behind the other categories. -/
def usedSymbol? (line : List Char) : Option (SymbolCategory × String) :=
  match (Text.words line).map String.ofList with
  | "point" :: _ :: _ :: type :: _ => some (.point, type)
  | "line" :: type :: _ => some (.line, type)
  | "area" :: type :: _ => some (.area, type)
  | _ => none

def scannedOverride (category : SymbolCategory) (type : String) : SymbolOverride :=
  { type, category, visible := true, color := some scannedColor, symbolSet := some Symbol.deferredSet }

/-- The used symbols in order of first use; a type keeps the category of its first use. -/
def scan (content : String) : SymbolTable :=
  Table.fill ∅ <| ((Text.lines content.toList).filterMap usedSymbol?).map
    fun (category, type) => (type, scannedOverride category type)

end CaveMap.Drawing
