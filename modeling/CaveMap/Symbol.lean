import CaveMap.Color
import CaveMap.Table

namespace CaveMap

inductive SymbolCategory
  | point
  | line
  | area
  deriving DecidableEq

namespace SymbolCategory

def name : SymbolCategory → String
  | point => "point"
  | line => "line"
  | area => "area"

def all : List SymbolCategory := [point, line, area]

def ofName? (n : String) : Option SymbolCategory := all.find? (·.name = n)

end SymbolCategory

structure SymbolOverride where
  type : String
  category : SymbolCategory
  visible : Bool := true
  color : Option String := none
  symbolSet : Option String := none
  deriving DecidableEq

inductive OverrideFault
  | emptyType
  | category (got : Value)

def OverrideFault.message : OverrideFault → String
  | emptyType => "symbol override type must be non-empty"
  | category got =>
    got.withQuoted fun quoted =>
      "category must be one of " ++ Text.quotedChoices (SymbolCategory.all.map (·.name)) ++ ", got " ++ quoted

namespace SymbolOverride

def make (type : String) (category : Value) (visible : Bool) (color symbolSet : Option String) :
    Except OverrideFault SymbolOverride :=
  if type.isEmpty then throw .emptyType
  else
    match category.text?.bind SymbolCategory.ofName? with
    | some known => return { type, category := known, visible, color, symbolSet }
    | none => throw (.category category)

end SymbolOverride

abbrev SymbolTable := Table SymbolOverride

namespace Symbol

/-- Stands for the symbol set of the enclosing level. -/
def deferredSet : String := "DEFAULT"

def fallbackSet : String := "AUT"

/-- Empty values and the deferring name leave the choice to the enclosing level. -/
def defers (value : Value) : Bool := !value.holds || value.equals (.text deferredSet)

def ofOption : Option String → Value
  | none => .null
  | some s => .text s

def resolvedSet (override : SymbolOverride) (default : Value) : Value :=
  if defers (ofOption override.symbolSet) then default else ofOption override.symbolSet

/-- What one entry of the override table says in a layout: a symbol set, a color, and that the symbol is
hidden, in this order and each only where it applies. -/
def directives (key : String) (override : SymbolOverride) (default : Value) : List String :=
  let target := override.category.name ++ " " ++ key
  let set := resolvedSet override default
  let assign := if defers set then [] else ["symbol-assign " ++ target ++ " " ++ set.shown]
  let color :=
    if (ofOption override.color).holds then
      ["symbol-color " ++ target ++ " " ++ Color.percentagesOf (ofOption override.color)]
    else []
  let hide := if override.visible then [] else ["symbol-hide " ++ target]
  assign ++ color ++ hide

def tableDirectives (table : SymbolTable) (default : Value) : List String :=
  table.entries.flatMap fun (key, override) => directives key override default

end Symbol

end CaveMap
