import CaveMap.MapModule
import CaveMap.Settings.Field
import CaveMap.Symbol
import CaveMap.Upload

namespace CaveMap

inductive PaperSize
  | a4 | a3 | a2 | a1 | a0
  deriving DecidableEq

namespace PaperSize

def name : PaperSize → String
  | a4 => "A4"
  | a3 => "A3"
  | a2 => "A2"
  | a1 => "A1"
  | a0 => "A0"

def all : List PaperSize := [a4, a3, a2, a1, a0]

def ofName? (n : String) : Option PaperSize := all.find? (·.name = n)

end PaperSize

inductive SurveyStyle
  | solid | dashed | dotted
  deriving DecidableEq

namespace SurveyStyle

def name : SurveyStyle → String
  | solid => "solid"
  | dashed => "dashed"
  | dotted => "dotted"

def all : List SurveyStyle := [solid, dashed, dotted]

def ofName? (n : String) : Option SurveyStyle := all.find? (·.name = n)

end SurveyStyle

namespace HeaderAnchor

def all : List String := ["nw", "n", "ne", "w", "center", "e", "sw", "s", "se"]

end HeaderAnchor

namespace ExportKind

def all : List String := ["map", "model", "atlas"]

end ExportKind

def half : Binary64 := .ofRatio false 1 2

/-- Lengths are in the units of the layout document: legend width, overlap and logo width in centimetres,
the scale bar in metres, the border in millimetres; the rotation is in degrees. -/
structure Settings where
  caveName : Value := .text ""
  selectName : Value := .text ""
  author : Value := .text ""
  scale : Value := .int 100
  language : Value := .text "sk"
  exportTypes : List Value := [.text "map"]
  paperSize : PaperSize := .a4
  colorScheme : Value := .text "custom"
  mapBgColor : Value := .text "#f5f2e8"
  mapFgColor : Value := .text "#e8e2d0"
  printMode : Value := .bool false
  showLegend : Value := .bool true
  legendWidth : Value := .int 60
  legendColumns : Value := .int 3
  headerX : Value := .int 5
  headerY : Value := .int 5
  headerAnchor : Value := .text "nw"
  headerBg : Value := .bool true
  defaultSymbolSet : Value := .text Symbol.fallbackSet
  logoPath : Value := .text ""
  logoWidth : Value := .int 4
  topoTeam : Value := .text ""
  cartoTeam : Value := .text ""
  exploTeam : Value := .text ""
  exploTitle : Value := .text ""
  comment : Value := .text ""
  caveNameFontSize : Value := .int 30
  borderThickness : Value := .float half
  showSurvey : Value := .bool true
  surveyColor : Value := .text "#4a3728"
  surveyStyle : SurveyStyle := .solid
  debugStationNames : Value := .bool false
  stationLabelSize : Value := .int 8
  rotation : Value := .int 0
  transparency : Value := .bool true
  overlap : Value := .int 5
  scaleBarLength : Value := .int 20
  uploads : List Upload := []
  enabledModules : List Value := []
  customModules : List MapModule := []
  symbols : SymbolTable := ∅

inductive SettingsFault
  | notIterable (got : Value)
  | notAKey (got : Value)
  | paperSize (got : Value)
  | surveyStyle (got : Value)

def SettingsFault.message : SettingsFault → String
  | notIterable got => "'" ++ got.kindName ++ "' object is not iterable"
  | notAKey got => "unhashable type: '" ++ got.kindName ++ "'"
  | paperSize got =>
    got.withQuoted fun quoted =>
      "paper_size must be one of " ++ Text.quotedChoices (PaperSize.all.map (·.name)) ++ ", got " ++ quoted
  | surveyStyle got =>
    got.withQuoted fun quoted =>
      "survey_style must be one of " ++ Text.quotedChoices (SurveyStyle.all.map (·.name)) ++ ", got " ++ quoted

structure Changes where
  scalars : Field → Option Value := fun _ => none
  uploads : Option (List Upload) := none
  enabledModules : Option Value := none
  customModules : Option (List MapModule) := none
  symbols : Option SymbolTable := none

namespace Settings

def default : Settings := {}

def get (s : Settings) : Field → Value
  | .caveName => s.caveName
  | .selectName => s.selectName
  | .author => s.author
  | .scale => s.scale
  | .language => s.language
  | .exportTypes => .list s.exportTypes
  | .paperSize => .text s.paperSize.name
  | .colorScheme => s.colorScheme
  | .mapBgColor => s.mapBgColor
  | .mapFgColor => s.mapFgColor
  | .printMode => s.printMode
  | .showLegend => s.showLegend
  | .legendWidth => s.legendWidth
  | .legendColumns => s.legendColumns
  | .headerX => s.headerX
  | .headerY => s.headerY
  | .headerAnchor => s.headerAnchor
  | .headerBg => s.headerBg
  | .defaultSymbolSet => s.defaultSymbolSet
  | .logoPath => s.logoPath
  | .logoWidth => s.logoWidth
  | .topoTeam => s.topoTeam
  | .cartoTeam => s.cartoTeam
  | .exploTeam => s.exploTeam
  | .exploTitle => s.exploTitle
  | .comment => s.comment
  | .caveNameFontSize => s.caveNameFontSize
  | .borderThickness => s.borderThickness
  | .showSurvey => s.showSurvey
  | .surveyColor => s.surveyColor
  | .surveyStyle => .text s.surveyStyle.name
  | .debugStationNames => s.debugStationNames
  | .stationLabelSize => s.stationLabelSize
  | .rotation => s.rotation
  | .transparency => s.transparency
  | .overlap => s.overlap
  | .scaleBarLength => s.scaleBarLength

/-- The items of a value, which have to be fit for keys, without repetitions. -/
def distinctItems (value : Value) : Except SettingsFault (List Value) :=
  match value.items? with
  | none => throw (.notIterable value)
  | some items =>
    match items.find? (!·.isKey) with
    | some item => throw (.notAKey item)
    | none => return Value.distinct items

def itemsOf (value : Value) : Except SettingsFault (List Value) :=
  match value.items? with
  | none => throw (.notIterable value)
  | some items => return items

/-- The snapshot with new values; every snapshot comes from here, so enabled modules are distinct and the
paper size and the survey style are known ones. -/
def revise (s : Settings) (changes : Changes) : Except SettingsFault Settings := do
  let value (field : Field) : Value := (changes.scalars field).getD (s.get field)
  let enabledModules ← distinctItems (changes.enabledModules.getD (.list s.enabledModules))
  let exportTypes ← itemsOf (value .exportTypes)
  let some paperSize := (value .paperSize).text?.bind PaperSize.ofName?
    | throw (.paperSize (value .paperSize))
  let some surveyStyle := (value .surveyStyle).text?.bind SurveyStyle.ofName?
    | throw (.surveyStyle (value .surveyStyle))
  return {
      caveName := value .caveName
      selectName := value .selectName
      author := value .author
      scale := value .scale
      language := value .language
      exportTypes
      paperSize
      colorScheme := value .colorScheme
      mapBgColor := value .mapBgColor
      mapFgColor := value .mapFgColor
      printMode := value .printMode
      showLegend := value .showLegend
      legendWidth := value .legendWidth
      legendColumns := value .legendColumns
      headerX := value .headerX
      headerY := value .headerY
      headerAnchor := value .headerAnchor
      headerBg := value .headerBg
      defaultSymbolSet := value .defaultSymbolSet
      logoPath := value .logoPath
      logoWidth := value .logoWidth
      topoTeam := value .topoTeam
      cartoTeam := value .cartoTeam
      exploTeam := value .exploTeam
      exploTitle := value .exploTitle
      comment := value .comment
      caveNameFontSize := value .caveNameFontSize
      borderThickness := value .borderThickness
      showSurvey := value .showSurvey
      surveyColor := value .surveyColor
      surveyStyle
      debugStationNames := value .debugStationNames
      stationLabelSize := value .stationLabelSize
      rotation := value .rotation
      transparency := value .transparency
      overlap := value .overlap
      scaleBarLength := value .scaleBarLength
      uploads := changes.uploads.getD s.uploads
      enabledModules
      customModules := changes.customModules.getD s.customModules
      symbols := changes.symbols.getD s.symbols }

def sourceFiles (s : Settings) : List Upload := s.uploads.filter (·.kind = .source)

def isEnabled (s : Settings) (id : String) : Bool := s.enabledModules.any (·.equals (.text id))

/-- Whether the snapshot can be a key: all its fields have to be fit for one, the overrides apart. -/
def isKey (s : Settings) : Bool :=
  Field.all.all fun field =>
    match s.get field with
    | .list items => items.all Value.isKey
    | value => value.isKey

/-- Equality apart from the scalar fields; the order of overrides is immaterial. -/
def equalsInLists (s t : Settings) : Bool :=
  s.uploads = t.uploads && Value.equalItems s.enabledModules t.enabledModules &&
    s.customModules = t.customModules && s.symbols.equals (· = ·) t.symbols

/-- Equality by meaning: equal numbers of any kind are equal. -/
def equals (s t : Settings) : Bool :=
  Field.all.all (fun field => (s.get field).equals (t.get field)) && equalsInLists s t

/-- Equality of a snapshot and its successor: a field that was not given anew equals itself, even if it
holds a NaN. -/
def sameAs (s t : Settings) (given : Field → Bool) : Bool :=
  Field.all.all (fun field =>
    (!given field && s.get field == t.get field) || (s.get field).equals (t.get field)) &&
    equalsInLists s t

end Settings

end CaveMap
