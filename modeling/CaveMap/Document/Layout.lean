import CaveMap.Log.Logged
import CaveMap.Settings.Basic

namespace CaveMap

structure PageGeometry where
  width : Value
  height : Value
  printWidth : Value
  printHeight : Value
  marginLeft : Value
  marginTop : Value

namespace PageGeometry

def directive (g : PageGeometry) : String :=
  let lengths := [g.width, g.height, g.printWidth, g.printHeight, g.marginLeft, g.marginTop]
  "page-setup " ++ String.intercalate " " (lengths.map Value.plain) ++ " cm"

/-- A length in millimetres, given in centimetres: as a whole number where it is one. -/
def length (millimetres : Nat) : Value :=
  if millimetres % 10 = 0 then .int (millimetres / 10 : Nat) else .float (.ofDecimal false millimetres (-1))

def ofMillimetres (width height printWidth printHeight left top : Nat) : PageGeometry :=
  ⟨length width, length height, length printWidth, length printHeight, length left, length top⟩

end PageGeometry

namespace PaperSize

def geometry : PaperSize → PageGeometry
  | a4 => .ofMillimetres 210 297 190 277 10 10
  | a3 => .ofMillimetres 297 420 277 400 10 10
  | a2 => .ofMillimetres 420 594 400 574 10 10
  | a1 => .ofMillimetres 594 841 564 811 15 10
  | a0 => .ofMillimetres 841 1189 811 1159 15 10

def layoutName (size : PaperSize) : String := size.name ++ "_Layout"

end PaperSize

/-- What follows the color of a survey line. -/
def SurveyStyle.dash : SurveyStyle → String
  | solid => ""
  | dashed => " dashed evenly"
  | dotted => " dashed withdots"

namespace Layout

def name : String := "custom_layout"

/-- Printed maps carry no tinted paper. -/
def printBackground : String := Color.neutralPercentages

def surveyTeamLabel : String := "Meranie"

def cartoTeamLabel : String := "Kartografia"

inductive Fault
  /-- A field that is pasted into TeX code has to be a text. -/
  | notText (field : Field)
  | longInteger
  deriving DecidableEq

def Fault.message : Fault → String
  | notText field => field.key ++ " must be a text"
  | longInteger => Text.longIntegerMessage

def pasted (s : Settings) (field : Field) : Except Fault String :=
  match s.get field with
  | .text t => return t
  | _ => throw (.notText field)

def written : Option String → Except Fault String
  | some t => return t
  | none => throw .longInteger

def onOff (flag : Value) : String := if flag.holds then "on" else "off"

def indent (lines : List String) : List String :=
  lines.map fun line => if line.isEmpty then "" else "  " ++ line

def preamble : List String := ["encoding utf-8"]

def opening (s : Settings) : Except Fault (List String) := do
  return ("layout " ++ name) ::
    indent
      ["doc-author \"" ++ (← written s.author.shown?) ++ "\"",
       "scale 1 " ++ (← written s.scale.plain?),
       "language " ++ (← written s.language.shown?)]

def background (s : Settings) : String :=
  if s.printMode.holds then printBackground else Color.percentagesOf s.mapBgColor

def colors (s : Settings) : List String :=
  indent
    ["color map-bg " ++ background s,
     "color map-fg " ++ Color.percentagesOf s.mapFgColor]

/-- The symbol set of the whole map, where the settings may not defer any further. -/
def effectiveSet (s : Settings) : Value :=
  if Symbol.defers s.defaultSymbolSet then .text Symbol.fallbackSet else s.defaultSymbolSet

def symbolSet (s : Settings) : Except Fault (List String) := do
  return indent ["symbol-set " ++ (← written (effectiveSet s).shown?)]

def symbolOverrides (s : Settings) : List String :=
  indent (Symbol.tableDirectives s.symbols s.defaultSymbolSet)

def survey (s : Settings) : List String :=
  if s.showSurvey.holds then
    let color := Color.fractionsOf s.surveyColor
    let loop :=
      ["zz1 := point t of P;",
       "zz2 := point t+1 of P;",
       "draw zz1 -- zz2 withcolor " ++ color ++ s.surveyStyle.dash ++ ";"]
    let body :=
      ["T:=identity;", "pair zz[];", "pickup PenC;", "for t = 0 upto length P - 1:"] ++ indent loop ++
        ["endfor;"]
    indent (["code metapost"] ++
      indent (["def l_survey_cave (expr P) ="] ++ indent body ++ ["enddef;"]) ++ ["endcode"])
  else indent ["symbol-hide line survey"]

def presentation (s : Settings) : Except Fault (List String) := do
  return indent
    ["rotate " ++ (← written s.rotation.plain?),
     "transparency " ++ onOff s.transparency,
     "overlap " ++ (← written s.overlap.plain?) ++ " cm",
     "scale-bar " ++ (← written s.scaleBarLength.plain?) ++ " m"]

def header (s : Settings) : Except Fault (List String) := do
  return indent
    ["map-header " ++ (← written s.headerX.plain?) ++ " " ++ (← written s.headerY.plain?) ++ " " ++
       (← written s.headerAnchor.shown?),
     "map-header-bg " ++ onOff s.headerBg,
     "legend " ++ onOff s.showLegend,
     "legend-width " ++ (← written s.legendWidth.plain?) ++ " cm",
     "legend-columns " ++ (← written s.legendColumns.shown?)]

def logo (s : Settings) : Except Fault (List String) := do
  if s.logoPath.holds then
    return ["\\vbox\x7b\\externalfigure[" ++ (← pasted s .logoPath) ++ "][width=" ++
      (← written s.logoWidth.plain?) ++ "cm]\x7d\\vskip0.5cm"]
  else return []

def exploration (s : Settings) : Except Fault (List String) := do
  if s.exploTitle.holds || s.exploTeam.holds then
    return ["\x7b\\bf " ++ (← pasted s .exploTitle) ++ ":\x7d " ++ (← pasted s .exploTeam) ++
      " \\vskip0.2cm"]
  else return []

/-- A line that TeX leaves out when a token register is empty. -/
def teamLine (register label : String) : String :=
  "\\edef\\tmp\x7b\\the\\" ++ register ++ "\x7d \\ifx\\tmp\\empty \\else \x7b\\bf " ++ label ++
    ":\x7d \\the\\" ++ register ++ " \\vskip0.2cm \\fi"

def legendContent (s : Settings) : Except Fault (List String) := do
  let logo ← logo s
  let size ← written s.caveNameFontSize.plain?
  let exploration ← exploration s
  let teams :=
    ["\\edef\\tmp\x7b\\the\\comment\x7d \\ifx\\tmp\\empty \\else \\tmp \\vskip0.5cm \\fi"] ++
      exploration ++ [teamLine "topoteam" surveyTeamLabel, teamLine "cartoteam" cartoTeamLabel]
  return ["\\hsize=\\legendwidth",
      "\\ifnortharrow\\vbox to 0pt\x7b\\line\x7b\\hfil\\northarrow\x7d\\vss\x7d\\fi"] ++ logo ++
    ["\\edef\\tmp\x7b\\the\\cavename\x7d \\ifx\\tmp\\empty \\else",
     "  \x7b\\size[" ++ size ++ "]\\the\\cavename\x7d \\vskip1cm",
     "\\fi",
     "\\ifscalebar\\scalebar\\vskip1cm\\fi",
     "\x7b\\ss"] ++ indent teams ++
    ["\x7d", "\\vskip1cm", "\\formattedlegend"]

def assignment (register content : String) : String := "\\" ++ register ++ "=\x7b" ++ content ++ "\x7d"

def typesetting (s : Settings) : Except Fault (List String) := do
  let body :=
    ["\\newtoks\\topoteam \\newtoks\\cartoteam",
     "",
     assignment "cavename" (← pasted s .caveName),
     assignment "comment" (← pasted s .comment),
     assignment "topoteam" (← pasted s .topoTeam),
     assignment "cartoteam" (← pasted s .cartoTeam),
     "",
     "\\legendcontent=\x7b%"] ++ indent (← legendContent s) ++
    ["\x7d",
     "",
     "\\framethickness=" ++ (← written s.borderThickness.plain?) ++ "mm"]
  return indent (["# Custom TeX legend", "code tex-map"] ++ indent body ++ ["endcode"])

def debug (s : Settings) : Except Fault (List String) := do
  if s.debugStationNames.holds then
    return indent
      ["debug station-names",
       "code tex-map",
       "  \\def\\printstationlabel#1\x7b\\size[" ++ (← written s.stationLabelSize.plain?) ++ "]\\ss #1\x7d",
       "endcode"]
  else return []

def enabledModules (s : Settings) : List MapModule :=
  MapModule.enabled MapModule.builtins s.customModules s.isEnabled

/-- The joined code of the enabled modules without the newlines at its two ends, line by line. -/
def modules (s : Settings) : List String :=
  let code := Text.stripOf (· = '\n') (MapModule.joinedCode (enabledModules s)).toList
  if code.isEmpty then [] else (Text.stretches (· = '\n') code).map String.ofList

def closing : List String := ["endlayout"]

def page (s : Settings) : List String :=
  ["layout " ++ s.paperSize.layoutName, "  " ++ s.paperSize.geometry.directive, "endlayout"]

def sections (s : Settings) : Except Fault (List (List String)) := do
  return [preamble, ← opening s, colors s, ← symbolSet s, symbolOverrides s, survey s, ← presentation s,
    ← header s, ← typesetting s, ← debug s, modules s, closing, page s].filter (!·.isEmpty)

def render (sections : List (List String)) : String :=
  String.intercalate "\n\n" (sections.map (String.intercalate "\n")) ++ "\n"

def text (s : Settings) : Except Fault String := (sections s).map render

def generate (s : Settings) : Logged Fault String := do
  let sections ← Logged.ofExcept (sections s)
  Logged.record (.modulesResolved (enabledModules s).length)
  Logged.record (.layoutAssembled sections.length)
  return render sections

end Layout

end CaveMap
