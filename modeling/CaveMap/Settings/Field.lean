namespace CaveMap

inductive Field
  | caveName | selectName | author | scale | language | exportTypes | paperSize
  | colorScheme | mapBgColor | mapFgColor | printMode
  | showLegend | legendWidth | legendColumns | headerX | headerY | headerAnchor | headerBg
  | defaultSymbolSet
  | logoPath | logoWidth
  | topoTeam | cartoTeam | exploTeam | exploTitle | comment | caveNameFontSize | borderThickness
  | showSurvey | surveyColor | surveyStyle | debugStationNames | stationLabelSize
  | rotation | transparency | overlap | scaleBarLength
  deriving DecidableEq

inductive Section
  | project | colors | header | logo | legendText | survey | presentation
  deriving DecidableEq

namespace Field

def key : Field → String
  | caveName => "cave_name"
  | selectName => "select_name"
  | author => "author"
  | scale => "scale"
  | language => "language"
  | exportTypes => "export_types"
  | paperSize => "paper_size"
  | colorScheme => "color_scheme"
  | mapBgColor => "map_bg_color"
  | mapFgColor => "map_fg_color"
  | printMode => "print_mode"
  | showLegend => "show_legend"
  | legendWidth => "legend_width"
  | legendColumns => "legend_columns"
  | headerX => "header_x"
  | headerY => "header_y"
  | headerAnchor => "header_anchor"
  | headerBg => "header_bg"
  | defaultSymbolSet => "default_symbol_set"
  | logoPath => "logo_path"
  | logoWidth => "logo_width"
  | topoTeam => "topo_team"
  | cartoTeam => "carto_team"
  | exploTeam => "explo_team"
  | exploTitle => "explo_title"
  | comment => "comment"
  | caveNameFontSize => "cave_name_font_size"
  | borderThickness => "border_thickness"
  | showSurvey => "show_survey"
  | surveyColor => "survey_color"
  | surveyStyle => "survey_style"
  | debugStationNames => "debug_station_names"
  | stationLabelSize => "station_label_size"
  | rotation => "rotation"
  | transparency => "transparency"
  | overlap => "overlap"
  | scaleBarLength => "scale_bar_length"

end Field

namespace Section

def key : Section → String
  | project => "project"
  | colors => "colors"
  | header => "header"
  | logo => "logo"
  | legendText => "legend_text"
  | survey => "survey"
  | presentation => "presentation"

def fields : Section → List Field
  | project => [.caveName, .selectName, .author, .scale, .language, .exportTypes, .paperSize]
  | colors => [.colorScheme, .mapBgColor, .mapFgColor, .printMode]
  | header =>
    [.showLegend, .legendWidth, .legendColumns, .headerX, .headerY, .headerAnchor, .headerBg,
     .defaultSymbolSet]
  | logo => [.logoPath, .logoWidth]
  | legendText =>
    [.topoTeam, .cartoTeam, .exploTeam, .exploTitle, .comment, .caveNameFontSize, .borderThickness]
  | survey => [.showSurvey, .surveyColor, .surveyStyle, .debugStationNames, .stationLabelSize]
  | presentation => [.rotation, .transparency, .overlap, .scaleBarLength]

def all : List Section := [project, colors, header, logo, legendText, survey, presentation]

end Section

def Field.all : List Field := Section.all.flatMap Section.fields

end CaveMap
