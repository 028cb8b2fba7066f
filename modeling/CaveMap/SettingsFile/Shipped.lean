namespace CaveMap.SettingsFile

def shipped : String :=
"# Default layout settings.
#
# Every key is optional; anything omitted keeps the built-in default.
# Colors are #RRGGBB.  Lengths: legend_width/overlap/logo_width in cm,
# scale_bar_length in m, border_thickness in mm.

schema: therion_layout.settings.v1

project:
  cave_name: \"Hačavská jaskyňa\"
  select_name: \"scrap1@kluc\"
  author: \"Michal Danko\"
  scale: 100
  language: sk
  export_types: [map]
  paper_size: A4

colors:
  color_scheme: custom
  map_bg_color: \"#f5f2e8\"
  map_fg_color: \"#e8e2d0\"
  print_mode: false

header:
  show_legend: true
  legend_width: 60
  legend_columns: 3
  header_x: 5
  header_y: 5
  header_anchor: nw
  header_bg: true
  default_symbol_set: AUT

logo:
  logo_path: logo.jpg
  logo_width: 4

legend_text:
  topo_team: \"Michal Danko a spol.\"
  carto_team: \"Michal Danko\"
  explo_team: \"SK Nicolaus\"
  explo_title: \"Prieskum\"
  comment: \"Zamerané v roku 2024.\"
  cave_name_font_size: 30
  border_thickness: 0.5

survey:
  show_survey: true
  survey_color: \"#4a3728\"
  survey_style: solid
  debug_station_names: true
  station_label_size: 8

presentation:
  rotation: 0
  transparency: true
  overlap: 5
  scale_bar_length: 20

modules:
  enabled: []
  custom: []

symbols: \x7b\x7d

sources: []
"

end CaveMap.SettingsFile
