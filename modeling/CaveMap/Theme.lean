import CaveMap.Settings.Basic

namespace CaveMap

structure Theme where
  id : String
  name : String
  bgColor : String
  fgColor : String
  surveyColor : String
  description : String
  deriving DecidableEq

namespace Theme

def all : List Theme :=
  [{ id := "natural_earth"
     name := "Natural Earth"
     bgColor := "#fdfcf9"
     fgColor := "#f7f4eb"
     surveyColor := "#4a3728"
     description := "Very light natural paper with a brown survey line." },
   { id := "pastel_brown"
     name := "Pastel Brown"
     bgColor := "#fcfaf9"
     fgColor := "#f5f0ed"
     surveyColor := "#5d4037"
     description := "Soft cream paper for limestone caves." },
   { id := "pastel_gray"
     name := "Pastel Gray"
     bgColor := "#fafafa"
     fgColor := "#f2f2f2"
     surveyColor := "#212121"
     description := "Neutral light gray look for technical documentation." },
   { id := "pastel_green"
     name := "Pastel Green"
     bgColor := "#f9fbf7"
     fgColor := "#f1f6eb"
     surveyColor := "#2e7d32"
     description := "Fresh light green tint for karst areas." },
   { id := "hc_brown"
     name := "High Contrast Brown"
     bgColor := "#fdfbfb"
     fgColor := "#f4ecea"
     surveyColor := "#3e2723"
     description := "Dark brown on almost white paper." },
   { id := "hc_gray"
     name := "High Contrast Gray"
     bgColor := "#f8f9fa"
     fgColor := "#e9ecef"
     surveyColor := "#000000"
     description := "Clean white paper with anthracite elements." },
   { id := "heatmap"
     name := "High Contrast Heatmap"
     bgColor := "#fffcfc"
     fgColor := "#fbe9e7"
     surveyColor := "#d84315"
     description := "Light paper with a strong orange-red survey line." },
   { id := "blueprint_light"
     name := "Technical Blue"
     bgColor := "#f7faff"
     fgColor := "#e3f2fd"
     surveyColor := "#0d47a1"
     description := "Slightly bluish paper for technical-looking maps." }]

def ids : List String := all.map (·.id)

def ofId? (id : String) : Option Theme := all.find? (·.id = id)

def unknownMessage (id : String) : String :=
  "Unknown theme '" ++ id ++ "'. Available: " ++ Text.quotedList ids

end Theme

/-- The colors of a theme, and its name as the color scheme. -/
def Settings.applyTheme (s : Settings) (theme : Theme) : Settings :=
  { s with
    colorScheme := .text theme.id
    mapBgColor := .text theme.bgColor
    mapFgColor := .text theme.fgColor
    surveyColor := .text theme.surveyColor }

end CaveMap
