import CaveMap.Document.Layout
import CaveMap.Proofs.Number.Characters
import CaveMap.Proofs.Text.Lines
import CaveMap.Proofs.Text.Strip

namespace CaveMap

/-- What a layout document shows, each value in the form in which it is shown. -/
@[ext]
structure Visible where
  author : String
  scale : String
  language : String
  background : String
  foreground : String
  symbolSet : String
  directives : List String
  /-- The color of survey lines and their style; none if they are hidden. -/
  survey : Option (String × SurveyStyle)
  rotation : String
  transparency : Bool
  overlap : String
  scaleBar : String
  headerX : String
  headerY : String
  headerAnchor : String
  headerBg : Bool
  legend : Bool
  legendWidth : String
  legendColumns : String
  /-- The path of the logo and its width. -/
  logo : Option (String × String)
  caveName : String
  comment : String
  topoTeam : String
  cartoTeam : String
  fontSize : String
  /-- The title of the exploration team and the team. -/
  exploration : Option (String × String)
  border : String
  /-- The size of station labels, if there are any. -/
  stationLabels : Option String
  /-- The joined code of the enabled modules without the newlines at its two ends. -/
  code : String
  paper : PaperSize
  deriving DecidableEq

namespace Layout

def visible (s : Settings) : Visible where
  author := s.author.shown
  scale := s.scale.plain
  language := s.language.shown
  background := background s
  foreground := Color.percentagesOf s.mapFgColor
  symbolSet := (effectiveSet s).shown
  directives := Symbol.tableDirectives s.symbols s.defaultSymbolSet
  survey := if s.showSurvey.holds then some (Color.fractionsOf s.surveyColor, s.surveyStyle) else none
  rotation := s.rotation.plain
  transparency := s.transparency.holds
  overlap := s.overlap.plain
  scaleBar := s.scaleBarLength.plain
  headerX := s.headerX.plain
  headerY := s.headerY.plain
  headerAnchor := s.headerAnchor.shown
  headerBg := s.headerBg.holds
  legend := s.showLegend.holds
  legendWidth := s.legendWidth.plain
  legendColumns := s.legendColumns.shown
  logo := if s.logoPath.holds then some (s.logoPath.shown, s.logoWidth.plain) else none
  caveName := s.caveName.shown
  comment := s.comment.shown
  topoTeam := s.topoTeam.shown
  cartoTeam := s.cartoTeam.shown
  fontSize := s.caveNameFontSize.plain
  exploration :=
    if s.exploTitle.holds || s.exploTeam.holds then some (s.exploTitle.shown, s.exploTeam.shown) else none
  border := s.borderThickness.plain
  stationLabels := if s.debugStationNames.holds then some s.stationLabelSize.plain else none
  code := String.ofList (Text.stripOf (· = '\n') (MapModule.joinedCode (enabledModules s)).toList)
  paper := s.paperSize

end Layout

namespace Visible

open Layout

def flag (b : Bool) : String := if b then "on" else "off"

def opening (v : Visible) : List String :=
  ("layout " ++ Layout.name) ::
    indent
      ["doc-author \"" ++ v.author ++ "\"",
       "scale 1 " ++ v.scale,
       "language " ++ v.language]

def colors (v : Visible) : List String :=
  indent
    ["color map-bg " ++ v.background,
     "color map-fg " ++ v.foreground]

def symbolSetLines (v : Visible) : List String := indent ["symbol-set " ++ v.symbolSet]

def directiveLines (v : Visible) : List String := indent v.directives

def surveyLines (v : Visible) : List String :=
  match v.survey with
  | none => indent ["symbol-hide line survey"]
  | some (color, style) =>
    indent (["code metapost"] ++
      indent (["def l_survey_cave (expr P) ="] ++
        indent (["T:=identity;", "pair zz[];", "pickup PenC;", "for t = 0 upto length P - 1:"] ++
          indent
            ["zz1 := point t of P;",
             "zz2 := point t+1 of P;",
             "draw zz1 -- zz2 withcolor " ++ color ++ style.dash ++ ";"] ++
          ["endfor;"]) ++ ["enddef;"]) ++ ["endcode"])

def presentation (v : Visible) : List String :=
  indent
    ["rotate " ++ v.rotation,
     "transparency " ++ flag v.transparency,
     "overlap " ++ v.overlap ++ " cm",
     "scale-bar " ++ v.scaleBar ++ " m"]

def header (v : Visible) : List String :=
  indent
    ["map-header " ++ v.headerX ++ " " ++ v.headerY ++ " " ++ v.headerAnchor,
     "map-header-bg " ++ flag v.headerBg,
     "legend " ++ flag v.legend,
     "legend-width " ++ v.legendWidth ++ " cm",
     "legend-columns " ++ v.legendColumns]

def logoLines (v : Visible) : List String :=
  match v.logo with
  | none => []
  | some (path, width) =>
    ["\\vbox\x7b\\externalfigure[" ++ path ++ "][width=" ++ width ++ "cm]\x7d\\vskip0.5cm"]

def explorationLines (v : Visible) : List String :=
  match v.exploration with
  | none => []
  | some (title, team) => ["\x7b\\bf " ++ title ++ ":\x7d " ++ team ++ " \\vskip0.2cm"]

def teams (v : Visible) : List String :=
  ["\\edef\\tmp\x7b\\the\\comment\x7d \\ifx\\tmp\\empty \\else \\tmp \\vskip0.5cm \\fi"] ++
    v.explorationLines ++ [teamLine "topoteam" surveyTeamLabel, teamLine "cartoteam" cartoTeamLabel]

def legendContent (v : Visible) : List String :=
  ["\\hsize=\\legendwidth",
    "\\ifnortharrow\\vbox to 0pt\x7b\\line\x7b\\hfil\\northarrow\x7d\\vss\x7d\\fi"] ++ v.logoLines ++
  ["\\edef\\tmp\x7b\\the\\cavename\x7d \\ifx\\tmp\\empty \\else",
   "  \x7b\\size[" ++ v.fontSize ++ "]\\the\\cavename\x7d \\vskip1cm",
   "\\fi",
   "\\ifscalebar\\scalebar\\vskip1cm\\fi",
   "\x7b\\ss"] ++ indent v.teams ++
  ["\x7d", "\\vskip1cm", "\\formattedlegend"]

def typesetting (v : Visible) : List String :=
  indent (["# Custom TeX legend", "code tex-map"] ++
    indent
      (["\\newtoks\\topoteam \\newtoks\\cartoteam",
        "",
        assignment "cavename" v.caveName,
        assignment "comment" v.comment,
        assignment "topoteam" v.topoTeam,
        assignment "cartoteam" v.cartoTeam,
        "",
        "\\legendcontent=\x7b%"] ++ indent v.legendContent ++
       ["\x7d",
        "",
        "\\framethickness=" ++ v.border ++ "mm"]) ++ ["endcode"])

def debug (v : Visible) : List String :=
  match v.stationLabels with
  | none => []
  | some size =>
    indent
      ["debug station-names",
       "code tex-map",
       "  \\def\\printstationlabel#1\x7b\\size[" ++ size ++ "]\\ss #1\x7d",
       "endcode"]

def codeLines (v : Visible) : List String :=
  if v.code.toList.isEmpty then []
  else (Text.stretches (· = '\n') v.code.toList).map String.ofList

def page (v : Visible) : List String :=
  ["layout " ++ v.paper.layoutName, "  " ++ v.paper.geometry.directive, "endlayout"]

def sections (v : Visible) : List (List String) :=
  [preamble, v.opening, v.colors, v.symbolSetLines, v.directiveLines, v.surveyLines, v.presentation,
    v.header, v.typesetting, v.debug, v.codeLines, closing, v.page].filter (!·.isEmpty)

end Visible

namespace Layout

def writtenFields (s : Settings) : List Field :=
  [.author, .scale, .language, .rotation, .overlap, .scaleBarLength, .headerX, .headerY, .headerAnchor,
    .legendWidth, .legendColumns, .caveNameFontSize, .borderThickness] ++
  (if s.logoPath.holds then [.logoWidth] else []) ++
  if s.debugStationNames.holds then [.stationLabelSize] else []

/-- No integer that a document writes is too long. -/
def Writable (s : Settings) : Prop :=
  (effectiveSet s).isWritable ∧ ∀ field ∈ writtenFields s, (s.get field).isWritable

instance (s : Settings) : Decidable (Writable s) := inferInstanceAs (Decidable (_ ∧ _))

variable {α β : Type}

/-- A part that is made of the texts of values. -/
def made (values : List Value) (part : α) : Except Fault α :=
  if ∀ v ∈ values, v.isWritable then .ok part else .error .longInteger

theorem made_eq {values : List Value} {part : α} (h : ∀ v ∈ values, v.isWritable) :
    made values part = .ok part := if_pos h

theorem made_bind (values others : List Value) (a : α) (f : α → β) :
    (made values a >>= fun x => made others (f x)) = made (values ++ others) (f a) := by
  unfold made
  by_cases hv : ∀ v ∈ values, v.isWritable
  · rw [if_pos hv]
    refine if_congr ?_ rfl rfl
    rw [List.forall_mem_append]
    exact (and_iff_right hv).symm
  · have happ : ¬ ∀ v ∈ values ++ others, v.isWritable := fun h => hv (List.forall_mem_append.1 h).1
    rw [if_neg hv, if_neg happ]
    rfl

theorem pure_eq_made (part : α) : (pure part : Except Fault α) = made [] part := rfl

theorem written_shown (v : Value) : written v.shown? = made [v] v.shown := by
  simp only [Value.shown?, made, List.forall_mem_singleton]
  cases v.isWritable <;> rfl

theorem written_plain (v : Value) : written v.plain? = made [v] v.plain := by
  simp only [Value.plain?, made, List.forall_mem_singleton]
  cases v.isWritable <;> rfl

def pastedFields : List Field :=
  [.logoPath, .exploTitle, .exploTeam, .caveName, .comment, .topoTeam, .cartoTeam]

theorem pasted_of_text {s : Settings} {field : Field} (h : ∃ t, s.get field = .text t) :
    pasted s field = made [] (s.get field).shown := by
  obtain ⟨t, ht⟩ := h
  rw [pasted, ht]
  rfl

theorem opening_eq (s : Settings) :
    opening s = made [s.author, s.scale, s.language] (visible s).opening := by
  simp only [opening, written_shown, written_plain, pure_eq_made, made_bind]
  rfl

theorem symbolSet_eq (s : Settings) : symbolSet s = made [effectiveSet s] (visible s).symbolSetLines := by
  simp only [symbolSet, written_shown, pure_eq_made, made_bind]
  rfl

theorem survey_eq (s : Settings) : survey s = (visible s).surveyLines := by
  unfold survey Visible.surveyLines visible
  cases s.showSurvey.holds <;> rfl

theorem presentation_eq (s : Settings) :
    presentation s = made [s.rotation, s.overlap, s.scaleBarLength] (visible s).presentation := by
  simp only [presentation, written_plain, pure_eq_made, made_bind]
  rfl

theorem header_eq (s : Settings) :
    header s = made [s.headerX, s.headerY, s.headerAnchor, s.legendWidth, s.legendColumns]
      (visible s).header := by
  simp only [header, written_shown, written_plain, pure_eq_made, made_bind]
  rfl

theorem debug_eq (s : Settings) :
    debug s = made (if s.debugStationNames.holds then [s.stationLabelSize] else []) (visible s).debug := by
  simp only [debug, written_plain, pure_eq_made, made_bind]
  unfold Visible.debug visible
  cases s.debugStationNames.holds <;> rfl

theorem modules_eq (s : Settings) : modules s = (visible s).codeLines := by
  simp only [modules, Visible.codeLines, visible, String.toList_ofList]

theorem logo_eq {s : Settings} (h : ∃ t, s.get .logoPath = .text t) :
    logo s = made (if s.logoPath.holds then [s.logoWidth] else []) (visible s).logoLines := by
  have hp : pasted s .logoPath = made [] s.logoPath.shown := pasted_of_text h
  simp only [logo, hp, written_plain, pure_eq_made, made_bind]
  unfold Visible.logoLines visible
  cases s.logoPath.holds <;> rfl

theorem exploration_eq {s : Settings} (ht : ∃ t, s.get .exploTitle = .text t)
    (hm : ∃ t, s.get .exploTeam = .text t) : exploration s = made [] (visible s).explorationLines := by
  have hp : pasted s .exploTitle = made [] s.exploTitle.shown := pasted_of_text ht
  have hq : pasted s .exploTeam = made [] s.exploTeam.shown := pasted_of_text hm
  simp only [exploration, hp, hq, pure_eq_made, made_bind]
  unfold Visible.explorationLines visible
  cases s.exploTitle.holds || s.exploTeam.holds <;> rfl

theorem legendContent_eq {s : Settings} (h : ∀ field ∈ pastedFields, ∃ t, s.get field = .text t) :
    legendContent s = made ((if s.logoPath.holds then [s.logoWidth] else []) ++ [s.caveNameFontSize])
      (visible s).legendContent := by
  simp only [legendContent, logo_eq (h .logoPath (by decide)), written_plain,
    exploration_eq (h .exploTitle (by decide)) (h .exploTeam (by decide)), pure_eq_made, made_bind]
  rfl

theorem typesetting_eq {s : Settings} (h : ∀ field ∈ pastedFields, ∃ t, s.get field = .text t) :
    typesetting s = made
      ((if s.logoPath.holds then [s.logoWidth] else []) ++ [s.caveNameFontSize, s.borderThickness])
      (visible s).typesetting := by
  simp only [typesetting, pasted_of_text (h .caveName (by decide)), pasted_of_text (h .comment (by decide)),
    pasted_of_text (h .topoTeam (by decide)), pasted_of_text (h .cartoTeam (by decide)), legendContent_eq h,
    written_plain, pure_eq_made, made_bind, List.nil_append, List.append_nil, List.append_assoc,
    List.cons_append]
  rfl

/-- The sections of a document are those of the visible part, if all of it can be written. -/
theorem sections_eq {s : Settings} (h : ∀ field ∈ pastedFields, ∃ t, s.get field = .text t) :
    sections s = if Writable s then .ok (visible s).sections else .error .longInteger := by
  simp only [sections, opening_eq, symbolSet_eq, presentation_eq, header_eq, typesetting_eq h, debug_eq,
    survey_eq, modules_eq, pure_eq_made, made_bind]
  refine if_congr ?_ rfl rfl
  simp only [Writable, writtenFields, List.forall_mem_append, List.forall_mem_cons, List.not_mem_nil,
    false_imp_iff, implies_true, and_true]
  cases s.logoPath.holds <;> cases s.debugStationNames.holds <;> simp [Settings.get] <;> tauto

theorem generate_result (s : Settings) : (generate s).result = text s := by
  unfold generate text
  cases sections s <;> rfl

end Layout

namespace Visible

def text (v : Visible) : String := Layout.render v.sections

end Visible

namespace Layout

variable {s : Settings}

theorem generate_eq_visible (h : ∀ field ∈ pastedFields, ∃ t, s.get field = .text t) (hs : Writable s) :
    (generate s).result = .ok (visible s).text := by
  rw [generate_result, text, sections_eq h, if_pos hs]
  rfl

/-- Where all values but the number of columns can be written, that number decides. -/
theorem writable_iff_columns (h : ∀ field, field ≠ .legendColumns → (s.get field).isWritable) :
    Writable s ↔ s.legendColumns.isWritable := by
  have hset : (effectiveSet s).isWritable := by
    unfold effectiveSet
    split
    · rfl
    · exact h .defaultSymbolSet (by decide)
  refine ⟨fun hs => hs.2 .legendColumns (by simp [writtenFields]), fun hcolumns => ⟨hset, fun field _ => ?_⟩⟩
  by_cases hfield : field = .legendColumns
  · rw [hfield]
    exact hcolumns
  · exact h field hfield

theorem generate_of_not_writable (h : ∀ field ∈ pastedFields, ∃ t, s.get field = .text t)
    (hs : ¬ Writable s) : (generate s).result = .error .longInteger := by
  rw [generate_result, text, sections_eq h, if_neg hs]
  rfl

end Layout

end CaveMap
