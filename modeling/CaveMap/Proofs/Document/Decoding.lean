import CaveMap.Proofs.Document.Visible

namespace CaveMap

theorem PaperSize.layoutName_inj {a b : PaperSize} (h : a.layoutName = b.layoutName) : a = b := by
  revert h
  cases a <;> cases b <;> decide

namespace Layout

theorem indent_cons (line : String) (rest : List String) :
    indent (line :: rest) = (if line.isEmpty then "" else "  " ++ line) :: indent rest := rfl

theorem indent_inj {a b : List String} (h : indent a = indent b) : a = b := by
  refine List.map_injective_iff.2 (fun x y hxy => ?_) h
  split at hxy <;> split at hxy
  · next hx hy => rw [String.isEmpty_iff.1 hx, String.isEmpty_iff.1 hy]
  · simp [← String.toList_inj] at hxy
  · simp [← String.toList_inj] at hxy
  · exact Text.prefixed_inj hxy

theorem empty_not_mem_indent {lines : List String} (h : "" ∉ lines) : "" ∉ indent lines := by
  intro hin
  obtain ⟨line, hline, he⟩ := List.mem_map.1 hin
  split at he
  · next hempty => exact h (String.isEmpty_iff.1 hempty ▸ hline)
  · simp [← String.toList_inj] at he

theorem isLine_indent {lines : List String} (h : ∀ line ∈ lines, Text.IsLine line) :
    ∀ line ∈ indent lines, Text.IsLine line := by
  intro line hin
  obtain ⟨inner, hinner, rfl⟩ := List.mem_map.1 hin
  split
  · exact List.not_mem_nil
  · exact Text.IsLine.append (by simp [Text.IsLine]) (h inner hinner)

end Layout

namespace Visible

open Layout Text

/-- What the sections of a document need to be told apart. -/
structure Decodable (v : Visible) : Prop where
  isLine : ∀ block ∈ v.sections, ∀ line ∈ block, IsLine line
  directives : "" ∉ v.directives
  color : ∀ color style, v.survey = some (color, style) → ∃ start, color = start ++ ")"
  headerX : ' ' ∉ v.headerX.toList
  headerY : ' ' ∉ v.headerY.toList
  logo : ∀ path width, v.logo = some (path, width) → '=' ∉ width.toList
  exploration : ∀ title team, v.exploration = some (title, team) → '\x7d' ∉ title.toList
  code : v.code.toList.head?.all fun c => c ≠ ' ' && c ≠ '\n'

variable {v w : Visible}

theorem flag_inj {b c : Bool} (h : flag b = flag c) : b = c := by
  revert h
  cases b <;> cases c <;> decide

theorem opening_inj (h : v.opening = w.opening) :
    v.author = w.author ∧ v.scale = w.scale ∧ v.language = w.language := by
  have he := indent_inj (List.cons.inj h).2
  simp only [List.cons.injEq, and_true] at he
  exact ⟨enclosed_inj he.1, prefixed_inj he.2.1, prefixed_inj he.2.2⟩

theorem colors_inj (h : v.colors = w.colors) :
    v.background = w.background ∧ v.foreground = w.foreground := by
  have he := indent_inj h
  simp only [List.cons.injEq, and_true] at he
  exact ⟨prefixed_inj he.1, prefixed_inj he.2⟩

theorem symbolSetLines_inj (h : v.symbolSetLines = w.symbolSetLines) : v.symbolSet = w.symbolSet :=
  prefixed_inj (List.cons.inj (indent_inj h)).1

theorem dash_inj {a b : SurveyStyle} (h : a.dash = b.dash) : a = b := by
  revert h
  cases a <;> cases b <;> decide

theorem dash_without_bracket (style : SurveyStyle) : ')' ∉ style.dash.toList := by
  cases style <;> decide

theorem survey_inj (hv : v.Decodable) (hw : w.Decodable) (h : v.surveyLines = w.surveyLines) :
    v.survey = w.survey := by
  unfold surveyLines at h
  cases hsv : v.survey with
  | none =>
    cases hsw : w.survey with
    | none => rfl
    | some color =>
      rw [hsv, hsw] at h
      have he := (List.cons.inj (indent_inj h)).1
      exact absurd he (by decide)
  | some shown =>
    obtain ⟨color, style⟩ := shown
    cases hsw : w.survey with
    | none =>
      rw [hsv, hsw] at h
      have he := (List.cons.inj (indent_inj h)).1
      exact absurd he (by decide)
    | some shown =>
      obtain ⟨color', style'⟩ := shown
      obtain ⟨start, rfl⟩ := hv.color color style hsv
      obtain ⟨start', rfl⟩ := hw.color color' style' hsw
      rw [hsv, hsw] at h
      have he := indent_inj h
      simp only [List.append_cancel_left_eq, List.append_cancel_right_eq] at he
      have he := indent_inj he
      simp only [List.append_cancel_left_eq, List.append_cancel_right_eq] at he
      have he := indent_inj he
      simp only [List.append_cancel_left_eq, List.append_cancel_right_eq] at he
      have he := indent_inj he
      simp only [List.cons.injEq, true_and, and_true] at he
      have hline := congrArg String.toList (suffixed_inj he)
      simp only [String.toList_append, List.append_assoc, List.append_cancel_left_eq] at hline
      obtain ⟨hc, hd⟩ := last_mark_inj (dash_without_bracket style) (dash_without_bracket style') hline
      rw [String.toList_inj.1 hc, dash_inj (String.toList_inj.1 hd)]

theorem presentation_inj (h : v.presentation = w.presentation) :
    v.rotation = w.rotation ∧ v.transparency = w.transparency ∧ v.overlap = w.overlap ∧
      v.scaleBar = w.scaleBar := by
  have he := indent_inj h
  simp only [List.cons.injEq, and_true] at he
  exact ⟨prefixed_inj he.1, flag_inj (prefixed_inj he.2.1), enclosed_inj he.2.2.1, enclosed_inj he.2.2.2⟩

theorem header_inj (hv : v.Decodable) (hw : w.Decodable) (h : v.header = w.header) :
    v.headerX = w.headerX ∧ v.headerY = w.headerY ∧ v.headerAnchor = w.headerAnchor ∧
      v.headerBg = w.headerBg ∧ v.legend = w.legend ∧ v.legendWidth = w.legendWidth ∧
      v.legendColumns = w.legendColumns := by
  have he := indent_inj h
  simp only [List.cons.injEq, and_true] at he
  obtain ⟨hplace, hbg, hlegend, hwidth, hcolumns⟩ := he
  have hline := congrArg String.toList hplace
  simp only [String.toList_append, List.append_assoc, List.append_cancel_left_eq] at hline
  obtain ⟨hx, hline⟩ := first_mark_inj hv.headerX hw.headerX hline
  obtain ⟨hy, ha⟩ := first_mark_inj hv.headerY hw.headerY hline
  exact ⟨String.toList_inj.1 hx, String.toList_inj.1 hy, String.toList_inj.1 ha, flag_inj (prefixed_inj hbg),
    flag_inj (prefixed_inj hlegend), enclosed_inj hwidth, prefixed_inj hcolumns⟩

theorem logo_inj (hv : v.Decodable) (hw : w.Decodable) (h : v.logoLines = w.logoLines) :
    v.logo = w.logo := by
  unfold logoLines at h
  cases hlv : v.logo with
  | none =>
    cases hlw : w.logo with
    | none => rfl
    | some shown =>
      rw [hlv, hlw] at h
      exact absurd h (List.cons_ne_nil _ _).symm
  | some shown =>
    obtain ⟨path, width⟩ := shown
    cases hlw : w.logo with
    | none =>
      rw [hlv, hlw] at h
      exact absurd h (List.cons_ne_nil _ _)
    | some shown =>
      obtain ⟨path', width'⟩ := shown
      rw [hlv, hlw] at h
      have hline := congrArg String.toList (suffixed_inj (List.cons.inj h).1)
      have hmark : ("][width=" : String).toList = "][width".toList ++ ['='] := by decide
      simp only [String.toList_append, hmark, List.append_assoc, List.append_cancel_left_eq,
        List.singleton_append] at hline
      rw [← List.append_assoc path.toList, ← List.append_assoc path'.toList] at hline
      obtain ⟨hp, hwidth⟩ := last_mark_inj (hv.logo _ _ hlv) (hw.logo _ _ hlw) hline
      rw [String.toList_inj.1 (List.append_cancel_right hp), String.toList_inj.1 hwidth]

theorem exploration_inj (hv : v.Decodable) (hw : w.Decodable)
    (h : v.explorationLines = w.explorationLines) : v.exploration = w.exploration := by
  unfold explorationLines at h
  cases hev : v.exploration with
  | none =>
    cases hew : w.exploration with
    | none => rfl
    | some shown =>
      rw [hev, hew] at h
      exact absurd h (List.cons_ne_nil _ _).symm
  | some shown =>
    obtain ⟨title, team⟩ := shown
    cases hew : w.exploration with
    | none =>
      rw [hev, hew] at h
      exact absurd h (List.cons_ne_nil _ _)
    | some shown =>
      obtain ⟨title', team'⟩ := shown
      rw [hev, hew] at h
      have hline := congrArg String.toList (suffixed_inj (List.cons.inj h).1)
      have hmark : (":\x7d " : String).toList = ':' :: '\x7d' :: [' '] := by decide
      simp only [String.toList_append, hmark, List.append_assoc, List.append_cancel_left_eq,
        List.cons_append, List.nil_append] at hline
      rw [List.append_cons title.toList, List.append_cons title'.toList] at hline
      have hbrace {t : String} (ht : '\x7d' ∉ t.toList) : '\x7d' ∉ t.toList ++ [':'] := by
        simpa using ht
      obtain ⟨ht, hteam⟩ :=
        first_mark_inj (hbrace (hv.exploration _ _ hev)) (hbrace (hw.exploration _ _ hew)) hline
      rw [String.toList_inj.1 (List.append_cancel_right ht), String.toList_inj.1 (List.cons.inj hteam).2]

theorem teams_inj (hv : v.Decodable) (hw : w.Decodable) (h : v.teams = w.teams) :
    v.exploration = w.exploration := by
  unfold teams at h
  rw [List.append_assoc, List.append_assoc, List.append_cancel_left_eq] at h
  have hmark (u : Visible) : teamLine "topoteam" surveyTeamLabel ∉ u.explorationLines := by
    unfold explorationLines
    split
    · exact List.not_mem_nil
    · intro hin
      have hhead := congrArg (·.toList.head?) (List.mem_singleton.1 hin)
      have hteam : (teamLine "topoteam" surveyTeamLabel).toList.head? = some '\\' := by decide
      simp only [hteam, String.toList_append, List.append_assoc] at hhead
      rw [List.head?_append_of_ne_nil _ (by decide)] at hhead
      exact absurd hhead (by decide)
  exact exploration_inj hv hw (first_mark_inj (hmark v) (hmark w) h).1

theorem legendContent_inj (hv : v.Decodable) (hw : w.Decodable)
    (h : v.legendContent = w.legendContent) :
    v.logo = w.logo ∧ v.fontSize = w.fontSize ∧ v.exploration = w.exploration := by
  unfold legendContent at h
  simp only [List.append_assoc, List.cons_append, List.nil_append] at h
  have hmark (u : Visible) :
      "\\edef\\tmp\x7b\\the\\cavename\x7d \\ifx\\tmp\\empty \\else" ∉ u.logoLines := by
    unfold logoLines
    split
    · exact List.not_mem_nil
    · simp [← String.toList_inj]
  simp only [List.cons.injEq, true_and] at h
  obtain ⟨hlogo, hrest⟩ := first_mark_inj (hmark v) (hmark w) h
  simp only [List.cons.injEq, true_and, List.append_cancel_right_eq] at hrest
  exact ⟨logo_inj hv hw hlogo, enclosed_inj hrest.1, teams_inj hv hw (indent_inj hrest.2)⟩

theorem typesetting_inj (hv : v.Decodable) (hw : w.Decodable) (h : v.typesetting = w.typesetting) :
    v.caveName = w.caveName ∧ v.comment = w.comment ∧ v.topoTeam = w.topoTeam ∧
      v.cartoTeam = w.cartoTeam ∧ v.border = w.border ∧ v.logo = w.logo ∧ v.fontSize = w.fontSize ∧
      v.exploration = w.exploration := by
  have he := indent_inj h
  simp only [List.append_cancel_left_eq, List.append_cancel_right_eq] at he
  have he := indent_inj he
  simp only [List.cons_append, List.nil_append, List.cons.injEq, true_and] at he
  obtain ⟨hname, hcomment, htopo, hcarto, hrest⟩ := he
  obtain ⟨hlegend, hend⟩ := List.append_inj' hrest rfl
  simp only [List.cons.injEq, true_and, and_true] at hend
  exact ⟨enclosed_inj hname, enclosed_inj hcomment, enclosed_inj htopo, enclosed_inj hcarto,
    enclosed_inj hend, legendContent_inj hv hw (indent_inj hlegend)⟩

theorem typesetting_eq_append (v : Visible) :
    ∃ start, v.typesetting = start ++ ["  endcode"] ∧ "  endcode" ∉ start := by
  refine ⟨_, List.map_append, fun hin => ?_⟩
  rw [List.map_append, List.mem_append] at hin
  rcases hin with hin | hin
  · revert hin
    decide
  · obtain ⟨line, hline, he⟩ := List.mem_map.1 hin
    obtain ⟨inner, -, rfl⟩ := List.mem_map.1 hline
    split at he
    · simp [← String.toList_inj] at he
    · split at he
      · simp [← String.toList_inj] at he
      · simp [← String.toList_inj] at he

theorem debug_inj (h : v.debug = w.debug) : v.stationLabels = w.stationLabels := by
  unfold debug at h
  cases hv : v.stationLabels with
  | none =>
    cases hw : w.stationLabels with
    | none => rfl
    | some size =>
      rw [hv, hw] at h
      exact absurd h (List.cons_ne_nil _ _).symm
  | some size =>
    cases hw : w.stationLabels with
    | none =>
      rw [hv, hw] at h
      exact absurd h (List.cons_ne_nil _ _)
    | some size' =>
      rw [hv, hw] at h
      have he := indent_inj h
      simp only [List.cons.injEq, true_and, and_true] at he
      rw [enclosed_inj he]

theorem codeLines_inj (h : v.codeLines = w.codeLines) : v.code = w.code := by
  unfold codeLines at h
  split at h <;> split at h
  · next hv hw =>
    rw [← String.toList_inj, List.isEmpty_iff.1 hv, List.isEmpty_iff.1 hw]
  · exact absurd (List.map_eq_nil_iff.1 h.symm) (stretches_ne_nil _ _)
  · exact absurd (List.map_eq_nil_iff.1 h) (stretches_ne_nil _ _)
  · have he := List.map_injective_iff.2 (fun _ _ => String.ofList_injective) h
    exact String.toList_inj.1 (stretches_inj he)

theorem page_inj (h : v.page = w.page) : v.paper = w.paper :=
  PaperSize.layoutName_inj (prefixed_inj (List.cons.inj h).1)

theorem head?_codeLines (hv : v.Decodable) (hc : v.codeLines ≠ []) :
    v.codeLines.head? ≠ some "  debug station-names" := by
  unfold codeLines at hc ⊢
  split
  · next hempty =>
    rw [if_pos hempty] at hc
    exact absurd rfl hc
  · have hcode := hv.code
    cases hl : v.code.toList with
    | nil => simp [hl] at *
    | cons c rest =>
      rw [hl, List.head?_cons, Option.all_some, Bool.and_eq_true] at hcode
      obtain ⟨first, more, hs⟩ := head?_stretches (p := (· = '\n')) rest (by simpa using hcode.2)
      rw [hs, List.map_cons, List.head?_cons]
      intro he
      have hline := congrArg String.toList (Option.some.inj he)
      rw [String.toList_ofList] at hline
      have hspace : c = ' ' := (List.cons.inj hline).1
      simp [hspace] at hcode

theorem head?_debug (hs : v.stationLabels ≠ none) :
    v.debug.head? = some "  debug station-names" := by
  unfold debug
  cases h : v.stationLabels with
  | none => exact absurd h hs
  | some size => rfl

theorem debug_code_inj (hv : v.Decodable) (hw : w.Decodable)
    (h : followed v.debug (followed v.codeLines []) = followed w.debug (followed w.codeLines [])) :
    v.stationLabels = w.stationLabels ∧ v.code = w.code := by
  have hcode (he : followed v.codeLines [] = followed w.codeLines []) : v.code = w.code := by
    unfold followed at he
    split at he <;> split at he
    · next hvn hwn => exact codeLines_inj (by rw [List.isEmpty_iff.1 hvn, List.isEmpty_iff.1 hwn])
    · exact absurd he.symm (by simp)
    · exact absurd he (by simp)
    · exact codeLines_inj (List.append_cancel_right he)
  -- With labels on one side only, the other side begins with code, which has no space in front, or ends.
  have hmissing {u x : Visible} (hu : u.Decodable) (hn : u.stationLabels = none)
      (hs : x.stationLabels ≠ none)
      (he : followed u.debug (followed u.codeLines []) = followed x.debug (followed x.codeLines [])) :
      False := by
    have hx := head?_debug hs
    have hxn : x.debug ≠ [] := fun hnil => by simp [hnil] at hx
    have hempty : u.debug = [] := by unfold debug; rw [hn]
    rw [hempty, followed_of_ne_nil hxn] at he
    have hhead := congrArg List.head? he
    rw [List.head?_append_of_ne_nil _ hxn, hx] at hhead
    by_cases hc : u.codeLines = []
    · simp [followed, hc] at hhead
    · refine head?_codeLines hu hc ?_
      rw [← hhead]
      change _ = (followed u.codeLines []).head?
      rw [followed_of_ne_nil hc, List.head?_append_of_ne_nil _ hc]
  cases hsv : v.stationLabels with
  | none =>
    cases hsw : w.stationLabels with
    | none =>
      have hd {u : Visible} (hn : u.stationLabels = none) : u.debug = [] := by unfold debug; rw [hn]
      rw [hd hsv, hd hsw] at h
      exact ⟨rfl, hcode h⟩
    | some size => exact (hmissing hv hsv (by simp [hsw]) h).elim
  | some size =>
    cases hsw : w.stationLabels with
    | none => exact (hmissing hw hsw (by simp [hsv]) h.symm).elim
    | some size' =>
      have hl : v.debug.length = w.debug.length := by
        unfold debug
        rw [hsv, hsw]
        rfl
      obtain ⟨hd, hc⟩ := followed_inj hl h
      exact ⟨by rw [← hsv, ← hsw, debug_inj hd], hcode hc⟩

def blocks (v : Visible) : List (List String) :=
  [preamble, v.opening, v.colors, v.symbolSetLines, v.directiveLines, v.surveyLines, v.presentation,
    v.header, v.typesetting, v.debug, v.codeLines, closing]

def lines (v : Visible) : List String := v.blocks.foldr followed v.page

theorem page_ne_nil (v : Visible) : v.page ≠ [] := List.cons_ne_nil _ _

theorem presentation_ne_nil (v : Visible) : v.presentation ≠ [] := List.cons_ne_nil _ _

theorem surveyLines_ne_nil (v : Visible) : v.surveyLines ≠ [] := by
  unfold surveyLines
  split <;> exact List.cons_ne_nil _ _

theorem lines_ne_nil (v : Visible) : v.lines ≠ [] := by
  have hp : followed preamble (v.blocks.tail.foldr followed v.page) ≠ [] := by
    rw [followed_of_ne_nil (by decide)]
    exact List.cons_ne_nil _ _
  exact hp

theorem text_eq (v : Visible) : v.text = String.intercalate "\n" v.lines ++ "\n" := by
  have hs : v.sections = (v.blocks ++ [v.page]).filter (!·.isEmpty) := rfl
  have hne : ∀ block ∈ v.sections, block ≠ [] := by
    intro block hin
    simpa using (List.mem_filter.1 hin).2
  rw [text, render, intercalate_blocks hne, hs, spaced_filter v.page_ne_nil]
  rfl

theorem isLine_lines (h : ∀ block ∈ v.sections, ∀ line ∈ block, IsLine line) :
    ∀ line ∈ v.lines, IsLine line := by
  intro line hin
  rw [lines, ← spaced_filter v.page_ne_nil] at hin
  rcases mem_spaced hin with rfl | ⟨block, hblock, hline⟩
  · exact List.not_mem_nil
  · exact h block hblock line hline

theorem empty_not_mem_surveyLines (v : Visible) : "" ∉ v.surveyLines := by
  unfold surveyLines
  split
  · decide
  · refine empty_not_mem_indent ?_
    simp only [List.mem_append, not_or]
    refine ⟨⟨by decide, empty_not_mem_indent ?_⟩, by decide⟩
    simp only [List.mem_append, not_or]
    refine ⟨⟨by decide, empty_not_mem_indent ?_⟩, by decide⟩
    simp only [List.mem_append, not_or]
    refine ⟨⟨by decide, empty_not_mem_indent ?_⟩, by decide⟩
    simp [← String.toList_inj]

theorem head?_surveyLines (v : Visible) :
    v.surveyLines.head? = some "  symbol-hide line survey" ∨
      v.surveyLines.head? = some "  code metapost" := by
  unfold surveyLines
  split
  · exact .inl rfl
  · exact .inr rfl

theorem head?_presentation_ne (v w : Visible) (rest : List String) :
    (followed v.presentation rest).head? ≠ w.surveyLines.head? := by
  intro h
  have hp : (followed v.presentation rest).head? = some ("  " ++ ("rotate " ++ v.rotation)) := by
    rw [followed_of_ne_nil v.presentation_ne_nil]
    unfold presentation
    rw [indent_cons, if_neg (by simp [← String.toList_inj])]
    rfl
  rw [hp] at h
  rcases head?_surveyLines w with hw | hw
  · rw [hw] at h
    simp [← String.toList_inj] at h
  · rw [hw] at h
    simp [← String.toList_inj] at h

theorem typesetting_followed_inj {r s : List String}
    (h : followed v.typesetting r = followed w.typesetting s) : v.typesetting = w.typesetting ∧ r = s := by
  obtain ⟨a, ha, hna⟩ := typesetting_eq_append v
  obtain ⟨b, hb, hnb⟩ := typesetting_eq_append w
  rw [ha, hb, followed_of_ne_nil (by simp), followed_of_ne_nil (by simp), List.append_assoc,
    List.append_assoc] at h
  obtain ⟨he, hr⟩ := first_mark_inj hna hnb h
  exact ⟨by rw [ha, hb, he], (List.cons.inj hr).2⟩

theorem followed_append (block rest tail : List String) :
    followed block (rest ++ tail) = followed block rest ++ tail := by
  unfold followed
  split
  · rfl
  · rw [List.append_assoc]
    rfl

/-- The document tells everything that it shows. -/
theorem text_inj (hv : v.Decodable) (hw : w.Decodable) (h : v.text = w.text) : v = w := by
  rw [text_eq, text_eq] at h
  have hlines :=
    joined_inj (isLine_lines hv.isLine) (isLine_lines hw.isLine) v.lines_ne_nil w.lines_ne_nil (suffixed_inj h)
  simp only [lines, blocks, List.foldr_cons, List.foldr_nil] at hlines
  obtain ⟨-, hlines⟩ := followed_inj (by rfl) hlines
  obtain ⟨hopening, hlines⟩ := followed_inj (by rfl) hlines
  obtain ⟨hcolors, hlines⟩ := followed_inj (by rfl) hlines
  obtain ⟨hset, hlines⟩ := followed_inj (by rfl) hlines
  obtain ⟨hdirectives, hsurvey, hlines⟩ :=
    followed_optional_inj (empty_not_mem_indent hv.directives) (empty_not_mem_indent hw.directives)
      (empty_not_mem_surveyLines v) (empty_not_mem_surveyLines w) v.surveyLines_ne_nil
      w.surveyLines_ne_nil (head?_presentation_ne _ _ _) (head?_presentation_ne _ _ _) hlines
  obtain ⟨hpresentation, hlines⟩ := followed_inj (by rfl) hlines
  obtain ⟨hheader, hlines⟩ := followed_inj (by rfl) hlines
  obtain ⟨htypesetting, hlines⟩ := typesetting_followed_inj hlines
  have htail (u : Visible) : followed u.debug (followed u.codeLines (followed closing u.page)) =
      followed u.debug (followed u.codeLines []) ++ followed closing u.page := by
    rw [← followed_append, ← followed_append, List.nil_append]
  rw [htail v, htail w] at hlines
  obtain ⟨hdebug, hpage⟩ := List.append_inj' hlines rfl
  obtain ⟨-, hpage⟩ := followed_inj (by rfl) hpage
  obtain ⟨hauthor, hscale, hlanguage⟩ := opening_inj hopening
  obtain ⟨hbackground, hforeground⟩ := colors_inj hcolors
  obtain ⟨hrotation, htransparency, hoverlap, hbar⟩ := presentation_inj hpresentation
  obtain ⟨hx, hy, hanchor, hbg, hlegend, hwidth, hcolumns⟩ := header_inj hv hw hheader
  obtain ⟨hname, hcomment, htopo, hcarto, hborder, hlogo, hfont, hexploration⟩ :=
    typesetting_inj hv hw htypesetting
  obtain ⟨hlabels, hcode⟩ := debug_code_inj hv hw hdebug
  exact Visible.ext hauthor hscale hlanguage hbackground hforeground (symbolSetLines_inj hset)
    (indent_inj hdirectives) (survey_inj hv hw hsurvey) hrotation htransparency hoverlap hbar hx hy hanchor
    hbg hlegend hwidth hcolumns hlogo hname hcomment htopo hcarto hfont hexploration hborder hlabels hcode
    (page_inj hpage)

end Visible

end CaveMap
