import CaveMap.Proofs.Document.Visible
import CaveMap.Proofs.Text.Braces

namespace CaveMap

open Text

namespace Layout

def setNumbers : List Field := [.logoWidth, .caveNameFontSize, .borderThickness, .stationLabelSize]

/-- The token registers that are assigned a field. -/
def registers : List (String × Field) :=
  [("cavename", .caveName), ("comment", .comment), ("topoteam", .topoTeam), ("cartoteam", .cartoTeam)]

/-- Outside of all groups a token register is assigned a text, which fills a group. -/
def Assigns (text : List Char) (register content : String) : Prop :=
  ∃ front back behind, text = front ++ ("\\" ++ register ++ "=\x7b").toList ++ back ∧ Balanced front ∧
    group? 0 back = some (content.toList, behind) ∧ Balanced behind

end Layout

/-- What is pasted into TeX code is balanced, and there are numbers where they belong and none too long to be
written. -/
structure Settings.Braced (s : Settings) : Prop where
  texts : ∀ field ∈ Layout.pastedFields, ∃ t, s.get field = .text t ∧ Balanced t.toList
  written : Layout.Writable s
  numbers : ∀ field ∈ Layout.setNumbers, (s.get field).IsNumber

namespace Visible

open Layout

/-- What TeX code shows of the visible part is balanced. -/
structure Braced (v : Visible) : Prop where
  logo : ∀ path width, v.logo = some (path, width) → Balanced path.toList ∧ Balanced width.toList
  caveName : Balanced v.caveName.toList
  comment : Balanced v.comment.toList
  topoTeam : Balanced v.topoTeam.toList
  cartoTeam : Balanced v.cartoTeam.toList
  fontSize : Balanced v.fontSize.toList
  exploration : ∀ title team, v.exploration = some (title, team) → Balanced title.toList ∧ Balanced team.toList
  border : Balanced v.border.toList
  stationLabels : ∀ size, v.stationLabels = some size → Balanced size.toList

end Visible

theorem Value.IsNumber.balanced_plain {v : Value} (h : v.IsNumber) : Balanced v.plain.toList :=
  balanced_of_notMem (h.isNumeral_plain.not_mem (by decide)) (h.isNumeral_plain.not_mem (by decide))

namespace Settings.Braced

variable {s : Settings}

theorem pasted (h : s.Braced) : ∀ field ∈ Layout.pastedFields, ∃ t, s.get field = .text t := by
  intro field hin
  obtain ⟨t, ht, -⟩ := h.texts field hin
  exact ⟨t, ht⟩

theorem balanced_shown (h : s.Braced) (field : Field) (hin : field ∈ Layout.pastedFields) :
    Balanced (s.get field).shown.toList := by
  obtain ⟨t, ht, hb⟩ := h.texts field hin
  rwa [ht]

theorem balanced_plain (h : s.Braced) (field : Field) (hin : field ∈ Layout.setNumbers) :
    Balanced (s.get field).plain.toList := (h.numbers field hin).balanced_plain

theorem visible (h : s.Braced) : (Layout.visible s).Braced where
  logo path width he := by
    obtain ⟨-, he⟩ := Option.ite_none_right_eq_some.1 he
    cases he
    exact ⟨h.balanced_shown .logoPath (by decide), h.balanced_plain .logoWidth (by decide)⟩
  caveName := h.balanced_shown .caveName (by decide)
  comment := h.balanced_shown .comment (by decide)
  topoTeam := h.balanced_shown .topoTeam (by decide)
  cartoTeam := h.balanced_shown .cartoTeam (by decide)
  fontSize := h.balanced_plain .caveNameFontSize (by decide)
  exploration title team he := by
    obtain ⟨-, he⟩ := Option.ite_none_right_eq_some.1 he
    cases he
    exact ⟨h.balanced_shown .exploTitle (by decide), h.balanced_shown .exploTeam (by decide)⟩
  border := h.balanced_plain .borderThickness (by decide)
  stationLabels size he := by
    obtain ⟨-, he⟩ := Option.ite_none_right_eq_some.1 he
    cases he
    exact h.balanced_plain .stationLabelSize (by decide)

end Settings.Braced

namespace Text

theorem Stairs.indent {lines : List String} {depth next : Nat} (h : Stairs depth lines next) :
    Stairs depth (Layout.indent lines) next := by
  induction h with
  | nil => exact .nil _
  | @cons _ _ _ line _ hline _ ih =>
    refine .cons ?_ ih
    dsimp only
    split
    · next hempty => rwa [String.isEmpty_iff.1 hempty] at hline
    · exact ((by decide : Balanced "  ".toList).climbs _).append hline

end Text

namespace Visible

open Layout

variable {v : Visible}

theorem balanced_indent {lines : List String} (h : ∀ line ∈ lines, Balanced line.toList) :
    ∀ line ∈ indent lines, Balanced line.toList := by
  rintro _ hin
  obtain ⟨line, hline, rfl⟩ := List.mem_map.1 hin
  split
  · decide
  · rw [String.toList_append]
    exact Balanced.append (by decide) (h line hline)

theorem indent_append (a b : List String) : indent (a ++ b) = indent a ++ indent b := List.map_append

theorem balanced_assignment {register content : String} (hr : Balanced register.toList)
    (hc : Balanced content.toList) : Balanced (assignment register content).toList := by
  have hopened : Climbs 0 ("\\" ++ register ++ "=\x7b") 1 :=
    ((by decide : Climbs 0 "\\" 0).append_balanced hr).append (by decide)
  exact balanced_iff.2 ((hopened.append_balanced hc).append (by decide : Climbs 1 "\x7d" 0))

theorem balanced_teamLine {register label : String} (hr : Balanced register.toList) (hl : Balanced label.toList) :
    Balanced (teamLine register label).toList := by
  have hempty : Climbs 0 ("\\edef\\tmp\x7b\\the\\" ++ register ++ "\x7d \\ifx\\tmp\\empty \\else \x7b\\bf ") 1 :=
    ((by decide : Climbs 0 _ 1).append_balanced hr).append (by decide)
  have hlabel : Climbs 0 (_ ++ label ++ ":\x7d \\the\\") 0 :=
    (hempty.append_balanced hl).append (by decide : Climbs 1 _ 0)
  exact balanced_iff.2 ((hlabel.append_balanced hr).append (by decide : Climbs 0 _ 0))

namespace Braced

theorem balanced_logoLines (h : v.Braced) : ∀ line ∈ v.logoLines, Balanced line.toList := by
  unfold Visible.logoLines
  split
  · simp
  · next path width he =>
    obtain ⟨hpath, hwidth⟩ := h.logo path width he
    rw [List.forall_mem_singleton, balanced_iff]
    have hfigure : Climbs 0 ("\\vbox\x7b\\externalfigure[" ++ path) 1 :=
      (by decide : Climbs 0 _ 1).append_balanced hpath
    have hset : Climbs 0 (_ ++ "][width=" ++ width) 1 :=
      (hfigure.append (by decide : Climbs 1 _ 1)).append_balanced hwidth
    exact hset.append (by decide : Climbs 1 _ 0)

theorem balanced_explorationLines (h : v.Braced) : ∀ line ∈ v.explorationLines, Balanced line.toList := by
  unfold Visible.explorationLines
  split
  · simp
  · next title team he =>
    obtain ⟨htitle, hteam⟩ := h.exploration title team he
    rw [List.forall_mem_singleton, balanced_iff]
    have hbold : Climbs 0 ("\x7b\\bf " ++ title ++ ":\x7d ") 0 :=
      ((by decide : Climbs 0 _ 1).append_balanced htitle).append (by decide : Climbs 1 _ 0)
    exact (hbold.append_balanced hteam).append (by decide : Climbs 0 _ 0)

theorem balanced_teams (h : v.Braced) : ∀ line ∈ v.teams, Balanced line.toList := by
  have hcomment : ∀ line ∈ ["\\edef\\tmp\x7b\\the\\comment\x7d \\ifx\\tmp\\empty \\else \\tmp \\vskip0.5cm \\fi"],
      Balanced line.toList := by decide
  have hteams : ∀ line ∈ [teamLine "topoteam" surveyTeamLabel, teamLine "cartoteam" cartoTeamLabel],
      Balanced line.toList := by
    rw [List.forall_mem_cons, List.forall_mem_singleton]
    exact ⟨balanced_teamLine (by decide) (by decide), balanced_teamLine (by decide) (by decide)⟩
  unfold Visible.teams
  rw [List.forall_mem_append, List.forall_mem_append]
  exact ⟨⟨hcomment, h.balanced_explorationLines⟩, hteams⟩

theorem stairs_legendContent (h : v.Braced) : Stairs 1 v.legendContent 1 := by
  have hsize : Balanced ("  \x7b\\size[" ++ v.fontSize ++ "]\\the\\cavename\x7d \\vskip1cm").toList :=
    balanced_iff.2 (((by decide : Climbs 0 _ 1).append_balanced h.fontSize).append (by decide : Climbs 1 _ 0))
  have hname : Stairs 1 ["\\edef\\tmp\x7b\\the\\cavename\x7d \\ifx\\tmp\\empty \\else",
      "  \x7b\\size[" ++ v.fontSize ++ "]\\the\\cavename\x7d \\vskip1cm", "\\fi",
      "\\ifscalebar\\scalebar\\vskip1cm\\fi", "\x7b\\ss"] 2 :=
    .cons_balanced (by decide) <| .cons_balanced hsize <| .cons_balanced (by decide) <| .cons_balanced (by decide) <|
      .cons (by decide) (.nil 2)
  have hteams : Stairs 2 (indent v.teams) 2 := (Stairs.of_balanced h.balanced_teams 2).indent
  have hclosing : Stairs 2 ["\x7d", "\\vskip1cm", "\\formattedlegend"] 1 :=
    .cons (by decide) (.of_balanced (by decide) 1)
  have hbox : Stairs 1 ["\\hsize=\\legendwidth",
      "\\ifnortharrow\\vbox to 0pt\x7b\\line\x7b\\hfil\\northarrow\x7d\\vss\x7d\\fi"] 1 := .of_balanced (by decide) 1
  have hlogo : Stairs 1 v.logoLines 1 := .of_balanced h.balanced_logoLines 1
  exact (((hbox.append hlogo).append hname).append hteams).append hclosing

end Braced

def registerLines (v : Visible) : List String :=
  ["\\newtoks\\topoteam \\newtoks\\cartoteam",
   "",
   assignment "cavename" v.caveName,
   assignment "comment" v.comment,
   assignment "topoteam" v.topoTeam,
   assignment "cartoteam" v.cartoTeam]

def legendLines (v : Visible) : List String :=
  ["", "\\legendcontent=\x7b%"] ++ indent v.legendContent ++ ["\x7d", "", "\\framethickness=" ++ v.border ++ "mm"]

theorem typesetting_split (v : Visible) :
    v.typesetting = indent (["# Custom TeX legend", "code tex-map"] ++ indent v.registerLines) ++
      indent (indent v.legendLines ++ ["endcode"]) := by
  have hbody : v.typesetting = indent (["# Custom TeX legend", "code tex-map"] ++
      indent (v.registerLines ++ v.legendLines) ++ ["endcode"]) := rfl
  rw [hbody]
  simp only [indent_append, List.append_assoc]

namespace Braced

theorem balanced_registerLines (h : v.Braced) : ∀ line ∈ v.registerLines, Balanced line.toList := by
  simp only [Visible.registerLines, List.forall_mem_cons, List.not_mem_nil, false_imp_iff, implies_true, and_true]
  exact ⟨by decide, by decide, balanced_assignment (by decide) h.caveName, balanced_assignment (by decide) h.comment,
    balanced_assignment (by decide) h.topoTeam, balanced_assignment (by decide) h.cartoTeam⟩

theorem stairs_legendLines (h : v.Braced) : Stairs 0 v.legendLines 0 := by
  have hborder : Climbs 0 ("\\framethickness=" ++ v.border ++ "mm") 0 :=
    ((by decide : Climbs 0 _ 0).append_balanced h.border).append (by decide)
  have hopening : Stairs 0 ["", "\\legendcontent=\x7b%"] 1 := .cons_balanced (by decide) (.cons (by decide) (.nil 1))
  have hclosing : Stairs 1 ["\x7d", "", "\\framethickness=" ++ v.border ++ "mm"] 0 :=
    .cons (by decide) (.cons_balanced (by decide) (.cons hborder (.nil 0)))
  exact (hopening.append h.stairs_legendContent.indent).append hclosing

theorem stairs_typesetting (h : v.Braced) : Stairs 0 v.typesetting 0 := by
  rw [typesetting_split]
  have hopening : Stairs 0 ["# Custom TeX legend", "code tex-map"] 0 := .of_balanced (by decide) 0
  have hregisters : Stairs 0 (indent v.registerLines) 0 := (Stairs.of_balanced h.balanced_registerLines 0).indent
  have hclosing : Stairs 0 ["endcode"] 0 := .of_balanced (by decide) 0
  exact (hopening.append hregisters).indent.append (h.stairs_legendLines.indent.append hclosing).indent

theorem stairs_debug (h : v.Braced) : Stairs 0 v.debug 0 := by
  unfold Visible.debug
  split
  · exact .nil 0
  · next size he =>
    have hlabel : Climbs 0 ("  \\def\\printstationlabel#1\x7b\\size[" ++ size ++ "]\\ss #1\x7d") 0 :=
      ((by decide : Climbs 0 _ 1).append_balanced (h.stationLabels size he)).append (by decide : Climbs 1 _ 0)
    have hblock : Stairs 0 _ 0 := .cons hlabel <| .of_balanced (by decide : ∀ line ∈ ["endcode"], _) 0
    exact Stairs.indent <| .cons_balanced (by decide) <| .cons_balanced (by decide) hblock

end Braced

theorem mem_indent {line : String} {lines : List String} (hin : line ∈ lines) (hne : line ≠ "") :
    "  " ++ line ∈ indent lines := by
  refine List.mem_map.2 ⟨line, hin, ?_⟩
  rw [if_neg (mt String.isEmpty_iff.1 hne)]

theorem assigns_of_mem {lines rest : List String} {register content : String}
    (hlines : ∀ line ∈ lines, Balanced line.toList) (hrest : Stairs 0 rest 0)
    (hin : "  " ++ ("  " ++ assignment register content) ∈ lines) (hc : Balanced content.toList) :
    Assigns (String.intercalate "\n" (lines ++ rest)).toList register content := by
  obtain ⟨before, after, rfl⟩ := List.append_of_mem hin
  have hbefore : Stairs 0 before 0 := .of_balanced (fun line hl => hlines line (List.mem_append_left _ hl)) 0
  have hafter : Stairs 0 after 0 :=
    .of_balanced (fun line hl => hlines line (List.mem_append_right _ (List.mem_cons_of_mem _ hl))) 0
  refine ⟨before.flatMap (·.toList ++ ['\n']) ++ "    ".toList,
    content.toList ++ '\x7d' :: (after ++ rest).flatMap ('\n' :: ·.toList), _, ?_,
    hbefore.balanced_ended.append (by decide), hc.group?_eq _, (hafter.append hrest).balanced_started⟩
  rw [List.append_assoc, List.cons_append, toList_joined]
  simp [assignment]

theorem mem_registerLines {assigned : String × Field} (hin : assigned ∈ registers) (s : Settings) :
    assignment assigned.1 (s.get assigned.2).shown ∈ (visible s).registerLines := by
  simp only [registers, List.mem_cons, List.not_mem_nil, or_false] at hin
  rcases hin with rfl | rfl | rfl | rfl <;> simp [registerLines, visible, Settings.get]

theorem Braced.assigns (h : v.Braced) {register content : String} (hc : Balanced content.toList)
    (hin : assignment register content ∈ v.registerLines) :
    Assigns (String.intercalate "\n" v.typesetting).toList register content := by
  have hopening : ∀ line ∈ ["# Custom TeX legend", "code tex-map"], Balanced line.toList := by decide
  have hlines := balanced_indent (List.forall_mem_append.2 ⟨hopening, balanced_indent h.balanced_registerLines⟩)
  have hclosing : Stairs 0 ["endcode"] 0 := .of_balanced (by decide) 0
  have hmoved : "  " ++ assignment register content ∈ indent v.registerLines :=
    mem_indent hin (by simp [assignment, ← String.toList_inj])
  rw [typesetting_split]
  refine assigns_of_mem hlines (h.stairs_legendLines.indent.append hclosing).indent ?_ hc
  exact mem_indent (List.mem_append_right _ hmoved) (by simp [← String.toList_inj])

end Visible

namespace Layout

variable {s : Settings}

theorem pasted_of_mem_registers {assigned : String × Field} (hin : assigned ∈ registers) :
    assigned.2 ∈ pastedFields := by
  revert assigned
  decide

theorem debug_mem_sections (hshown : s.debugStationNames.holds) : (visible s).debug ∈ (visible s).sections := by
  have hsome : (visible s).stationLabels = some s.stationLabelSize.plain := if_pos hshown
  refine List.mem_filter.2 ⟨by simp, ?_⟩
  rw [Visible.debug, hsome]
  rfl

/-- TeX code whose pasted texts are balanced is balanced, and each token register is assigned the whole text of its
field. -/
theorem tex_braces_balanced (h : s.Braced) :
    ∃ sections lines labels, Layout.sections s = .ok sections ∧ (generate s).result = .ok (render sections) ∧
      typesetting s = .ok lines ∧ lines ∈ sections ∧ Balanced (String.intercalate "\n" lines).toList ∧
      debug s = .ok labels ∧ (s.debugStationNames.holds → labels ∈ sections) ∧
      Balanced (String.intercalate "\n" labels).toList ∧
      ∀ assigned ∈ registers,
        Assigns (String.intercalate "\n" lines).toList assigned.1 (s.get assigned.2).shown := by
  have hv := h.visible
  have hsections : Layout.sections s = .ok (visible s).sections := (sections_eq h.pasted).trans (if_pos h.written)
  have htypesetting : typesetting s = .ok (visible s).typesetting := by
    refine (typesetting_eq h.pasted).trans (made_eq fun v hin => ?_)
    simp only [List.mem_append, List.mem_ite_nil_right, List.mem_cons, List.not_mem_nil, or_false] at hin
    rcases hin with ⟨hlogo, rfl⟩ | rfl | rfl
    · exact h.written.2 .logoWidth (by simp [writtenFields, hlogo])
    · exact h.written.2 .caveNameFontSize (by simp [writtenFields])
    · exact h.written.2 .borderThickness (by simp [writtenFields])
  have hdebug : debug s = .ok (visible s).debug := by
    refine (debug_eq s).trans (made_eq fun v hin => ?_)
    simp only [List.mem_ite_nil_right, List.mem_singleton] at hin
    obtain ⟨hlabels, rfl⟩ := hin
    exact h.written.2 .stationLabelSize (by simp [writtenFields, hlabels])
  refine ⟨(visible s).sections, (visible s).typesetting, (visible s).debug, hsections,
    generate_eq_visible h.pasted h.written, htypesetting, ?_, hv.stairs_typesetting.balanced, hdebug,
    debug_mem_sections, hv.stairs_debug.balanced, ?_⟩
  · exact List.mem_filter.2 ⟨by simp, rfl⟩
  · intro assigned hin
    exact hv.assigns (h.balanced_shown _ (pasted_of_mem_registers hin)) (Visible.mem_registerLines hin s)

/-- With groups in every text, a logo, an exploration team and station labels. -/
theorem tex_braces_balanced_grouped :
    let s : Settings :=
      { logoPath := .text "logo\x7bclub\x7d.pdf"
        exploTitle := .text "\x7b\\it Prieskum\x7d"
        exploTeam := .text "A\x7b\x7d, B"
        caveName := .text "\x7b\\bf Domica\x7d"
        comment := .text "\x7b\x7ba\x7db\x7d"
        topoTeam := .text "C"
        debugStationNames := .bool true }
    s.Braced ∧ ∃ sections lines labels, Layout.sections s = .ok sections ∧
      (generate s).result = .ok (render sections) ∧ typesetting s = .ok lines ∧ lines ∈ sections ∧
      Balanced (String.intercalate "\n" lines).toList ∧ debug s = .ok labels ∧ labels ∈ sections ∧
      Balanced (String.intercalate "\n" labels).toList ∧
      ∀ assigned ∈ registers,
        Assigns (String.intercalate "\n" lines).toList assigned.1 (s.get assigned.2).shown := by
  intro s
  have hs : s.Braced := by
    constructor
    · simp only [pastedFields, List.forall_mem_cons, List.not_mem_nil, false_imp_iff, implies_true, and_true]
      exact ⟨⟨_, rfl, by decide⟩, ⟨_, rfl, by decide⟩, ⟨_, rfl, by decide⟩, ⟨_, rfl, by decide⟩, ⟨_, rfl, by decide⟩,
        ⟨_, rfl, by decide⟩, ⟨_, rfl, by decide⟩⟩
    · decide +kernel
    · simp only [setNumbers, List.forall_mem_cons, List.not_mem_nil, false_imp_iff, implies_true, and_true]
      exact ⟨trivial, trivial, trivial, trivial⟩
  obtain ⟨sections, lines, labels, hsections, hresult, hlines, hin, hbalanced, hdebug, hshown, hrest⟩ :=
    tex_braces_balanced hs
  exact ⟨hs, sections, lines, labels, hsections, hresult, hlines, hin, hbalanced, hdebug, hshown rfl, hrest⟩

end Layout

end CaveMap
