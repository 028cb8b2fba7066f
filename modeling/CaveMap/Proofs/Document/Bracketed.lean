import CaveMap.Proofs.Document.Brackets
import CaveMap.Proofs.Document.Legible
import CaveMap.Proofs.Text.Words

namespace CaveMap

open Brackets Text

namespace Brackets

variable {place next : Place} {a b lines : List String} {opened : List Opening}

def Neutral (lines : List String) : Prop := ∀ line ∈ lines, keyword? line = none

instance (lines : List String) : Decidable (Neutral lines) :=
  inferInstanceAs (Decidable (∀ line ∈ lines, keyword? line = none))

theorem Neutral.append (ha : Neutral a) (hb : Neutral b) : Neutral (a ++ b) := by
  intro line hin
  exact (List.mem_append.1 hin).elim (ha line) (hb line)

theorem Neutral.indent (h : Neutral lines) : Neutral (Layout.indent lines) := by
  intro line hin
  obtain ⟨inner, hinner, rfl⟩ := List.mem_map.1 hin
  split
  · exact keyword?_empty
  · rw [keyword?_indented]
    exact h inner hinner

theorem neutral_nil : Neutral [] := fun _ h => absurd h List.not_mem_nil

theorem Leads.block {start : String} (hs : keyword? start = some .code) (h : Neutral lines) :
    Leads .layout ([start] ++ lines ++ ["endcode"]) .layout [.code] := by
  have hopen : Leads .layout [start] .code [.code] := .singleton (by rw [hs]; rfl)
  have hclose : Leads .code ["endcode"] .layout [] := .singleton (by decide)
  exact (hopen.append (.neutral .code h)).append hclose

theorem scan_filter (place : Place) (lines : List String) :
    scan place (lines.filter (!·.isEmpty)) = scan place lines := by
  induction lines generalizing place with
  | nil => rfl
  | cons line rest ih =>
    rw [List.filter_cons]
    split
    · simp only [scan, ih]
    · next hempty =>
      have hline : line = "" := by simpa using hempty
      have hstep : step place (keyword? line) = some (place, []) := by
        rw [hline, keyword?_empty]
        cases place <;> rfl
      have hrest : ((scan place rest).bind fun x => some (x.1, x.2)) = scan place rest := by
        cases scan place rest <;> rfl
      simp [scan, hstep, ih, hrest]

theorem Leads.of_filter (h : Leads place a next opened) (he : a.filter (!·.isEmpty) = b.filter (!·.isEmpty)) :
    Leads place b next opened := by
  rw [Leads, ← scan_filter, ← he, scan_filter]
  exact h

theorem Leads.followed {last : Place} {more : List Opening} (ha : Leads place a next opened)
    (hb : Leads next b last more) : Leads place (followed a b) last (opened ++ more) := by
  refine (ha.append hb).of_filter ?_
  unfold Text.followed
  split
  · next h => rw [List.isEmpty_iff.1 h, List.nil_append]
  · simp

end Brackets

namespace Text

theorem pieces_dropWhile (p : Char → Bool) (text : List Char) : pieces p (text.dropWhile p) = pieces p text := by
  induction text with
  | nil => rfl
  | cons c rest ih =>
    rw [List.dropWhile_cons]
    split
    · next hc =>
      rw [ih, pieces, pieces, stretches.eq_def p (c :: rest)]
      simp [hc]
    · rfl

theorem pieces_reverse_dropWhile (p : Char → Bool) (text : List Char) :
    pieces p (text.dropWhile p).reverse = pieces p text.reverse := by
  induction text with
  | nil => rfl
  | cons c rest ih =>
    rw [List.dropWhile_cons]
    split
    · next hc =>
      rw [ih, List.reverse_cons, pieces_append hc]
      exact (List.append_nil _).symm
    · rfl

theorem pieces_stripOf (p : Char → Bool) (text : List Char) : pieces p (stripOf p text) = pieces p text := by
  rw [stripOf, pieces_reverse_dropWhile, List.reverse_reverse, pieces_dropWhile]

end Text

namespace Brackets

/-- The blocks that code opens in a layout. -/
def openingsOf (code : String) : List Opening := ((scan .layout (linesOf code)).map (·.2)).getD []

/-- Code that leads from within a layout back into one. -/
def Returns (code : String) : Prop := ∃ opened, Leads .layout (linesOf code) .layout opened

theorem Returns.leads {code : String} (h : Returns code) : Leads .layout (linesOf code) .layout (openingsOf code) := by
  obtain ⟨opened, h⟩ := h
  have hopened : openingsOf code = opened := by
    rw [openingsOf, h]
    rfl
  rw [hopened]
  exact h

theorem leads_joinedCode {modules : List MapModule} (h : ∀ m ∈ modules, Returns m.code) :
    Leads .layout (linesOf (MapModule.joinedCode modules)) .layout (modules.flatMap fun m => openingsOf m.code) := by
  induction modules with
  | nil => exact .neutral .layout (by decide)
  | cons m rest ih =>
    have hm := (h m List.mem_cons_self).leads
    have hrest := ih fun other hin => h other (List.mem_cons_of_mem _ hin)
    cases rest with
    | nil =>
      simpa [MapModule.joinedCode] using hm
    | cons second more =>
      have hjoined : MapModule.joinedCode (m :: second :: more) =
          m.code ++ "\n" ++ "" ++ "\n" ++ MapModule.joinedCode (second :: more) := by
        simp only [MapModule.joinedCode, List.map_cons, String.intercalate_cons_cons, String.append_empty]
        simp only [String.append_assoc]
        rfl
      rw [hjoined, linesOf_append_newline, linesOf_append_newline, List.flatMap_cons]
      have hempty : Leads .layout (linesOf "") .layout [] := .neutral .layout (by decide)
      have hboth := (hm.append hempty).append hrest
      rwa [List.append_nil] at hboth

end Brackets

namespace Symbol

variable {key : String} {override : SymbolOverride} {default : Value}

theorem neutral_directives : Neutral (directives key override default) := by
  intro line hin
  simp only [directives, List.mem_append, List.mem_ite_nil_left, List.mem_ite_nil_right,
    List.mem_singleton] at hin
  rcases hin with (⟨-, rfl⟩ | ⟨-, rfl⟩) | ⟨-, rfl⟩
  · simp only [String.append_assoc]
    exact Apart.keyword?_eq (by decide) _
  · simp only [String.append_assoc]
    exact Apart.keyword?_eq (by decide) _
  · exact Apart.keyword?_eq (by decide) _

end Symbol

namespace Visible

open Layout

variable (v : Visible)

theorem neutral_colors : Neutral v.colors := by
  refine Neutral.indent ?_
  simp only [Neutral, List.forall_mem_cons, List.not_mem_nil, false_imp_iff, implies_true, and_true]
  exact ⟨Apart.keyword?_eq (by decide) _, Apart.keyword?_eq (by decide) _⟩

theorem neutral_symbolSetLines : Neutral v.symbolSetLines := by
  refine Neutral.indent ?_
  simp only [Neutral, List.forall_mem_cons, List.not_mem_nil, false_imp_iff, implies_true, and_true]
  exact Apart.keyword?_eq (by decide) _

theorem neutral_presentation : Neutral v.presentation := by
  refine Neutral.indent ?_
  simp only [Neutral, List.forall_mem_cons, List.not_mem_nil, false_imp_iff, implies_true, and_true,
    String.append_assoc]
  exact ⟨Apart.keyword?_eq (by decide) _, Apart.keyword?_eq (by decide) _, Apart.keyword?_eq (by decide) _,
    Apart.keyword?_eq (by decide) _⟩

theorem neutral_header : Neutral v.header := by
  refine Neutral.indent ?_
  simp only [Neutral, List.forall_mem_cons, List.not_mem_nil, false_imp_iff, implies_true, and_true,
    String.append_assoc]
  exact ⟨Apart.keyword?_eq (by decide) _, Apart.keyword?_eq (by decide) _, Apart.keyword?_eq (by decide) _,
    Apart.keyword?_eq (by decide) _, Apart.keyword?_eq (by decide) _⟩

theorem leads_opening : Leads .outside v.opening .layout [.layout Layout.name] := by
  have hlines : Neutral ["doc-author \"" ++ v.author ++ "\"", "scale 1 " ++ v.scale, "language " ++ v.language] := by
    simp only [Neutral, List.forall_mem_cons, List.not_mem_nil, false_imp_iff, implies_true, and_true,
      String.append_assoc]
    exact ⟨Apart.keyword?_eq (by decide) _, Apart.keyword?_eq (by decide) _, Apart.keyword?_eq (by decide) _⟩
  have hopen : Leads .outside ["layout " ++ Layout.name] .layout [.layout Layout.name] := .singleton (by decide)
  exact hopen.append (.neutral .layout hlines.indent)

theorem leads_surveyLines : Leads .layout v.surveyLines .layout (if v.survey.isSome then [.code] else []) := by
  unfold surveyLines
  cases v.survey with
  | none => exact .neutral .layout (Neutral.indent (by decide))
  | some shown =>
    obtain ⟨color, style⟩ := shown
    refine Leads.indent (Leads.block (by decide) (Neutral.indent ?_))
    refine (Neutral.append (by decide) (Neutral.indent ?_)).append (by decide)
    refine (Neutral.append (by decide) (Neutral.indent ?_)).append (by decide)
    simp only [Neutral, List.forall_mem_cons, List.not_mem_nil, false_imp_iff, implies_true, and_true,
      String.append_assoc]
    exact ⟨by decide, by decide, Apart.keyword?_eq (by decide) _⟩

theorem neutral_logoLines : Neutral v.logoLines := by
  unfold logoLines
  cases v.logo with
  | none => exact neutral_nil
  | some shown =>
    simp only [Neutral, List.forall_mem_cons, List.not_mem_nil, false_imp_iff, implies_true, and_true,
      String.append_assoc]
    exact Apart.keyword?_eq (by decide) _

theorem neutral_explorationLines : Neutral v.explorationLines := by
  unfold explorationLines
  cases v.exploration with
  | none => exact neutral_nil
  | some shown =>
    simp only [Neutral, List.forall_mem_cons, List.not_mem_nil, false_imp_iff, implies_true, and_true,
      String.append_assoc]
    exact Apart.keyword?_eq (by decide) _

theorem neutral_legendContent : Neutral v.legendContent := by
  have hteams : Neutral v.teams :=
    (Neutral.append (by decide) v.neutral_explorationLines).append (by decide)
  refine (((Neutral.append (by decide) v.neutral_logoLines).append ?_).append hteams.indent).append (by decide)
  simp only [Neutral, List.forall_mem_cons, List.not_mem_nil, false_imp_iff, implies_true, and_true,
    String.append_assoc]
  exact ⟨by decide, Apart.keyword?_eq (by decide) _, by decide, by decide, by decide⟩

theorem leads_typesetting : Leads .layout v.typesetting .layout [.code] := by
  have hcomment : Leads .layout ["# Custom TeX legend"] .layout [] := .neutral .layout (by decide)
  have hassign (register content : String) (h : Apart ("\\" ++ register)) :
      keyword? (assignment register content) = none := by
    simp only [assignment, String.append_assoc]
    rw [← String.append_assoc]
    exact h.keyword?_eq _
  have hblock {lines : List String} (h : Neutral lines) :
      Leads .layout (["code tex-map"] ++ indent lines ++ ["endcode"]) .layout [.code] :=
    .block (by decide) h.indent
  refine Leads.indent (hcomment.append (hblock ((Neutral.append ?_ v.neutral_legendContent.indent).append ?_)))
  · simp only [Neutral, List.forall_mem_cons, List.not_mem_nil, false_imp_iff, implies_true, and_true]
    exact ⟨by decide, by decide, hassign _ _ (by decide), hassign _ _ (by decide), hassign _ _ (by decide),
      hassign _ _ (by decide), by decide, by decide⟩
  · simp only [Neutral, List.forall_mem_cons, List.not_mem_nil, false_imp_iff, implies_true, and_true,
      String.append_assoc]
    exact ⟨by decide, by decide, Apart.keyword?_eq (by decide) _⟩

theorem leads_debug : Leads .layout v.debug .layout (if v.stationLabels.isSome then [.code] else []) := by
  unfold debug
  cases v.stationLabels with
  | none => exact .nil .layout
  | some size =>
    have hfirst : Leads .layout ["debug station-names"] .layout [] := .neutral .layout (by decide)
    have hlabel : Neutral ["  \\def\\printstationlabel#1\x7b\\size[" ++ size ++ "]\\ss #1\x7d"] := by
      simp only [Neutral, List.forall_mem_singleton, String.append_assoc]
      exact Apart.keyword?_eq (by decide) _
    have hblock : Leads .layout (["code tex-map"] ++ _ ++ ["endcode"]) .layout [.code] :=
      .block (by decide) hlabel
    exact Leads.indent (hfirst.append hblock)

theorem leads_page : Leads .outside v.page .outside [.layout v.paper.layoutName] := by
  have hopen : Leads .outside ["layout " ++ v.paper.layoutName] .layout [.layout v.paper.layoutName] :=
    .singleton (by cases v.paper <;> decide)
  have hsetup : Leads .layout ["  " ++ v.paper.geometry.directive] .layout [] := by
    refine .neutral .layout ?_
    simp only [List.forall_mem_singleton, keyword?_indented, PageGeometry.directive, String.append_assoc]
    exact Apart.keyword?_eq (by decide) _
  have hclose : Leads .layout ["endlayout"] .outside [] := .singleton (by decide)
  exact (hopen.append hsetup).append hclose

theorem codeLines_filter (v : Visible) : v.codeLines.filter (!·.isEmpty) = (linesOf v.code).filter (!·.isEmpty) := by
  unfold codeLines
  split
  · next h =>
    have hcode : v.code = "" := by simpa using h
    rw [hcode]
    decide
  · rfl

/-- The code blocks of a document that are not from modules. -/
def ownBlocks : Nat := v.survey.toList.length + 1 + v.stationLabels.toList.length

/-- The blocks of a document: all code blocks lie within the first layout, unless code opens others. -/
theorem leads_lines (hd : Neutral v.directives) {opened : List Opening}
    (hcode : Leads .layout v.codeLines .layout opened) :
    Leads .outside v.lines .outside
      (.layout Layout.name :: List.replicate v.ownBlocks .code ++ opened ++ [.layout v.paper.layoutName]) := by
  have hclosing : Leads .layout closing .outside [] := .singleton (by decide)
  have hall := Leads.followed (.neutral .outside (by decide) : Leads .outside preamble .outside []) <|
    .followed v.leads_opening <| .followed (.neutral .layout v.neutral_colors) <|
    .followed (.neutral .layout v.neutral_symbolSetLines) <| .followed (.neutral .layout hd.indent) <|
    .followed v.leads_surveyLines <| .followed (.neutral .layout v.neutral_presentation) <|
    .followed (.neutral .layout v.neutral_header) <| .followed v.leads_typesetting <|
    .followed v.leads_debug <| .followed hcode <| .followed hclosing v.leads_page
  have hblocks : List.replicate v.ownBlocks Opening.code =
      (if v.survey.isSome then [.code] else []) ++ [.code] ++ (if v.stationLabels.isSome then [.code] else []) := by
    unfold ownBlocks
    cases v.survey <;> cases v.stationLabels <;> rfl
  rw [hblocks]
  simp only [List.nil_append, List.append_assoc, List.cons_append] at hall ⊢
  exact hall

end Visible

namespace Layout

variable {s : Settings}

theorem neutral_directives (s : Settings) : Neutral (visible s).directives := by
  intro line hin
  obtain ⟨entry, -, hline⟩ := List.mem_flatMap.1 hin
  exact Symbol.neutral_directives line hline

theorem leads_codeLines (h : ∀ m ∈ enabledModules s, Returns m.code) :
    Leads .layout (visible s).codeLines .layout ((enabledModules s).flatMap fun m => openingsOf m.code) := by
  have hpieces : (linesOf (visible s).code).filter (!·.isEmpty) =
      (linesOf (MapModule.joinedCode (enabledModules s))).filter (!·.isEmpty) := by
    have hlines (text : String) : (linesOf text).filter (!·.isEmpty) =
        (pieces (· = '\n') text.toList).map String.ofList := by
      rw [linesOf, List.filter_map, pieces]
      congr 1
      refine List.filter_congr fun line _ => ?_
      rw [Bool.eq_iff_iff]
      simp
    rw [hlines, hlines, visible, String.toList_ofList, pieces_stripOf]
  refine (leads_joinedCode h).of_filter ?_
  rw [← hpieces, Visible.codeLines_filter]

def moduleOpenings (s : Settings) : List Opening := (enabledModules s).flatMap fun m => openingsOf m.code

/-- A document opens its own layout, what modules open in it, and the layout of the page. -/
theorem generate_leads (hs : s.OneLined) (hcode : ∀ m ∈ enabledModules s, Returns m.code) :
    ∃ text, (generate s).result = .ok text ∧
      Leads .outside (linesOf text) .outside
        (.layout name :: List.replicate (visible s).ownBlocks .code ++ moduleOpenings s ++
          [.layout s.paperSize.layoutName]) := by
  refine ⟨_, generate_eq_visible hs.pasted hs.written, ?_⟩
  have hlines : linesOf (visible s).text = (visible s).lines ++ [""] := by
    rw [Visible.text_eq, linesOf_ended,
      linesOf_joined (Visible.isLine_lines (isLine_sections hs.lined)) (visible s).lines_ne_nil]
  have hend : Leads .outside [""] .outside [] := .neutral .outside (by decide)
  have hall := ((visible s).leads_lines (neutral_directives s) (leads_codeLines hcode)).append hend
  rw [List.append_nil, ← hlines] at hall
  exact hall

end Layout

end CaveMap
