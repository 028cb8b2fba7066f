import CaveMap.Proofs.Document.Decoding

namespace CaveMap

namespace Text

theorem isLine_of_isNumeral {text : String} (h : IsNumeral text) : IsLine text :=
  h.not_mem (by decide)

end Text

open Text

theorem Color.isLine_percentagesOf (v : Value) : IsLine (percentagesOf v) := by
  unfold percentagesOf
  cases ofValue? v with
  | none => decide
  | some color =>
    refine ((show IsLine "[" by decide).append (.intercalate (by decide) fun part hin => ?_)).append
      (by decide)
    obtain ⟨channel, -, rfl⟩ := List.mem_map.1 hin
    exact isLine_of_isNumeral (isNumeral_decimalText _)

theorem Color.isLine_fractionsOf (v : Value) : IsLine (fractionsOf v) := by
  unfold fractionsOf
  cases ofValue? v with
  | none => decide
  | some color =>
    refine ((show IsLine "(" by decide).append (.intercalate (by decide) fun part hin => ?_)).append
      (by decide)
    obtain ⟨channel, -, rfl⟩ := List.mem_map.1 hin
    exact ((isLine_of_isNumeral (isNumeral_decimalText _)).append (by decide)).append
      (isLine_of_isNumeral (isNumeral_paddedText _ _))

theorem Color.fractionsOf_eq_append (v : Value) : ∃ start, fractionsOf v = start ++ ")" := by
  unfold fractionsOf
  cases ofValue? v with
  | none => exact ⟨"(0.0, 0.0, 0.0", by decide⟩
  | some color => exact ⟨_, rfl⟩

namespace Symbol

variable {key : String} {override : SymbolOverride} {default : Value}

theorem isLine_resolvedSet (hset : ∀ set, override.symbolSet = some set → IsLine set)
    (hd : IsLine default.shown) : IsLine (resolvedSet override default).shown := by
  unfold resolvedSet
  split
  · exact hd
  · cases h : override.symbolSet with
    | none => decide
    | some set => exact hset set h

theorem isLine_directives (hkey : IsLine key)
    (hset : ∀ set, override.symbolSet = some set → IsLine set) (hd : IsLine default.shown) :
    ∀ line ∈ directives key override default, IsLine line := by
  have htarget : IsLine (override.category.name ++ " " ++ key) := by
    refine (IsLine.append ?_ (by decide)).append hkey
    cases override.category <;> decide
  intro line hin
  simp only [directives, List.mem_append, List.mem_ite_nil_left, List.mem_ite_nil_right,
    List.mem_singleton] at hin
  rcases hin with (⟨-, rfl⟩ | ⟨-, rfl⟩) | ⟨-, rfl⟩
  · exact ((IsLine.append (by decide) htarget).append (by decide)).append (isLine_resolvedSet hset hd)
  · exact ((IsLine.append (by decide) htarget).append (by decide)).append (Color.isLine_percentagesOf _)
  · exact IsLine.append (by decide) htarget

theorem directives_ne_empty : "" ∉ directives key override default := by
  intro hin
  simp only [directives, List.mem_append, List.mem_ite_nil_left, List.mem_ite_nil_right,
    List.mem_singleton] at hin
  rcases hin with (⟨-, he⟩ | ⟨-, he⟩) | ⟨-, he⟩
  all_goals simp [← String.toList_inj] at he

end Symbol

theorem PageGeometry.isNumber_length (millimetres : Nat) : (length millimetres).IsNumber := by
  unfold length
  split <;> trivial

theorem PaperSize.isLine_directive (size : PaperSize) : IsLine size.geometry.directive := by
  have hlength (n : Nat) : IsLine (PageGeometry.length n).plain :=
    isLine_of_isNumeral (PageGeometry.isNumber_length n).isNumeral_plain
  have hall (a b c d e f : Nat) : IsLine (PageGeometry.ofMillimetres a b c d e f).directive := by
    refine ((show IsLine "page-setup " by decide).append (.intercalate (by decide) ?_)).append (by decide)
    simp only [PageGeometry.ofMillimetres, List.map_cons, List.map_nil, List.forall_mem_cons,
      List.not_mem_nil, false_imp_iff, implies_true, and_true]
    exact ⟨hlength a, hlength b, hlength c, hlength d, hlength e, hlength f⟩
  cases size <;> exact hall _ _ _ _ _ _

namespace Settings

def shownTexts : List Field :=
  [.author, .language, .defaultSymbolSet, .headerAnchor, .logoPath, .caveName, .comment, .topoTeam,
   .cartoTeam, .exploTitle, .exploTeam]

def shownNumbers : List Field :=
  [.scale, .rotation, .overlap, .scaleBarLength, .headerX, .headerY, .legendWidth, .legendColumns,
   .logoWidth, .caveNameFontSize, .borderThickness, .stationLabelSize]

/-- Texts within one line, numbers where they belong and none too long to be written, a title without a closing
brace, and code that does not begin with a space. -/
structure Legible (s : Settings) : Prop where
  texts : ∀ field ∈ shownTexts, ∃ t, s.get field = .text t ∧ IsLine t
  numbers : ∀ field ∈ shownNumbers, (s.get field).IsNumber
  written : Layout.Writable s
  keys : ∀ key ∈ s.symbols.keys, IsLine key
  sets : ∀ key override, (key, override) ∈ s.symbols.entries →
    ∀ set, override.symbolSet = some set → IsLine set
  title : '\x7d' ∉ s.exploTitle.shown.toList
  code : (Layout.visible s).code.toList.head? ≠ some ' '

/-- Texts within one line, and numbers where they belong and none too long to be written. -/
structure OneLined (s : Settings) : Prop where
  texts : ∀ field ∈ shownTexts, ∃ t, s.get field = .text t ∧ IsLine t
  numbers : ∀ field ∈ shownNumbers, (s.get field).IsNumber
  written : Layout.Writable s
  keys : ∀ key ∈ s.symbols.keys, IsLine key
  sets : ∀ key override, (key, override) ∈ s.symbols.entries →
    ∀ set, override.symbolSet = some set → IsLine set

variable {s : Settings}

theorem Legible.oneLined (h : s.Legible) : s.OneLined := ⟨h.texts, h.numbers, h.written, h.keys, h.sets⟩

theorem OneLined.pasted (h : s.OneLined) :
    ∀ field ∈ Layout.pastedFields, ∃ t, s.get field = .text t := by
  intro field hin
  have hshown : field ∈ shownTexts := by
    revert hin
    cases field <;> decide
  obtain ⟨t, he, -⟩ := h.texts field hshown
  exact ⟨t, he⟩

/-- Texts where a document pastes texts, no number too long to be written, and nothing that is shown on more than
one line. -/
structure Lined (s : Settings) : Prop where
  pasted : ∀ field ∈ Layout.pastedFields, ∃ t, s.get field = .text t
  written : Layout.Writable s
  shown : ∀ field ∈ shownTexts ++ shownNumbers, IsLine (s.get field).shown
  keys : ∀ key ∈ s.symbols.keys, IsLine key
  sets : ∀ key override, (key, override) ∈ s.symbols.entries →
    ∀ set, override.symbolSet = some set → IsLine set

theorem OneLined.lined (h : s.OneLined) : s.Lined where
  pasted := h.pasted
  written := h.written
  shown field hin := by
    rcases List.mem_append.1 hin with htext | hnumber
    · obtain ⟨t, he, ht⟩ := h.texts field htext
      rw [he]
      exact ht
    · exact isLine_of_isNumeral (h.numbers field hnumber).isNumeral_shown
  keys := h.keys
  sets := h.sets

theorem Lined.isLine_text (h : s.Lined) (field : Field) (hin : field ∈ shownTexts) :
    IsLine (s.get field).shown :=
  h.shown field (List.mem_append_left _ hin)

theorem Lined.isLine_number (h : s.Lined) (field : Field) (hin : field ∈ shownNumbers) :
    IsLine (s.get field).plain ∧ IsLine (s.get field).shown := by
  have hshown := h.shown field (List.mem_append_right _ hin)
  refine ⟨?_, hshown⟩
  cases hvalue : s.get field with
  | float x => exact isLine_of_isNumeral x.isNumeral_plainText
  | _ => rwa [hvalue] at hshown

theorem legible_default (scrap : Value) : Legible { default with selectName := scrap } where
  texts := by
    simp only [shownTexts, List.forall_mem_cons, List.not_mem_nil, false_imp_iff, implies_true, and_true]
    refine ⟨?_, ?_, ?_, ?_, ?_, ?_, ?_, ?_, ?_, ?_, ?_⟩
    all_goals exact ⟨_, rfl, by decide⟩
  numbers := by
    simp only [shownNumbers, List.forall_mem_cons, List.not_mem_nil, false_imp_iff, implies_true, and_true]
    refine ⟨?_, ?_, ?_, ?_, ?_, ?_, ?_, ?_, ?_, ?_, ?_, ?_⟩
    all_goals trivial
  written := by
    have hdefault : Layout.Writable default := by decide +kernel
    refine ⟨hdefault.1, fun field hin => ?_⟩
    have hother : field ≠ .selectName := by
      rintro rfl
      exact absurd hin (by simp [Layout.writtenFields, List.mem_ite_nil_right])
    cases field <;> first | rfl | exact absurd rfl hother
  keys := by simp [default, Table.keys, EmptyCollection.emptyCollection, Table.empty]
  sets := by simp [default, EmptyCollection.emptyCollection, Table.empty]
  title := by change '\x7d' ∉ "".toList; decide
  code := by change (Layout.visible default).code.toList.head? ≠ some ' '; decide

end Settings

namespace Layout

open Settings

variable {s : Settings}

theorem isLine_flag (b : Bool) : IsLine (Visible.flag b) := by
  cases b <;> decide

theorem isLine_opening (h : s.Lined) : ∀ line ∈ (visible s).opening, IsLine line := by
  refine List.forall_mem_cons.2 ⟨by decide, isLine_indent ?_⟩
  simp only [List.forall_mem_cons, List.not_mem_nil, false_imp_iff, implies_true, and_true, isLine_append]
  exact ⟨⟨⟨by decide, h.isLine_text .author (by decide)⟩, by decide⟩,
    ⟨by decide, (h.isLine_number .scale (by decide)).1⟩,
    ⟨by decide, h.isLine_text .language (by decide)⟩⟩

theorem isLine_colors (s : Settings) : ∀ line ∈ (visible s).colors, IsLine line := by
  refine isLine_indent ?_
  simp only [List.forall_mem_cons, List.not_mem_nil, false_imp_iff, implies_true, and_true, isLine_append]
  refine ⟨⟨by decide, ?_⟩, ⟨by decide, Color.isLine_percentagesOf _⟩⟩
  change IsLine (background s)
  unfold background
  split
  · decide
  · exact Color.isLine_percentagesOf _

theorem isLine_symbolSetLines (h : s.Lined) : ∀ line ∈ (visible s).symbolSetLines, IsLine line := by
  refine isLine_indent (List.forall_mem_cons.2 ⟨IsLine.append (by decide) ?_, by simp⟩)
  change IsLine (effectiveSet s).shown
  unfold effectiveSet
  split
  · decide
  · exact h.isLine_text .defaultSymbolSet (by decide)

theorem isLine_directiveLines (h : s.Lined) : ∀ line ∈ (visible s).directiveLines, IsLine line := by
  refine isLine_indent fun line hin => ?_
  obtain ⟨⟨key, override⟩, hentry, hline⟩ := List.mem_flatMap.1 hin
  exact Symbol.isLine_directives (h.keys key (List.mem_map_of_mem (f := (·.1)) hentry))
    (h.sets key override hentry) (h.isLine_text .defaultSymbolSet (by decide)) line hline

theorem isLine_surveyLines (s : Settings) : ∀ line ∈ (visible s).surveyLines, IsLine line := by
  rw [← survey_eq]
  unfold survey
  split
  · refine isLine_indent ?_
    simp only [List.forall_mem_append]
    refine ⟨⟨by decide, isLine_indent ?_⟩, by decide⟩
    simp only [List.forall_mem_append]
    refine ⟨⟨by decide, isLine_indent ?_⟩, by decide⟩
    simp only [List.forall_mem_append]
    refine ⟨⟨by decide, isLine_indent ?_⟩, by decide⟩
    refine List.forall_mem_cons.2 ⟨by decide, List.forall_mem_cons.2 ⟨by decide, ?_⟩⟩
    refine List.forall_mem_cons.2 ⟨?_, by simp⟩
    have hdash : IsLine s.surveyStyle.dash := by cases s.surveyStyle <;> decide
    exact (((show IsLine "draw zz1 -- zz2 withcolor " by decide).append
      (Color.isLine_fractionsOf _)).append hdash).append (by decide)
  · decide

theorem isLine_presentation (h : s.Lined) : ∀ line ∈ (visible s).presentation, IsLine line := by
  refine isLine_indent ?_
  simp only [List.forall_mem_cons, List.not_mem_nil, false_imp_iff, implies_true, and_true, isLine_append]
  exact ⟨⟨by decide, (h.isLine_number .rotation (by decide)).1⟩,
    ⟨by decide, isLine_flag _⟩,
    ⟨⟨by decide, (h.isLine_number .overlap (by decide)).1⟩, by decide⟩,
    ⟨⟨by decide, (h.isLine_number .scaleBarLength (by decide)).1⟩, by decide⟩⟩

theorem isLine_header (h : s.Lined) : ∀ line ∈ (visible s).header, IsLine line := by
  refine isLine_indent ?_
  simp only [List.forall_mem_cons, List.not_mem_nil, false_imp_iff, implies_true, and_true, isLine_append]
  exact ⟨⟨⟨⟨⟨⟨by decide, (h.isLine_number .headerX (by decide)).1⟩, by decide⟩,
        (h.isLine_number .headerY (by decide)).1⟩, by decide⟩,
      h.isLine_text .headerAnchor (by decide)⟩,
    ⟨by decide, isLine_flag _⟩, ⟨by decide, isLine_flag _⟩,
    ⟨⟨by decide, (h.isLine_number .legendWidth (by decide)).1⟩, by decide⟩,
    ⟨by decide, (h.isLine_number .legendColumns (by decide)).2⟩⟩

theorem isLine_logoLines (h : s.Lined) : ∀ line ∈ (visible s).logoLines, IsLine line := by
  unfold Visible.logoLines visible
  dsimp only
  split
  · simp
  · next path width he =>
    split at he
    · cases he
      refine List.forall_mem_cons.2 ⟨?_, by simp⟩
      exact ((((show IsLine "\\vbox\x7b\\externalfigure[" by decide).append
        (h.isLine_text .logoPath (by decide))).append (by decide)).append
        (h.isLine_number .logoWidth (by decide)).1).append (by decide)
    · cases he

theorem isLine_explorationLines (h : s.Lined) :
    ∀ line ∈ (visible s).explorationLines, IsLine line := by
  unfold Visible.explorationLines visible
  dsimp only
  split
  · simp
  · next title team he =>
    split at he
    · cases he
      refine List.forall_mem_cons.2 ⟨?_, by simp⟩
      exact ((((show IsLine "\x7b\\bf " by decide).append
        (h.isLine_text .exploTitle (by decide))).append (by decide)).append
        (h.isLine_text .exploTeam (by decide))).append (by decide)
    · cases he

theorem isLine_legendContent (h : s.Lined) : ∀ line ∈ (visible s).legendContent, IsLine line := by
  unfold Visible.legendContent Visible.teams
  simp only [List.forall_mem_append]
  refine ⟨⟨⟨⟨by decide, isLine_logoLines h⟩, ?_⟩, isLine_indent ?_⟩, by decide⟩
  · refine List.forall_mem_cons.2 ⟨by decide, List.forall_mem_cons.2 ⟨?_, by decide⟩⟩
    exact ((show IsLine "  \x7b\\size[" by decide).append
      (h.isLine_number .caveNameFontSize (by decide)).1).append (by decide)
  · simp only [List.forall_mem_append]
    exact ⟨⟨by decide, isLine_explorationLines h⟩, by decide⟩

theorem isLine_assignment {register content : String} (hr : IsLine register) (hc : IsLine content) :
    IsLine (assignment register content) :=
  (((show IsLine "\\" by decide).append hr).append (by decide)).append hc |>.append (by decide)

theorem isLine_typesetting (h : s.Lined) : ∀ line ∈ (visible s).typesetting, IsLine line := by
  refine isLine_indent ?_
  simp only [List.forall_mem_append]
  refine ⟨⟨by decide, isLine_indent ?_⟩, by decide⟩
  simp only [List.forall_mem_append]
  refine ⟨⟨?_, isLine_indent (isLine_legendContent h)⟩, ?_⟩
  · simp only [List.forall_mem_cons, List.not_mem_nil, false_imp_iff, implies_true, and_true]
    exact ⟨by decide, by decide,
      isLine_assignment (by decide) (h.isLine_text .caveName (by decide)),
      isLine_assignment (by decide) (h.isLine_text .comment (by decide)),
      isLine_assignment (by decide) (h.isLine_text .topoTeam (by decide)),
      isLine_assignment (by decide) (h.isLine_text .cartoTeam (by decide)),
      by decide, by decide⟩
  · refine List.forall_mem_cons.2 ⟨by decide, List.forall_mem_cons.2 ⟨by decide, ?_⟩⟩
    refine List.forall_mem_cons.2 ⟨?_, by simp⟩
    exact ((show IsLine "\\framethickness=" by decide).append
      (h.isLine_number .borderThickness (by decide)).1).append (by decide)

theorem isLine_debug (h : s.Lined) : ∀ line ∈ (visible s).debug, IsLine line := by
  unfold Visible.debug visible
  dsimp only
  split
  · simp
  · next size he =>
    split at he
    · cases he
      refine isLine_indent ?_
      simp only [List.forall_mem_cons, List.not_mem_nil, false_imp_iff, implies_true, and_true, isLine_append]
      exact ⟨by decide, by decide,
        ⟨⟨by decide, (h.isLine_number .stationLabelSize (by decide)).1⟩, by decide⟩, by decide⟩
    · cases he

theorem isLine_codeLines (v : Visible) : ∀ line ∈ v.codeLines, IsLine line := by
  unfold Visible.codeLines
  split
  · simp
  · intro line hin hbreak
    obtain ⟨stretch, hstretch, rfl⟩ := List.mem_map.1 hin
    rw [String.toList_ofList] at hbreak
    simpa using not_separates_of_mem hstretch hbreak

theorem isLine_page (v : Visible) : ∀ line ∈ v.page, IsLine line := by
  refine List.forall_mem_cons.2 ⟨?_, List.forall_mem_cons.2 ⟨?_, by decide⟩⟩
  · cases v.paper <;> decide
  · exact IsLine.append (by decide) v.paper.isLine_directive

theorem isLine_sections (h : s.Lined) :
    ∀ block ∈ (visible s).sections, ∀ line ∈ block, IsLine line := by
  intro block hin
  have hblock := (List.mem_filter.1 hin).1
  clear hin
  -- One section after the other; taking `block` apart instead would evaluate the code of the modules.
  revert block
  simp only [List.forall_mem_cons, List.not_mem_nil, false_imp_iff, implies_true, and_true]
  exact ⟨by decide, isLine_opening h, isLine_colors s, isLine_symbolSetLines h, isLine_directiveLines h,
    isLine_surveyLines s, isLine_presentation h, isLine_header h, isLine_typesetting h, isLine_debug h,
    isLine_codeLines _, by decide, isLine_page _⟩

theorem visible_decodable (h : s.Legible) : (visible s).Decodable where
  isLine := isLine_sections h.oneLined.lined
  directives hin := by
    obtain ⟨entry, -, hline⟩ := List.mem_flatMap.1 hin
    exact Symbol.directives_ne_empty hline
  color color style he := by
    simp only [visible] at he
    split at he
    · cases he
      exact Color.fractionsOf_eq_append _
    · cases he
  headerX := (h.numbers .headerX (by decide)).isNumeral_plain.not_mem (by decide)
  headerY := (h.numbers .headerY (by decide)).isNumeral_plain.not_mem (by decide)
  logo path width he := by
    simp only [visible] at he
    split at he
    · cases he
      exact (h.numbers .logoWidth (by decide)).isNumeral_plain.not_mem (by decide)
    · cases he
  exploration title team he := by
    simp only [visible] at he
    split at he
    · cases he
      exact h.title
    · cases he
  code := by
    have hspace := h.code
    have hbreak := head?_stripOf_all (· = '\n') (MapModule.joinedCode (enabledModules s)).toList
    simp only [visible, String.toList_ofList] at hspace ⊢
    cases hc : (stripOf (· = '\n') (MapModule.joinedCode (enabledModules s)).toList).head? with
    | none => rfl
    | some c =>
      rw [hc] at hspace hbreak
      simp_all

/-- Two layout documents are the same exactly when they show the same. -/
theorem generate_eq_iff_visible_eq {s t : Settings} (hs : s.Legible) (ht : t.Legible) :
    ∃ d e, (generate s).result = .ok d ∧ (generate t).result = .ok e ∧ (d = e ↔ visible s = visible t) := by
  refine ⟨_, _, generate_eq_visible hs.oneLined.pasted hs.written,
    generate_eq_visible ht.oneLined.pasted ht.written, fun h => ?_, fun h => by rw [h]⟩
  exact Visible.text_inj (visible_decodable hs) (visible_decodable ht) h

theorem visible_of_scrap (s : Settings) (scrap : Value) : visible { s with selectName := scrap } = visible s := rfl

def furnished : Settings :=
  { Settings.default with
    author := .text "J. Kluc"
    scale := .float (.ofDecimal false 2005 (-1))
    logoPath := .text "logo.pdf"
    caveName := .text "Domica"
    exploTitle := .text "Prieskum"
    debugStationNames := .bool true
    customModules := [
      { id := "custom_1", displayName := "Pits", description := "", code := "code metapost\n\nendcode\n",
        isCustom := true }]
    enabledModules := [.text "custom_1"]
    symbols := .ofList [
      ("wall", { type := "wall", category := .line, symbolSet := some "SKBB", color := some "#ff0000" }),
      ("water", { type := "water", category := .area, visible := false })] }

def explored (scrap team : String) : Settings :=
  { furnished with selectName := .text scrap, exploTeam := .text team }

theorem writable_explored (scrap team : String) : Writable (explored scrap team) := by
  have hset : (effectiveSet (explored scrap team)).isWritable := by
    unfold effectiveSet
    split <;> rfl
  refine ⟨hset, fun field _ => ?_⟩
  cases field <;> rfl

theorem legible_explored (scrap : String) {team : String} (hteam : IsLine team) :
    (explored scrap team).Legible where
  texts := by
    simp only [shownTexts, List.forall_mem_cons, List.not_mem_nil, false_imp_iff, implies_true, and_true]
    refine ⟨?_, ?_, ?_, ?_, ?_, ?_, ?_, ?_, ?_, ?_, ⟨team, rfl, hteam⟩⟩
    all_goals exact ⟨_, rfl, by decide⟩
  numbers := by
    simp only [shownNumbers, List.forall_mem_cons, List.not_mem_nil, false_imp_iff, implies_true, and_true]
    refine ⟨?_, ?_, ?_, ?_, ?_, ?_, ?_, ?_, ?_, ?_, ?_, ?_⟩
    all_goals trivial
  written := writable_explored scrap team
  keys := by change ∀ key ∈ ["wall", "water"], IsLine key; decide
  sets key override hin set hset := by
    have hentries : (explored scrap team).symbols.entries =
        [("wall", { type := "wall", category := .line, symbolSet := some "SKBB", color := some "#ff0000" }),
         ("water", { type := "water", category := .area, visible := false })] := by rfl
    rw [hentries] at hin
    simp only [List.mem_cons, List.not_mem_nil, or_false] at hin
    rcases hin with he | he <;> cases he
    · cases hset
      decide
    · cases hset
  title := by change '\x7d' ∉ "Prieskum".toList; decide
  code := by change (visible furnished).code.toList.head? ≠ some ' '; decide +kernel

/-- The name of the selected scrap is not shown; the exploration team is. -/
theorem generate_eq_of_other_scrap :
    (explored "" "A, B").Legible ∧ (explored "scrap1@kluc" "A, B").Legible ∧ (explored "" "A").Legible ∧
      ∃ d e, (generate (explored "" "A, B")).result = .ok d ∧
        (generate (explored "scrap1@kluc" "A, B")).result = .ok d ∧
        (generate (explored "" "A")).result = .ok e ∧ d ≠ e := by
  have hboth (scrap : String) : (explored scrap "A, B").Legible := legible_explored scrap (by decide)
  have hother : (explored "" "A").Legible := legible_explored "" (by decide)
  obtain ⟨d, d', hd, hd', hsame⟩ := generate_eq_iff_visible_eq (hboth "") (hboth "scrap1@kluc")
  obtain ⟨d'', e, hd'', he, hdiffers⟩ := generate_eq_iff_visible_eq (hboth "") hother
  have heq : d = d' := hsame.2 (visible_of_scrap (explored "scrap1@kluc" "A, B") (.text ""))
  have heq' : d = d'' := Except.ok.inj (hd.symm.trans hd'')
  have hteam : (visible (explored "" "A, B")).exploration ≠ (visible (explored "" "A")).exploration := by
    decide
  refine ⟨hboth "", hboth "scrap1@kluc", hother, d, e, hd, heq ▸ hd', he, fun h => hteam ?_⟩
  rw [hdiffers.1 (heq' ▸ h)]

end Layout

end CaveMap
