import CaveMap.Proofs.Session.Files
import CaveMap.Proofs.SettingsFile.Reload
import CaveMap.Proofs.SettingsFile.Settled

namespace CaveMap

/-- What a theme says about a field. -/
def Theme.value? (theme : Theme) : Field → Option Value
  | .colorScheme => some (.text theme.id)
  | .mapBgColor => some (.text theme.bgColor)
  | .mapFgColor => some (.text theme.fgColor)
  | .surveyColor => some (.text theme.surveyColor)
  | _ => none

theorem Settings.get_applyTheme (s : Settings) (theme : Theme) (field : Field) :
    (s.applyTheme theme).get field = (theme.value? field).getD (s.get field) := by
  cases field <;> rfl

def Value.member? (value : Value) (key : String) : Option Value :=
  match value with
  | .map entries => entry? entries key
  | _ => none

namespace SettingsFile

open Check

/-- What a document says about a field of a section; a null says nothing. -/
def given? (document : Value) (part : Section) (field : Field) : Option Value :=
  match (document.member? part.key).bind (·.member? field.key) with
  | some .null => none
  | found => found

/-- Where the value of a field comes from: the theme, else the document, else the defaults. -/
inductive Comes (theme : Option Theme) (given : Option Value) (field : Field) : Value → Prop
  | theme {chosen : Theme} {v : Value} : theme = some chosen → chosen.value? field = some v →
      Comes theme given field v
  | document {raw v : Value} : theme.bind (·.value? field) = none → given = some raw →
      field.check raw = .ok v → Comes theme given field v
  | default : theme.bind (·.value? field) = none → given = none →
      Comes theme given field (Settings.default.get field)

namespace Draft

/-- The modules that a document enables: the listed ones, and those it declares as enabled. -/
def enables (draft : Draft) : List String :=
  draft.enabledModules ++ (draft.customModules.zipIdx.filter (·.1.enabled)).map fun (entry, index) =>
    effectiveId entry index

/-- The overrides that a document declares, as it declares them. -/
def declares (draft : Draft) : List (String × SymbolOverride) :=
  draft.symbols.entries.map fun (key, entry) => (key, overrideOf key entry)

/-- The settings of a document with its files, part by part. -/
structure Composed (document : Value) (draft : Draft) (files : List NewFile) (s : Settings) : Prop where
  scalars : ∀ part : Section, ∀ field ∈ part.fields,
    Comes (draft.theme.bind Theme.ofId?) (given? document part field) field (s.get field)
  enabledModules : s.enabledModules = draft.enables.eraseDups.map .text
  symbols : s.symbols.entries = draft.declares ++
    Table.firsts (((files.flatMap NewFile.uses).filter (·.2 ∉ draft.symbols.keys)).map Drawing.entryOf)
  customModules : s.customModules = draft.modules
  uploads : s.uploads.map Upload.anonymous = files.map fun file => file.upload ""

variable {draft : Draft} {s : Settings}

theorem enabledIds_eq (draft : Draft) : draft.enabledIds = draft.enables := by
  have hzip (entries : List CustomEntry) (start : Nat) :
      ((((entries.zipIdx start).map fun (entry, index) => moduleOf entry index).zip entries).filter
          (·.2.enabled)).map (·.1.id) =
        ((entries.zipIdx start).filter (·.1.enabled)).map fun (entry, index) => effectiveId entry index := by
    induction entries generalizing start with
    | nil => rfl
    | cons entry rest ih =>
      rw [List.zipIdx_cons, List.map_cons, List.zip_cons_cons, List.filter_cons, List.filter_cons]
      by_cases hentry : entry.enabled
      · rw [if_pos hentry, if_pos hentry, List.map_cons, List.map_cons, ih]
        rfl
      · rw [if_neg hentry, if_neg hentry, ih]
  exact congrArg (draft.enabledModules ++ ·) (hzip draft.customModules 0)

theorem keys_declares (draft : Draft) : draft.declares.map (·.1) = draft.symbols.keys := by
  rw [declares, List.map_map]
  rfl

theorem entries_overrides (draft : Draft) : draft.overrides.entries = draft.declares := by
  refine Table.entries_ofList ?_
  rw [← declares, keys_declares]
  exact draft.symbols.nodup

theorem keys_overrides (draft : Draft) : draft.overrides.keys = draft.symbols.keys := by
  rw [Table.keys, entries_overrides, keys_declares]

theorem get_furnish (draft : Draft) (s : Settings) (field : Field) : (draft.furnish s).get field = s.get field := by
  cases field <;> rfl

theorem get_themed {base themed : Settings} (h : draft.themed base = .ok themed) (field : Field) :
    themed.get field = ((draft.theme.bind Theme.ofId?).bind (·.value? field)).getD (base.get field) := by
  rcases themed_eq_ok.1 h with ⟨hnone, rfl⟩ | ⟨id, theme, hid, htheme, rfl⟩
  · rw [hnone]
    rfl
  · rw [hid, Option.bind_some, htheme, Option.bind_some, Settings.get_applyTheme]

end Draft

variable {entries : Entries} {draft : Draft} {s : Settings}

theorem Accepts.given (h : Accepts entries draft) {part : Section} {field : Field} (hin : field ∈ part.fields) :
    (given? (.map entries) part field = none ∧ draft.scalars field = none) ∨
      ∃ raw v, given? (.map entries) part field = some raw ∧ field.check raw = .ok v ∧
        draft.scalars field = some v := by
  obtain ⟨members, hmembers, -, hall⟩ := h.sections part
  have hfound : ((Value.map entries).member? part.key).bind (·.member? field.key) =
      Value.entry? members field.key := by
    rw [Value.member?]
    rw [entryOr] at hmembers
    cases hpart : Value.entry? entries part.key with
    | none =>
      rw [hpart] at hmembers
      cases hmembers
      rfl
    | some value =>
      rw [hpart] at hmembers
      obtain rfl : value = .map members := hmembers
      rfl
  rcases optionalField_ok_iff.1 (hall field hin) with ⟨hnull, hnone⟩ | ⟨v, hnull, hv, hsome⟩
  · refine .inl ⟨?_, hnone⟩
    rw [given?, hfound]
    rw [entryOr] at hnull
    cases hentry : Value.entry? members field.key with
    | none => rfl
    | some raw =>
      rw [hentry] at hnull
      obtain rfl : raw = .null := hnull
      rfl
  · cases hentry : Value.entry? members field.key with
    | none => exact absurd (by rw [entryOr, hentry]; rfl) hnull
    | some raw =>
      rw [entryOr, hentry, Option.getD_some] at hnull hv
      refine .inr ⟨raw, v, ?_, hv, hsome⟩
      rw [given?, hfound, hentry]
      cases raw <;> first | rfl | exact absurd rfl hnull

theorem Accepts.comes (h : Accepts entries draft) (hs : draft.settings = .ok s) {part : Section} {field : Field}
    (hin : field ∈ part.fields) :
    Comes (draft.theme.bind Theme.ofId?) (given? (.map entries) part field) field (s.get field) := by
  obtain ⟨base, themed, hbase, hthemed, -, rfl⟩ := Draft.settings_eq_ok.1 hs
  rw [Draft.get_furnish, Draft.get_themed hthemed, h.get_base hbase, Draft.value]
  cases htheme : (draft.theme.bind Theme.ofId?).bind (·.value? field) with
  | some v =>
    obtain ⟨theme, hchosen, hv⟩ := Option.bind_eq_some_iff.1 htheme
    exact .theme hchosen hv
  | none =>
    rcases h.given hin with ⟨hnone, hscalar⟩ | ⟨raw, v, hraw, hv, hscalar⟩
    · rw [hscalar]
      exact .default htheme hnone
    · rw [hscalar]
      exact .document htheme hraw hv

theorem composed_addFiles (h : Accepts entries draft) (hs : draft.settings = .ok s) (ids : Nat → String)
    (files : List NewFile) :
    draft.Composed (.map entries) files (Session.addFiles ids ⟨s, 0⟩ files).settings := by
  obtain ⟨base, themed, -, -, -, he⟩ := Draft.settings_eq_ok.1 hs
  have henabled : s.enabledModules = Value.distinct (draft.enabledIds.map .text) := by rw [he]; rfl
  have hsymbols : s.symbols = draft.overrides := by rw [he]; rfl
  have hmodules : s.customModules = draft.modules := by rw [he]; rfl
  have huploads := Draft.uploads_of_settings hs
  have hget := Session.get_addFiles ⟨s, 0⟩ ids files
  rw [Session.addFiles_eq] at hget ⊢
  refine ⟨fun part field hin => ?_, ?_, ?_, hmodules, ?_⟩
  · rw [hget]
    exact h.comes hs hin
  · rw [← Draft.enabledIds_eq, ← Value.distinct_map_text]
    exact henabled
  · change (s.symbols.fill _).entries = _
    rw [hsymbols, Table.entries_fill, Draft.entries_overrides, Draft.keys_overrides, List.filter_map]
    rfl
  · rw [huploads]
    exact Session.anonymous_uploadsOf ids 0 files

theorem Accepts.settings_themed (h : Accepts entries draft) (hids : (draft.modules.map (·.id)).Nodup) {id : String}
    {theme : Theme} (htheme : Theme.ofId? id = some theme) :
    ∃ s, { draft with theme := none }.settings = .ok s ∧
      { draft with theme := some id }.settings = .ok (s.applyTheme theme) := by
  obtain ⟨base, hbase⟩ := h.revise_ok
  have hnone : firstRepeated? [] (draft.modules.map (·.id)) = none := firstRepeated?_eq_none hids (by simp)
  refine ⟨draft.furnish base, ?_, ?_⟩
  · exact Draft.settings_eq_ok.2 ⟨base, base, hbase, Draft.themed_eq_ok.2 (.inl ⟨rfl, rfl⟩), hnone, rfl⟩
  · have hthemed : { draft with theme := some id }.themed base = .ok (base.applyTheme theme) :=
      Draft.themed_eq_ok.2 (.inr ⟨id, theme, rfl, htheme, rfl⟩)
    exact Draft.settings_eq_ok.2 ⟨base, base.applyTheme theme, hbase, hthemed, hnone, rfl⟩

/-- A theme may as well be applied after the files have been added. -/
theorem anonymous_addFiles_applyTheme (ids ids' : Nat → String) (s : Settings) (theme : Theme)
    (files : List NewFile) :
    (Session.addFiles ids ⟨s.applyTheme theme, 0⟩ files).settings.anonymous =
      ((Session.addFiles ids' ⟨s, 0⟩ files).settings.applyTheme theme).anonymous := by
  have hcomm (t : Settings) : (t.applyTheme theme).anonymous = t.anonymous.applyTheme theme := rfl
  rw [hcomm, Session.anonymous_addFiles, Session.anonymous_addFiles]
  rfl

/-- An accepted document whose files can be read, and whose modules go by different names, gives settings in
which theme, sections, defaults, modules, symbols and drawings each have their say in this order. The theme
of a document comes to the same as one that is applied to the settings of the document without it, apart from
the identifiers of the uploads. -/
theorem build_composed {document : Value} (hd : checkDocument document = .ok draft) {tree : FileTree}
    {base : Path} {files : List NewFile} (hfiles : draft.sources.mapM (readSource tree base) = .ok files)
    (hids : (draft.modules.map (·.id)).Nodup) (ids ids' : Nat → String) :
    (∃ s, (draft.build tree base ids).result = .ok s ∧ draft.Composed document files s) ∧
      ∀ id theme, Theme.ofId? id = some theme → ∃ plain themed,
        ({ draft with theme := none }.build tree base ids').result = .ok plain ∧
          ({ draft with theme := some id }.build tree base ids).result = .ok themed ∧
          themed.anonymous = (plain.applyTheme theme).anonymous := by
  obtain ⟨entries, rfl, haccepts⟩ := checkDocument_ok_iff.1 hd
  constructor
  · obtain ⟨start, hstart⟩ := haccepts.settings_ok (firstRepeated?_eq_none hids (by simp))
    exact ⟨_, Draft.build_eq_ok.2 ⟨start, files, hstart, hfiles, rfl⟩,
      composed_addFiles haccepts hstart ids files⟩
  · intro id theme htheme
    obtain ⟨start, hplain, hthemed⟩ := haccepts.settings_themed hids htheme
    exact ⟨_, _, Draft.build_eq_ok.2 ⟨start, files, hplain, hfiles, rfl⟩,
      Draft.build_eq_ok.2 ⟨_, files, hthemed, hfiles, rfl⟩, anonymous_addFiles_applyTheme ids ids' start theme files⟩

/-- A document with a theme and a color of its own, a null, a module that is enabled twice, one that has no
identifier, a declared symbol, and two drawings that share symbols. -/
def layeredSheet : Value :=
  .map [(.text "theme", .text "hc_gray"),
    (.text "colors", .map [(.text "map_bg_color", .text "#123456"), (.text "print_mode", .text "yes")]),
    (.text "project", .map [(.text "scale", .int 250), (.text "author", .null)]),
    (.text "modules", .map [(.text "enabled", .list [.text "walls", .text "debug", .text "walls"]),
      (.text "custom", .list [
        .map [(.text "id", .text "walls"), (.text "name", .text "Walls"), (.text "code", .text "# walls")],
        .map [(.text "name", .text "Deep pits"), (.text "code", .text "# pits")]])]),
    (.text "symbols", .map [(.text "bat", .map [(.text "category", .text "point"),
      (.text "visible", .bool false)])]),
    (.text "sources", .list [.text "hall.th2", .text "notes.th", .text "entrance.th2"])]

def layeredTree : FileTree :=
  { entries :=
      [(["hall.th2"], .file (Text.utf8 "point 0 0 bat\nline wall\n".toList)),
       (["notes.th"], .file (Text.utf8 "line slope\n".toList)),
       (["entrance.th2"], .file (Text.utf8 "area wall\npoint 1 1 flag\n".toList))]
    working := [] }

theorem build_composed_layeredSheet :
    ∃ draft files, checkDocument layeredSheet = .ok draft ∧
      draft.sources.mapM (readSource layeredTree (.ofString ".")) = .ok files ∧
      (draft.modules.map (·.id)).Nodup ∧
      (∃ s, (draft.build layeredTree (.ofString ".") Text.decimalText).result = .ok s ∧
        draft.Composed layeredSheet files s) ∧
      ∀ id theme, Theme.ofId? id = some theme → ∃ plain themed,
        ({ draft with theme := none }.build layeredTree (.ofString ".") fun _ => "").result = .ok plain ∧
          ({ draft with theme := some id }.build layeredTree (.ofString ".") Text.decimalText).result = .ok themed ∧
          themed.anonymous = (plain.applyTheme theme).anonymous := by
  have hok : (checkDocument layeredSheet).toOption.any fun draft =>
      (draft.sources.mapM (readSource layeredTree (.ofString "."))).toOption.isSome &&
        decide (draft.modules.map (·.id)).Nodup := by
    decide +kernel
  cases hd : checkDocument layeredSheet with
  | error =>
    rw [hd] at hok
    cases hok
  | ok draft =>
    rw [hd] at hok
    obtain ⟨hread, hids⟩ := (Bool.and_eq_true_iff ..).1 hok
    obtain ⟨files, hfiles⟩ := Except.exists_ok hread
    obtain ⟨hbuilt, hthemed⟩ :=
      build_composed hd hfiles (of_decide_eq_true hids) Text.decimalText fun _ => ""
    exact ⟨draft, files, rfl, hfiles, of_decide_eq_true hids, hbuilt, hthemed⟩

/-- The theme wins over the color, the null leaves the default, and `wall` stays the line it was first. -/
example : ((checkDocument layeredSheet).toOption.bind fun draft =>
    (draft.build layeredTree (.ofString ".") fun _ => "").result.toOption).any fun s =>
      s.mapBgColor.text? = some "#f8f9fa" ∧ s.author.text? = some "" ∧
      s.enabledModules.filterMap Value.text? = ["walls", "debug", "custom_deep_pits"] ∧
      s.symbols.keys = ["bat", "wall", "flag"] ∧
      s.symbols.entries.map (·.2.category) = [.point, .line, .point] := by
  decide +kernel

end SettingsFile

end CaveMap
