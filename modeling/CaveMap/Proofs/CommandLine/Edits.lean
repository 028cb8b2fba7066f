import CaveMap.CommandLine.Plan
import CaveMap.Proofs.CommandLine.Reading
import CaveMap.Proofs.Settings.Modules
import CaveMap.Proofs.SettingsFile.Colors
import CaveMap.Proofs.SettingsFile.Edited
import CaveMap.Proofs.SettingsFile.Settled

namespace CaveMap

namespace Settings

variable {s : Settings}

def enabling (s : Settings) (enabled : List Value) : Settings := { s with enabledModules := enabled }

theorem foldl_setEnabled (ids : List String) (s : Settings) :
    ∃ enabled, ids.foldl (fun s id => s.setEnabled id true) s = s.enabling enabled ∧
      ∀ id, .text id ∈ enabled ↔ .text id ∈ s.enabledModules ∨ id ∈ ids := by
  induction ids generalizing s with
  | nil => exact ⟨s.enabledModules, rfl, by simp⟩
  | cons first rest ih =>
    obtain ⟨enabled, hfold, hmem⟩ := ih (s.setEnabled first true)
    refine ⟨enabled, hfold, fun id => ?_⟩
    rw [hmem, setEnabled, List.mem_append, mem_withoutId, List.mem_cons]
    simp only [if_true, List.mem_singleton, Value.text.injEq]
    tauto

end Settings

namespace CommandLine.Arguments

open SettingsFile

variable {args : Arguments} {entries : Entries} {draft : Draft}

def given (args : Arguments) : Field → Option Value
  | .paperSize => args.paper.map fun size => .text size.name
  | .printMode => if args.printMode then some (.bool true) else none
  | .exportTypes => if args.exports.isEmpty then none else some (.list (args.exports.map .text))
  | _ => none

def editField (args : Arguments) (part : Section) (field : Field) (entries : Entries) : Entries :=
  match args.given field with
  | some value => withField part field value entries
  | none => entries

/-- A settings document that says what the switches say; `sources` are the texts of the source files. -/
def edited (args : Arguments) (sources : List String) (entries : Entries) : Entries :=
  let entries :=
    match args.theme with
    | some theme => withTheme theme.id entries
    | none => entries
  let entries := args.editField .project .paperSize entries
  let entries := args.editField .colors .printMode entries
  let entries := args.editField .project .exportTypes entries
  let entries := if args.modules.isEmpty then entries else withEnabled args.modules entries
  if sources.isEmpty then entries else SettingsFile.withSources sources entries

def editedDraft (args : Arguments) (sources : List String) (draft : Draft) : Draft :=
  { draft with
    theme := (args.theme.map (·.id)).or draft.theme
    scalars := fun field => (args.given field).or (draft.scalars field)
    enabledModules := draft.enabledModules ++ args.modules
    sources := draft.sources ++ sources }

/-- Themes and export kinds that can be chosen on a command line. -/
structure Chosen (args : Arguments) : Prop where
  theme : ∀ theme, args.theme = some theme → Theme.ofId? theme.id = some theme
  exports : ∀ kind ∈ args.exports, kind ∈ ExportKind.all

theorem Chosen.assign {args' : Arguments} (h : args.Chosen) {switch : Switch} {argument : String}
    (ha : args.assign switch argument = .ok args') : args'.Chosen := by
  cases switch with
  | theme =>
    simp only [Arguments.assign] at ha
    split at ha
    · next chosen hchosen =>
      cases ha
      have hid : chosen.id = argument := by simpa using List.find?_some hchosen
      refine ⟨fun other he => ?_, h.exports⟩
      cases he
      rw [hid]
      exact hchosen
    · cases ha
  | exportKind =>
    simp only [Arguments.assign] at ha
    split at ha
    · next hin =>
      cases ha
      refine ⟨h.theme, fun kind hkind => ?_⟩
      rcases List.mem_append.1 hkind with hold | hnew
      · exact h.exports kind hold
      · rw [List.mem_singleton.1 hnew]
        simpa using hin
    · cases ha
  | paper =>
    simp only [Arguments.assign] at ha
    split at ha <;> cases ha
    exact ⟨h.theme, h.exports⟩
  | logLevel =>
    simp only [Arguments.assign] at ha
    split at ha <;> cases ha
    exact ⟨h.theme, h.exports⟩
  | _ =>
    cases ha
    exact ⟨h.theme, h.exports⟩

/-- Whatever a command line says, what it is read as can be chosen. -/
theorem chosen_of_parse {words : List String} (h : parse words = .ok (.run args)) : args.Chosen :=
  parse_induction (fun _ _ _ _ hargs ha => hargs.assign ha)
    ⟨by rintro _ ⟨⟩, fun _ hin => absurd hin List.not_mem_nil⟩ h

theorem checkItems_texts {names kinds : List String} (h : ∀ kind ∈ kinds, kind ∈ names) :
    checkItems (checkChoice names) (.list (kinds.map .text)) = .ok kinds := by
  refine checkItems_ok_iff.2 (Check.gather_eq_ok.2 ?_)
  rw [List.map_map]
  refine List.map_congr_left fun kind hin => ?_
  have hcontains : names.contains kind := by simpa using h kind hin
  simp only [Function.comp_apply, checkChoice, hcontains, if_true]
  rfl

theorem Chosen.check_given (hargs : args.Chosen) {field : Field} {value : Value}
    (h : args.given field = some value) : value ≠ .null ∧ field.check value = .ok value := by
  cases field with
  | paperSize =>
    obtain ⟨size, -, rfl⟩ := Option.map_eq_some_iff.1 h
    cases size <;> exact ⟨Value.noConfusion, rfl⟩
  | printMode =>
    change (if args.printMode then some (.bool true) else none) = some value at h
    split at h <;> cases h
    exact ⟨Value.noConfusion, rfl⟩
  | exportTypes =>
    change (if args.exports.isEmpty then none else some (.list (args.exports.map .text))) = some value at h
    split at h <;> cases h
    exact ⟨Value.noConfusion, Check.map_eq_ok.2 ⟨args.exports, checkItems_texts hargs.exports, rfl⟩⟩
  | _ => cases h

theorem accepts_editField (hargs : args.Chosen) (h : Accepts entries draft) (part : Section) (field : Field)
    (hin : field ∈ part.fields) :
    Accepts (args.editField part field entries)
      { draft with
        scalars := Function.update draft.scalars field ((args.given field).or (draft.scalars field)) } := by
  unfold editField
  cases he : args.given field with
  | none =>
    rw [Option.none_or, Function.update_eq_self]
    exact h
  | some value =>
    obtain ⟨hvalue, hcheck⟩ := hargs.check_given he
    exact h.withField hin hvalue hcheck

theorem accepts_enabled (h : Accepts entries draft) (ids : List String) :
    Accepts (if ids.isEmpty then entries else withEnabled ids entries)
      { draft with enabledModules := draft.enabledModules ++ ids } := by
  split
  · next hempty =>
    rw [List.isEmpty_iff.1 hempty, List.append_nil]
    exact h
  · exact h.withEnabled ids

theorem accepts_sources (h : Accepts entries draft) (sources : List String) :
    Accepts (if sources.isEmpty then entries else SettingsFile.withSources sources entries)
      { draft with sources := draft.sources ++ sources } := by
  split
  · next hempty =>
    rw [List.isEmpty_iff.1 hempty, List.append_nil]
    exact h
  · exact h.withSources sources

theorem accepts_edited (hargs : args.Chosen) (h : Accepts entries draft) (sources : List String) :
    Accepts (args.edited sources entries) (args.editedDraft sources draft) := by
  have htheme : Accepts (match args.theme with | some theme => withTheme theme.id entries | none => entries)
      { draft with theme := (args.theme.map (·.id)).or draft.theme } := by
    cases he : args.theme with
    | none => exact h
    | some theme =>
      exact h.withTheme (List.mem_map_of_mem (List.mem_of_find?_eq_some (hargs.theme theme he)))
  have hpaper := accepts_editField hargs htheme .project .paperSize (by decide)
  have hprint := accepts_editField hargs hpaper .colors .printMode (by decide)
  have hexports := accepts_editField hargs hprint .project .exportTypes (by decide)
  have hall := accepts_sources (accepts_enabled hexports args.modules) sources
  convert hall using 1
  · rfl
  · unfold editedDraft
    congr 1
    funext field
    cases field <;> rfl

variable {s t : Settings}

def revised (args : Arguments) (s : Settings) : Settings :=
  { s with
    printMode := if args.printMode then .bool true else s.printMode
    paperSize := args.paper.getD s.paperSize
    exportTypes := if args.exports.isEmpty then s.exportTypes else args.exports.map .text }

theorem get_revised (args : Arguments) (s : Settings) (field : Field) :
    (args.revised s).get field = (args.given field).getD (s.get field) := by
  cases field with
  | paperSize =>
    change Value.text (args.paper.getD s.paperSize).name = (args.paper.map fun size => .text size.name).getD _
    cases args.paper <;> rfl
  | printMode =>
    change (if args.printMode then .bool true else s.printMode) =
      (if args.printMode then some (.bool true) else none).getD s.printMode
    split <;> rfl
  | exportTypes =>
    change Value.list (if args.exports.isEmpty then s.exportTypes else args.exports.map .text) =
      (if args.exports.isEmpty then none else some (.list (args.exports.map .text))).getD (.list s.exportTypes)
    split <;> rfl
  | _ => rfl

theorem override_eq (args : Arguments) (s : Settings) :
    args.override s = args.modules.foldl (fun s id => s.setEnabled id true)
      (args.revised ((args.theme.map s.applyTheme).getD s)) := by
  unfold override revised
  cases args.printMode <;> cases args.exports.isEmpty <;> rfl

theorem override_addFile (args : Arguments) (s : Settings) (id : String) (file : NewFile) :
    args.override (s.addFile id file) = (args.override s).addFile id file := by
  have hfold (ids : List String) (s : Settings) :
      ids.foldl (fun s id => s.setEnabled id true) (s.addFile id file) =
        (ids.foldl (fun s id => s.setEnabled id true) s).addFile id file := by
    induction ids generalizing s with
    | nil => rfl
    | cons first rest ih => exact ih (s.setEnabled first true)
  rw [override_eq, override_eq, ← hfold]
  cases args.theme <;> rfl

theorem value_editedDraft (args : Arguments) (sources : List String) (draft : Draft) (field : Field) :
    (args.editedDraft sources draft).value field = (args.given field).getD (draft.value field) := by
  change ((args.given field).or (draft.scalars field)).getD _ = _
  cases args.given field <;> rfl

theorem base_edited (hargs : args.Chosen) (h : Accepts entries draft) (sources : List String)
    {base base' : Settings} (hbase : Settings.default.revise { scalars := draft.scalars } = .ok base)
    (hbase' : Settings.default.revise { scalars := (args.editedDraft sources draft).scalars } = .ok base') :
    base' = args.revised base := by
  have hedited := accepts_edited hargs h sources
  have hold := Settings.revise_eq_ok hbase
  have hnew := Settings.revise_eq_ok hbase'
  apply Settings.ext_get
  · intro field
    rw [hedited.get_base hbase', value_editedDraft, get_revised, h.get_base hbase]
  · exact hnew.uploads.trans hold.uploads.symm
  · exact Except.ok.inj (hnew.enabledModules.symm.trans hold.enabledModules)
  · exact hnew.customModules.trans hold.customModules.symm
  · exact hnew.symbols.trans hold.symbols.symm

theorem themed_edited (hargs : args.Chosen) {sources : List String} {base themed themed' : Settings}
    (h : draft.themed base = .ok themed)
    (h' : (args.editedDraft sources draft).themed (args.revised base) = .ok themed') :
    themed' = args.revised ((args.theme.map themed.applyTheme).getD themed) := by
  cases hchosen : args.theme with
  | none =>
    have htheme : (args.editedDraft sources draft).theme = draft.theme := by
      rw [editedDraft, hchosen]
      rfl
    rcases Draft.themed_eq_ok.1 h with ⟨hnone, rfl⟩ | ⟨id, theme, hid, hfound, rfl⟩
    · rcases Draft.themed_eq_ok.1 h' with ⟨-, rfl⟩ | ⟨id, theme, hid, -, -⟩
      · rfl
      · cases hnone.symm.trans (htheme.symm.trans hid)
    · rcases Draft.themed_eq_ok.1 h' with ⟨hnone, -⟩ | ⟨id', theme', hid', hfound', rfl⟩
      · cases hid.symm.trans (htheme.symm.trans hnone)
      · cases hid.symm.trans (htheme.symm.trans hid')
        cases hfound.symm.trans hfound'
        rfl
  | some theme =>
    have htheme : (args.editedDraft sources draft).theme = some theme.id := by
      rw [editedDraft, hchosen]
      rfl
    rcases Draft.themed_eq_ok.1 h' with ⟨hnone, -⟩ | ⟨id, found, hid, hfound, rfl⟩
    · cases htheme.symm.trans hnone
    · cases htheme.symm.trans hid
      cases (hargs.theme theme hchosen).symm.trans hfound
      rcases Draft.themed_eq_ok.1 h with ⟨-, rfl⟩ | ⟨-, -, -, -, rfl⟩ <;> rfl

theorem mem_enabledIds_edited {sources : List String} {id : String} :
    id ∈ (args.editedDraft sources draft).enabledIds ↔ id ∈ draft.enabledIds ∨ id ∈ args.modules := by
  let declared := ((draft.modules.zip draft.customModules).filter (·.2.enabled)).map (·.1.id)
  change id ∈ draft.enabledModules ++ args.modules ++ declared ↔
    id ∈ draft.enabledModules ++ declared ∨ id ∈ args.modules
  simp only [List.mem_append]
  tauto

/-- The edited draft stands for the overridden settings, but for the order of the enabled modules. -/
theorem settings_edited (hargs : args.Chosen) (h : Accepts entries draft) (sources : List String)
    (hs : draft.settings = .ok s) :
    ∃ enabled, (args.editedDraft sources draft).settings = .ok ((args.override s).enabling enabled) ∧
      ∀ id, .text id ∈ enabled ↔ .text id ∈ (args.override s).enabledModules := by
  obtain ⟨base, themed, hbase, hthemed, hids, rfl⟩ := Draft.settings_eq_ok.1 hs
  obtain ⟨t, ht⟩ := (accepts_edited hargs h sources).settings_ok hids
  obtain ⟨base', themed', hbase', hthemed', -, rfl⟩ := Draft.settings_eq_ok.1 ht
  obtain rfl := base_edited hargs h sources hbase hbase'
  obtain rfl := themed_edited hargs hthemed hthemed'
  obtain ⟨enabled, hfold, hmem⟩ := Settings.foldl_setEnabled args.modules
    (args.revised ((args.theme.map (draft.furnish themed).applyTheme).getD (draft.furnish themed)))
  rw [← override_eq] at hfold
  refine ⟨Value.distinct ((args.editedDraft sources draft).enabledIds.map .text), ?_, fun id => ?_⟩
  · rw [ht, hfold]
    cases args.theme <;> rfl
  · have hfurnished : (args.revised ((args.theme.map (draft.furnish themed).applyTheme).getD
        (draft.furnish themed))).enabledModules = Value.distinct (draft.enabledIds.map .text) := by
      cases args.theme <;> rfl
    have htexts (ids : List String) : .text id ∈ ids.map Value.text ↔ id ∈ ids := by simp
    rw [hfold]
    change _ ↔ .text id ∈ enabled
    rw [hmem, hfurnished, Value.mem_distinct_text, Value.mem_distinct_text, htexts, htexts,
      mem_enabledIds_edited]

end CommandLine.Arguments

end CaveMap
