import CaveMap.Proofs.Document.Visible
import CaveMap.Proofs.Session.Files
import CaveMap.Proofs.SettingsFile.Accepted
import CaveMap.Proofs.SettingsFile.Derived

namespace CaveMap

/-- Texts where a document pastes texts, export kinds that can be looked up, and no value but the number of
columns that is too long to be written. -/
structure Settings.Drawable (s : Settings) : Prop where
  texts : ∀ field ∈ Layout.pastedFields, ∃ t, s.get field = .text t
  written : ∀ field, field ≠ .legendColumns → (s.get field).isWritable
  exports : ∀ kind ∈ s.exportTypes, kind.isKey

theorem Settings.Drawable.of_get {s t : Settings} (h : s.Drawable) (he : t.get = s.get) : t.Drawable where
  texts := he ▸ h.texts
  written := he ▸ h.written
  exports := by
    have hexports : Value.list t.exportTypes = .list s.exportTypes := congrFun he .exportTypes
    rw [Value.list.inj hexports]
    exact h.exports

theorem Settings.Drawable.applyTheme {s : Settings} (h : s.Drawable) (theme : Theme) :
    (s.applyTheme theme).Drawable where
  texts field hin := by
    have hsame : (s.applyTheme theme).get field = s.get field := by
      revert hin
      cases field <;> first | exact fun _ => rfl | exact fun hin => absurd hin (by decide)
    rw [hsame]
    exact h.texts field hin
  written field hfield := by
    cases field <;> first | exact h.written _ hfield | rfl
  exports := h.exports

theorem Settings.Drawable.writable_iff {s : Settings} (h : s.Drawable) :
    Layout.Writable s ↔ s.legendColumns.isWritable := Layout.writable_iff_columns h.written

/-- The layout document of drawable settings, as far as the number of columns lets it be written. -/
theorem Settings.Drawable.generate_eq {s : Settings} (h : s.Drawable) :
    (Layout.generate s).result =
      if s.legendColumns.isWritable then .ok (Layout.visible s).text else .error .longInteger := by
  by_cases hcolumns : s.legendColumns.isWritable
  · rw [if_pos hcolumns]
    exact Layout.generate_eq_visible h.texts (h.writable_iff.2 hcolumns)
  · rw [if_neg hcolumns]
    exact Layout.generate_of_not_writable h.texts (mt h.writable_iff.1 hcolumns)

namespace SettingsFile

open Check

variable {entries : Entries} {draft : Draft}

theorem checkChoice_ok {names : List String} {v : Value} {t : String} (h : checkChoice names v = .ok t) :
    t ∈ names := by
  unfold checkChoice at h
  split at h
  · split at h
    · next hin =>
      cases h
      simpa using hin
    · cases h
  · cases h

def Draft.value (draft : Draft) (field : Field) : Value :=
  (draft.scalars field).getD (Settings.default.get field)

theorem Accepts.value_checked (h : Accepts entries draft) (field : Field) :
    draft.value field = Settings.default.get field ∨ ∃ v, field.check v = .ok (draft.value field) := by
  unfold Draft.value
  cases hgiven : draft.scalars field with
  | none => exact .inl rfl
  | some w => exact .inr (h.checked hgiven)

theorem Accepts.paperSize (h : Accepts entries draft) :
    ∃ size : PaperSize, draft.value .paperSize = .text size.name := by
  rcases h.value_checked .paperSize with he | ⟨v, hv⟩
  · exact ⟨.a4, he⟩
  · obtain ⟨t, ht, he⟩ := map_eq_ok.1 hv
    obtain ⟨size, -, rfl⟩ := List.mem_map.1 (checkChoice_ok ht)
    exact ⟨size, he.symm⟩

theorem Accepts.surveyStyle (h : Accepts entries draft) :
    ∃ style : SurveyStyle, draft.value .surveyStyle = .text style.name := by
  rcases h.value_checked .surveyStyle with he | ⟨v, hv⟩
  · exact ⟨.solid, he⟩
  · obtain ⟨t, ht, he⟩ := map_eq_ok.1 hv
    obtain ⟨style, -, rfl⟩ := List.mem_map.1 (checkChoice_ok ht)
    exact ⟨style, he.symm⟩

theorem Accepts.exportTypes (h : Accepts entries draft) :
    ∃ kinds : List String, draft.value .exportTypes = .list (kinds.map .text) := by
  rcases h.value_checked .exportTypes with he | ⟨v, hv⟩
  · exact ⟨["map"], he⟩
  · obtain ⟨kinds, -, he⟩ := map_eq_ok.1 hv
    exact ⟨kinds, he.symm⟩

theorem Accepts.pasted (h : Accepts entries draft) {field : Field} (hin : field ∈ Layout.pastedFields) :
    ∃ t, draft.value field = .text t := by
  have hdefault : ∃ t, Settings.default.get field = .text t := by
    revert hin
    cases field <;> first | exact fun _ => ⟨_, rfl⟩ | exact fun hin => absurd hin (by decide)
  rcases h.value_checked field with he | ⟨v, hv⟩
  · rw [he]
    exact hdefault
  · have hcheck : (checkText v).map Value.text = .ok (draft.value field) := by
      simp only [Layout.pastedFields, List.mem_cons, List.not_mem_nil, or_false] at hin
      rcases hin with rfl | rfl | rfl | rfl | rfl | rfl | rfl <;> exact hv
    obtain ⟨t, -, he⟩ := map_eq_ok.1 hcheck
    exact ⟨t, he.symm⟩

theorem isWritable_checked {field : Field} (hfield : field ≠ .legendColumns) {v w : Value}
    (h : field.check v = .ok w) : w.isWritable := by
  cases field with
  | legendColumns => exact absurd rfl hfield
  | exportTypes =>
    obtain ⟨kinds, -, rfl⟩ := map_eq_ok.1 h
    exact Value.areWritable_texts kinds
  | _ =>
    obtain ⟨_, -, rfl⟩ := map_eq_ok.1 h
    rfl

theorem Accepts.written (h : Accepts entries draft) {field : Field} (hfield : field ≠ .legendColumns) :
    (draft.value field).isWritable := by
  rcases h.value_checked field with he | ⟨v, hv⟩
  · rw [he]
    cases field <;> first | exact absurd rfl hfield | decide
  · exact isWritable_checked hfield hv

theorem Accepts.revise_ok (h : Accepts entries draft) :
    ∃ base, Settings.default.revise { scalars := draft.scalars } = .ok base := by
  obtain ⟨size, hsize⟩ := h.paperSize
  obtain ⟨style, hstyle⟩ := h.surveyStyle
  obtain ⟨kinds, hkinds⟩ := h.exportTypes
  unfold Draft.value at hsize hstyle hkinds
  unfold Settings.revise
  simp only [hsize, hstyle, hkinds, Value.text?, Option.bind_some, PaperSize.ofName?_name,
    SurveyStyle.ofName?_name]
  exact ⟨_, rfl⟩

theorem Accepts.get_base (h : Accepts entries draft) {base : Settings}
    (hbase : Settings.default.revise { scalars := draft.scalars } = .ok base) (field : Field) :
    base.get field = draft.value field := by
  have hrevised := Settings.revise_eq_ok hbase
  by_cases he : field = .exportTypes
  · subst he
    obtain ⟨kinds, hkinds⟩ := h.exportTypes
    have hitems : (draft.value .exportTypes).items? = some base.exportTypes := hrevised.exportTypes
    rw [hkinds] at hitems ⊢
    rw [Settings.get, ← Option.some.inj hitems]
  · exact hrevised.get field he

theorem Accepts.theme_ok (h : Accepts entries draft) {id : String} (hid : draft.theme = some id) :
    ∃ theme, Theme.ofId? id = some theme := by
  have htheme := h.theme
  rw [hid] at htheme
  obtain ⟨v, hv⟩ := optionalField_some htheme
  obtain ⟨t, -, ht⟩ := bind_eq_ok.1 hv
  split at ht
  · next hin =>
    cases ht
    obtain ⟨theme, htheme, he⟩ := List.mem_map.1 (List.contains_iff_mem.1 hin)
    cases hfound : Theme.ofId? id with
    | some found => exact ⟨found, rfl⟩
    | none => exact absurd (decide_eq_true he) (List.find?_eq_none.1 hfound theme htheme)
  · cases ht

theorem Accepts.themed_ok (h : Accepts entries draft) (base : Settings) : ∃ themed, draft.themed base = .ok themed := by
  cases hid : draft.theme with
  | none => exact ⟨base, Draft.themed_eq_ok.2 (.inl ⟨hid, rfl⟩)⟩
  | some id =>
    obtain ⟨theme, htheme⟩ := h.theme_ok hid
    exact ⟨_, Draft.themed_eq_ok.2 (.inr ⟨id, theme, hid, htheme, rfl⟩)⟩

theorem Accepts.settings_ok (h : Accepts entries draft)
    (hids : firstRepeated? [] (draft.modules.map (·.id)) = none) : ∃ s, draft.settings = .ok s := by
  obtain ⟨base, hbase⟩ := h.revise_ok
  obtain ⟨themed, hthemed⟩ := h.themed_ok base
  exact ⟨_, Draft.settings_eq_ok.2 ⟨base, themed, hbase, hthemed, hids, rfl⟩⟩

theorem Accepts.columns_eq (h : Accepts entries draft) {s : Settings} (hs : draft.settings = .ok s) :
    s.legendColumns = draft.value .legendColumns := by
  obtain ⟨base, themed, hbase, hthemed, -, rfl⟩ := Draft.settings_eq_ok.1 hs
  have hcolumns : themed.legendColumns = base.legendColumns := by
    rcases Draft.themed_eq_ok.1 hthemed with ⟨-, rfl⟩ | ⟨id, theme, -, -, rfl⟩ <;> rfl
  exact hcolumns.trans (h.get_base hbase .legendColumns)

theorem Accepts.drawable (h : Accepts entries draft) {s : Settings} (hs : draft.settings = .ok s) : s.Drawable := by
  obtain ⟨base, themed, hbase, hthemed, -, rfl⟩ := Draft.settings_eq_ok.1 hs
  have hdrawable : base.Drawable := by
    refine ⟨fun field hin => h.get_base hbase field ▸ h.pasted hin,
      fun field hfield => h.get_base hbase field ▸ h.written hfield, ?_⟩
    obtain ⟨kinds, hkinds⟩ := h.exportTypes
    have hexports : Value.list base.exportTypes = .list (kinds.map .text) :=
      (h.get_base hbase .exportTypes).trans hkinds
    rw [Value.list.inj hexports, List.forall_mem_map]
    exact fun _ _ => rfl
  have hfurnished (s : Settings) : (draft.furnish s).get = s.get := by
    funext field
    cases field <;> rfl
  have hthemed : themed.Drawable := by
    rcases Draft.themed_eq_ok.1 hthemed with ⟨-, rfl⟩ | ⟨id, theme, -, -, rfl⟩
    · exact hdrawable
    · exact hdrawable.applyTheme theme
  exact hthemed.of_get (hfurnished themed)

theorem enabled_of_build {tree : FileTree} {base : Path} {ids : Nat → String} {s : Settings}
    (h : (draft.build tree base ids).result = .ok s) : ∀ id ∈ s.enabledModules, ∃ t, id = .text t := by
  obtain ⟨start, files, hstart, -, rfl⟩ := Draft.build_eq_ok.1 h
  obtain ⟨base, themed, -, -, -, rfl⟩ := Draft.settings_eq_ok.1 hstart
  have henabled : (draft.furnish themed).enabledModules = draft.enabledIds.eraseDups.map .text :=
    Value.distinct_map_text draft.enabledIds
  rw [Session.enabledModules_addFiles, henabled, List.forall_mem_map]
  exact fun id _ => ⟨id, rfl⟩

/-- What an accepted document stands for can be drawn. -/
theorem drawable_of_build {tree : FileTree} {value : Value} {base : Path}
    {ids : Nat → String} {s : Settings} (hd : checkDocument value = .ok draft)
    (h : (draft.build tree base ids).result = .ok s) : s.Drawable := by
  obtain ⟨entries, -, haccepts⟩ := checkDocument_ok_iff.1 hd
  obtain ⟨start, files, hstart, -, rfl⟩ := Draft.build_eq_ok.1 h
  exact (haccepts.drawable hstart).of_get (Session.get_addFiles _ ids files)

/-- Drawable settings can be saved as well, if their enabled modules are named by texts. -/
theorem isWritable_document {s : Settings} (h : s.Drawable) (hcolumns : s.legendColumns.isWritable)
    (henabled : ∀ id ∈ s.enabledModules, ∃ t, id = .text t) (directory : List String) (base : Option Path) :
    (document directory base s).isWritable := by
  have hfields (part : Section) : (sectionDocument s part).isWritable := by
    refine Value.entriesWritable_iff.2 (List.forall_mem_map.2 fun field _ => ⟨rfl, ?_⟩)
    by_cases hfield : field = .legendColumns
    · exact hfield ▸ hcolumns
    · exact h.written field hfield
  have hids : ∀ id ∈ s.enabledModules, id.isWritable := fun id hin => by
    obtain ⟨t, rfl⟩ := henabled id hin
    rfl
  have hmodules : (modulesDocument s).isWritable := by
    refine Value.entriesWritable_iff.2 (List.forall_mem_cons.2 ⟨⟨rfl, ?_⟩, List.forall_mem_singleton.2 ⟨rfl, ?_⟩⟩)
    · exact Value.areWritable_iff.2 fun id hin => hids id (List.mem_of_mem_filter hin)
    · exact Value.areWritable_iff.2 (List.forall_mem_map.2 fun _ _ => rfl)
  have hsymbol (o : SymbolOverride) : (symbolDocument o).isWritable := by
    unfold symbolDocument
    cases o.color <;> cases o.symbolSet <;> rfl
  refine Value.entriesWritable_iff.2 ?_
  simp only [List.forall_mem_append, List.forall_mem_cons, List.not_mem_nil, false_imp_iff, implies_true,
    and_true]
  refine ⟨⟨⟨rfl, rfl⟩, List.forall_mem_map.2 fun part _ => ⟨rfl, hfields part⟩⟩, ⟨rfl, hmodules⟩, ⟨rfl, ?_⟩, ⟨rfl, ?_⟩⟩
  · exact Value.entriesWritable_iff.2 (List.forall_mem_map.2 fun entry _ => ⟨rfl, hsymbol entry.2⟩)
  · exact Value.areWritable_iff.2 (List.forall_mem_map.2 fun _ _ => rfl)

end SettingsFile

end CaveMap
