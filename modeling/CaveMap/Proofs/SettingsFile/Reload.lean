import CaveMap.Proofs.Document.Visible
import CaveMap.Proofs.Settings.Revise
import CaveMap.Proofs.SettingsFile.Draft
import CaveMap.SettingsFile.Sources

namespace CaveMap

open SettingsFile

def MapModule.reread (m : MapModule) : MapModule :=
  { m with displayName := Text.strip m.displayName, category := .drawing, isCustom := true }

namespace Settings

/-- Enabled ids as they are loaded: those of custom modules last, in the order of the modules. -/
def reloadedIds (s : Settings) : List String :=
  s.otherIds ++ (s.customModules.filter fun m => s.isEnabled m.id).map (·.id)

/-- The settings that are loaded from the document of settings, before any source file is read. -/
def reloaded (s : Settings) : Settings :=
  { s with
    scale := s.scale.widened
    legendWidth := s.legendWidth.widened
    headerX := s.headerX.widened
    headerY := s.headerY.widened
    logoWidth := s.logoWidth.widened
    caveNameFontSize := s.caveNameFontSize.widened
    borderThickness := s.borderThickness.widened
    stationLabelSize := s.stationLabelSize.widened
    rotation := s.rotation.widened
    overlap := s.overlap.widened
    scaleBarLength := s.scaleBarLength.widened
    uploads := []
    enabledModules := s.reloadedIds.map .text }

/-- The same for any custom modules and ids. -/
def reread (s : Settings) : Settings :=
  { s.reloaded with
    customModules := s.customModules.map MapModule.reread
    enabledModules := Value.distinct (s.reloadedIds.map .text) }

variable {s : Settings}

theorem get_reloaded (s : Settings) (field : Field) :
    s.reloaded.get field = field.kind.loaded (s.get field) := by
  cases field <;> rfl

theorem revise_loaded (s : Settings) :
    Settings.default.revise { scalars := fun field => some (field.kind.loaded (s.get field)) } =
      .ok { s.reloaded with enabledModules := [], customModules := [], symbols := ∅ } := by
  unfold revise
  simp only [Option.getD_some, Field.kind, FieldKind.loaded, get, Value.text?, Option.bind_some,
    PaperSize.ofName?_name, SurveyStyle.ofName?_name]
  rfl

theorem mem_customs {id : String} : id ∈ (s.customModules.filter fun m => s.isEnabled m.id).map (·.id) ↔
    id ∈ s.customIds ∧ s.isEnabled id := by
  simp only [customIds, List.mem_map, List.mem_filter]
  constructor
  · rintro ⟨m, ⟨hm, he⟩, rfl⟩
    exact ⟨⟨m, hm, rfl⟩, he⟩
  · rintro ⟨⟨m, hm, rfl⟩, he⟩
    exact ⟨m, ⟨hm, he⟩, rfl⟩

theorem nodup_reloadedIds (hs : s.Typed) (hr : s.Recorded) : s.reloadedIds.Nodup := by
  refine List.nodup_append'.2 ⟨hs.nodup_enabledIds.filter _, ?_, fun id hother hcustom => ?_⟩
  · exact hr.ids.sublist (List.filter_sublist.map _)
  · have hnot : id ∉ s.customIds := by simpa using (List.mem_filter.1 hother).2
    exact hnot (mem_customs.1 hcustom).1

theorem mem_reloadedIds (hs : s.Shaped) {id : String} : id ∈ s.reloadedIds ↔ id ∈ s.enabledIds := by
  rw [reloadedIds, List.mem_append, mem_customs, hs.isEnabled_eq, otherIds, List.mem_filter]
  by_cases h : id ∈ s.customIds <;> simp [h]

theorem reloadedIds_perm (hs : s.Typed) (hr : s.Recorded) : s.reloadedIds.Perm s.enabledIds :=
  (List.perm_ext_iff_of_nodup (nodup_reloadedIds hs hr) hs.nodup_enabledIds).2 fun _ =>
    mem_reloadedIds hs.shaped

theorem reread_eq (hs : s.Typed) (hr : s.Recorded) : s.reread = s.reloaded := by
  have hmodules : s.customModules.map MapModule.reread = s.customModules := by
    conv_rhs => rw [← List.map_id s.customModules]
    refine List.map_congr_left fun m hm => ?_
    obtain ⟨-, hname, hcategory, hcustom⟩ := hr.modules m hm
    rw [MapModule.reread, hname, ← hcategory, ← hcustom]
    rfl
  unfold reread
  rw [hmodules, Value.distinct_texts (nodup_reloadedIds hs hr)]
  rfl

end Settings

namespace SettingsFile

variable {s : Settings}

theorem firstRepeated?_eq_none {seen ids : List String} (hn : ids.Nodup)
    (hseen : ∀ id ∈ ids, id ∉ seen) : firstRepeated? seen ids = none := by
  induction ids generalizing seen with
  | nil => rfl
  | cons id rest ih =>
    obtain ⟨hid, hrest⟩ := List.nodup_cons.1 hn
    rw [firstRepeated?, if_neg (by simpa using hseen id List.mem_cons_self)]
    refine ih hrest fun other hin hmem => ?_
    rcases List.mem_cons.1 hmem with rfl | hold
    · exact hid hin
    · exact hseen other (List.mem_cons_of_mem _ hin) hold

theorem firstRepeated?_eq_none_iff {seen ids : List String} :
    firstRepeated? seen ids = none ↔ ids.Nodup ∧ ∀ id ∈ ids, id ∉ seen := by
  refine ⟨fun h => ?_, fun h => firstRepeated?_eq_none h.1 h.2⟩
  induction ids generalizing seen with
  | nil => simp
  | cons first rest ih =>
    rw [firstRepeated?] at h
    split at h
    · cases h
    · next hseen =>
      rw [List.contains_iff_mem] at hseen
      obtain ⟨hnodup, hrest⟩ := ih h
      have hfirst : first ∉ rest := fun hin => hrest first hin List.mem_cons_self
      refine ⟨List.nodup_cons.2 ⟨hfirst, hnodup⟩, List.forall_mem_cons.2 ⟨hseen, ?_⟩⟩
      exact fun id hin => mt (List.mem_cons_of_mem first) (hrest id hin)

theorem moduleOf_customEntry {m : MapModule} (index : Nat) (hid : m.id ≠ "") :
    moduleOf (s.customEntry m) index = m.reread := by
  have heffective : effectiveId (s.customEntry m) index = m.id := by
    simp [effectiveId, Settings.customEntry, hid]
  unfold moduleOf
  rw [heffective]
  rfl

theorem overrideOf_entry {key : String} {override : SymbolOverride} (h : override.type = key) :
    overrideOf key override.entry = override := by
  cases override
  cases h
  rfl

namespace Draft.Records

variable {draft : Draft}

theorem modules_eq (h : draft.Records s) (hi : s.Identified) :
    draft.modules = s.customModules.map MapModule.reread := by
  rw [Draft.modules, h.customModules, List.zipIdx_map, List.map_map]
  calc s.customModules.zipIdx.map _ = s.customModules.zipIdx.map (MapModule.reread ∘ Prod.fst) :=
        List.map_congr_left fun x hx => moduleOf_customEntry x.2 (hi.filled x.1 (List.fst_mem_of_mem_zipIdx hx))
    _ = (s.customModules.zipIdx.map Prod.fst).map MapModule.reread := (List.map_map).symm
    _ = s.customModules.map MapModule.reread := by rw [List.zipIdx_map_fst]

theorem ids_eq (h : draft.Records s) (hi : s.Identified) : draft.modules.map (·.id) = s.customIds := by
  rw [h.modules_eq hi, List.map_map]
  rfl

theorem enabledIds_eq (h : draft.Records s) (hi : s.Identified) : draft.enabledIds = s.reloadedIds := by
  rw [Draft.enabledIds, h.enabledModules, h.modules_eq hi, h.customModules, List.zip_map', List.filter_map,
    List.map_map]
  rfl

theorem overrides_eq (h : draft.Records s) (hi : s.Identified) : draft.overrides = s.symbols := by
  refine Table.ext_entries ?_
  have hentries : (draft.symbols.entries.map fun x => (x.1, overrideOf x.1 x.2)) =
      s.symbols.entries := by
    rw [h.symbols, List.map_map]
    conv_rhs => rw [← List.map_id s.symbols.entries]
    refine List.map_congr_left fun x hx => ?_
    exact congrArg (Prod.mk x.1) (overrideOf_entry (hi.symbols x.1 x.2 hx))
  change (Table.ofList (draft.symbols.entries.map fun x => (x.1, overrideOf x.1 x.2))).entries = _
  rw [hentries, Table.entries_ofList s.symbols.nodup]

theorem settings_reread (h : draft.Records s) (hi : s.Identified) : draft.settings = .ok s.reread := by
  have hscalars : draft.scalars = fun field => some (field.kind.loaded (s.get field)) :=
    funext h.scalars
  have hids : firstRepeated? [] s.customIds = none := firstRepeated?_eq_none hi.ids (by simp)
  unfold Draft.settings Draft.themed
  rw [hscalars, Settings.revise_loaded, h.theme, h.ids_eq hi, h.modules_eq hi, h.enabledIds_eq hi,
    h.overrides_eq hi]
  simp only [Except.mapError, Bind.bind, Except.bind, pure, Except.pure, hids]
  rfl

theorem settings_eq (h : draft.Records s) (hs : s.Typed) (hr : s.Recorded) :
    draft.settings = .ok s.reloaded := by
  rw [h.settings_reread hr.identified, Settings.reread_eq hs hr]

end Draft.Records

end SettingsFile

theorem FieldKind.Holds.holds_loaded {kind : FieldKind} {v : Value} (h : kind.Holds v) :
    kind.Holds (kind.loaded v) := by
  cases kind with
  | number =>
    cases v with
    | int i =>
      obtain ⟨x, hx⟩ := h
      intro hnan
      have hi := Binary64.toInt?_ofInt hx
      rw [hnan] at hi
      cases hi
    | float => exact h
    | _ => exact h.elim
  | _ => exact h

namespace Settings

variable {s : Settings}

theorem enabledIds_reloaded (s : Settings) : s.reloaded.enabledIds = s.reloadedIds := by
  rw [enabledIds, reloaded, List.filterMap_map]
  exact List.filterMap_some

theorem Typed.reloaded (hs : s.Typed) (hr : s.Recorded) : s.reloaded.Typed where
  scalars field := by
    rw [get_reloaded]
    exact (hs.scalars field).holds_loaded
  enabled := ⟨s.reloadedIds, nodup_reloadedIds hs hr, rfl⟩

theorem isEnabled_reread (hs : s.Shaped) : s.reread.isEnabled = s.isEnabled := by
  funext id
  rw [Bool.eq_iff_iff, hs.isEnabled_eq, decide_eq_true_iff, ← mem_reloadedIds hs, isEnabled_iff]
  change .text id ∈ Value.distinct (s.reloadedIds.map .text) ↔ _
  rw [Value.mem_distinct_text]
  simp

theorem isEnabled_reloaded (hs : s.Typed) (hr : s.Recorded) : s.reloaded.isEnabled = s.isEnabled := by
  rw [← reread_eq hs hr, isEnabled_reread hs.shaped]

theorem otherIds_reloaded (s : Settings) : s.reloaded.otherIds = s.otherIds := by
  have hcustoms : (((s.customModules.filter fun m => s.isEnabled m.id).map (·.id)).filter
      (· ∉ s.customIds)) = [] := by
    refine List.filter_eq_nil_iff.2 fun id hin => ?_
    simpa using (mem_customs.1 hin).1
  have hothers : s.otherIds.filter (· ∉ s.customIds) = s.otherIds := by
    rw [otherIds, List.filter_filter]
    simp
  rw [otherIds, enabledIds_reloaded]
  change s.reloadedIds.filter (· ∉ s.customIds) = s.otherIds
  rw [reloadedIds, List.filter_append, hcustoms, hothers, List.append_nil]

end Settings

namespace Layout

variable {s : Settings}

theorem joinedCode_reread (hs : s.Shaped) :
    MapModule.joinedCode (enabledModules s.reread) = MapModule.joinedCode (enabledModules s) := by
  have hcustoms : ((s.customModules.map MapModule.reread).filter fun m => s.isEnabled m.id).map (·.code) =
      (s.customModules.filter fun m => s.isEnabled m.id).map (·.code) := by
    rw [List.filter_map, List.map_map]
    rfl
  unfold MapModule.joinedCode enabledModules MapModule.enabled
  rw [Settings.isEnabled_reread hs, List.filter_append, List.map_append, List.filter_append, List.map_append]
  exact congrArg (fun codes => String.intercalate "\n\n" (_ ++ codes)) hcustoms

/-- Nothing that a layout shows is lost. -/
theorem visible_reread (hs : s.Shaped) : visible s.reread = visible s := by
  have hplain (field : Field) : (s.reloaded.get field).plain = (s.get field).plain := by
    rw [Settings.get_reloaded]
    exact (hs.scalars field).plain_loaded
  have hlogo : s.reread.logoWidth.plain = s.logoWidth.plain := hplain .logoWidth
  have hlabel : s.reread.stationLabelSize.plain = s.stationLabelSize.plain := hplain .stationLabelSize
  apply Visible.ext
  case scale => exact hplain .scale
  case rotation => exact hplain .rotation
  case overlap => exact hplain .overlap
  case scaleBar => exact hplain .scaleBarLength
  case headerX => exact hplain .headerX
  case headerY => exact hplain .headerY
  case legendWidth => exact hplain .legendWidth
  case fontSize => exact hplain .caveNameFontSize
  case border => exact hplain .borderThickness
  case logo =>
    simp only [visible, hlogo]
    rfl
  case stationLabels =>
    simp only [visible, hlabel]
    rfl
  case code =>
    simp only [visible, joinedCode_reread hs]
  all_goals rfl

theorem pasted_texts (hs : s.Shaped) : ∀ field ∈ pastedFields, ∃ t, s.get field = .text t := by
  intro field hin
  have hkind : field.kind = .text := by
    revert hin
    cases field <;> decide
  have htakes := hs.scalars field
  rw [hkind] at htakes
  exact htakes

theorem writable_iff_of_shaped (hs : s.Shaped) : Writable s ↔ s.legendColumns.isWritable :=
  writable_iff_columns fun field hne => (hs.scalars field).isWritable (by cases field <;> simp_all [Field.kind])

theorem writable_reread_iff (hs : s.Shaped) : Writable s.reread ↔ Writable s := by
  rw [writable_iff_of_shaped hs]
  refine writable_iff_columns fun field hne => ?_
  have hloaded : s.reread.get field = field.kind.loaded (s.get field) := by cases field <;> rfl
  rw [hloaded]
  exact (hs.scalars field).isWritable_loaded (by cases field <;> simp_all [Field.kind])

/-- The layout is the same, or fails in the same way. -/
theorem generate_reread (hs : s.Shaped) : (generate s.reread).result = (generate s).result := by
  have hpasted : ∀ field ∈ pastedFields, ∃ t, s.reread.get field = .text t := by
    simp only [pastedFields, List.forall_mem_cons, List.not_mem_nil, false_imp_iff, implies_true, and_true]
    have h := pasted_texts hs
    exact ⟨h .logoPath (by decide), h .exploTitle (by decide), h .exploTeam (by decide), h .caveName (by decide),
      h .comment (by decide), h .topoTeam (by decide), h .cartoTeam (by decide)⟩
  by_cases hw : Writable s
  · rw [generate_eq_visible (pasted_texts hs) hw, generate_eq_visible hpasted ((writable_reread_iff hs).2 hw),
      visible_reread hs]
  · rw [generate_of_not_writable (pasted_texts hs) hw,
      generate_of_not_writable hpasted (mt (writable_reread_iff hs).1 hw)]

theorem generate_reloaded (hs : s.Typed) (hr : s.Recorded) :
    (generate s.reloaded).result = (generate s).result := by
  rw [← Settings.reread_eq hs hr]
  exact generate_reread hs.shaped

theorem generate_ok_of_shaped (hs : s.Shaped) (hc : s.legendColumns.isWritable) :
    ∃ text, (generate s).result = .ok text :=
  ⟨_, generate_eq_visible (pasted_texts hs) ((writable_iff_of_shaped hs).2 hc)⟩

end Layout

/-- The same document but for integers that have become equal floating-point numbers. -/
inductive Value.Widened : Value → Value → Prop
  | same (v : Value) : Widened v v
  | number {i : Int} {x : Binary64} (h : x.equalsInt i) : Widened (.int i) (.float x)
  | entry {key v w : Value} {front back : List (Value × Value)} (h : Widened v w)
      (hrest : Widened (.map front) (.map back)) : Widened (.map ((key, v) :: front)) (.map ((key, w) :: back))

namespace Value.Widened

theorem entries {α : Type} {items : List α} {key v w : α → Value} {front back : List (Value × Value)}
    (h : ∀ a ∈ items, Widened (v a) (w a)) (hrest : Widened (.map front) (.map back)) :
    Widened (.map (items.map (fun a => (key a, v a)) ++ front))
      (.map (items.map (fun a => (key a, w a)) ++ back)) := by
  induction items with
  | nil => exact hrest
  | cons a rest ih =>
    exact .entry (h a List.mem_cons_self) (ih fun b hb => h b (List.mem_cons_of_mem _ hb))

theorem loaded {kind : FieldKind} {v : Value} (h : kind.Holds v) : Widened v (kind.loaded v) := by
  cases kind with
  | number =>
    cases v with
    | int i =>
      obtain ⟨x, hx⟩ := h
      exact .number (by simp [Binary64.equalsInt, Binary64.toInt?_ofInt hx])
    | float => exact .same _
    | _ => exact h.elim
  | _ => exact .same _

end Value.Widened

namespace SettingsFile

variable {s : Settings}

theorem sectionDocument_reloaded (hs : s.Typed) (part : Section) :
    (sectionDocument s part).Widened (sectionDocument s.reloaded part) := by
  have hfield : ∀ field ∈ part.fields, (s.get field).Widened (s.reloaded.get field) := by
    intro field _
    rw [Settings.get_reloaded]
    exact .loaded (hs.scalars field)
  have h : (Value.map (part.fields.map (fun f => (.text f.key, s.get f)) ++ [])).Widened
      (.map (part.fields.map (fun f => (.text f.key, s.reloaded.get f)) ++ [])) :=
    .entries hfield (.same _)
  rwa [List.append_nil, List.append_nil] at h

theorem modulesDocument_reloaded (hs : s.Typed) (hr : s.Recorded) :
    modulesDocument s.reloaded = modulesDocument s := by
  unfold modulesDocument
  dsimp only
  rw [otherIds_eq (hs.reloaded hr).shaped, otherIds_eq hs.shaped, Settings.otherIds_reloaded,
    Settings.isEnabled_reloaded hs hr]
  rfl

theorem sources_eq_nil (hu : ∀ u ∈ s.uploads, u.kind ≠ .source ∧ u.kind ≠ .drawing) :
    (s.uploads.filter fun u => u.kind = .source ∨ u.kind = .drawing) = [] := by
  refine List.filter_eq_nil_iff.2 fun u hin => ?_
  simp [hu u hin]

theorem document_reloaded (hs : s.Typed) (hr : s.Recorded)
    (hu : ∀ u ∈ s.uploads, u.kind ≠ .source ∧ u.kind ≠ .drawing) (directory : List String)
    (base : Option Path) :
    (document directory base s).Widened (document directory base s.reloaded) := by
  unfold document
  rw [modulesDocument_reloaded hs hr, sources_eq_nil hu]
  exact .entry (.same _) (.entries (fun part _ => sectionDocument_reloaded hs part) (.same _))

/-- Settings without source files are loaded from their document as they were, and have the same layout if the
number of columns can be written; otherwise neither has any. -/
theorem reload_document (hs : s.Typed) (hr : s.Recorded)
    (hu : ∀ u ∈ s.uploads, u.kind ≠ .source ∧ u.kind ≠ .drawing) (directory : List String)
    (base : Option Path) (ha : ∃ draft, checkDocument (document directory base s) = .ok draft) :
    ∃ draft t, checkDocument (document directory base s) = .ok draft ∧
      (∀ tree place ids, (draft.build tree place ids).result = .ok t) ∧
      (∀ field, (s.get field).equals (t.get field)) ∧
      t.customModules = s.customModules ∧ t.symbols = s.symbols ∧
      t.enabledModules.Perm s.enabledModules ∧ t.uploads = [] ∧
      (Layout.generate t).result = (Layout.generate s).result ∧
      (s.legendColumns.isWritable → ∃ text, (Layout.generate s).result = .ok text) ∧
      (document directory base s).Widened (document directory base t) := by
  obtain ⟨draft, hdraft⟩ := ha
  obtain ⟨hrecords, hsources⟩ := checkDocument_eq hs hdraft
  rw [sources_eq_nil hu, List.map_nil] at hsources
  refine ⟨draft, s.reloaded, hdraft, fun tree place ids => ?_, fun field => ?_, rfl, rfl, ?_, rfl,
    Layout.generate_reloaded hs hr, Layout.generate_ok_of_shaped hs.shaped, document_reloaded hs hr hu directory base⟩
  · rw [Draft.build, hrecords.settings_eq hs hr, hsources]
    rfl
  · rw [Settings.get_reloaded]
    exact (hs.scalars field).equals_loaded
  · rw [hs.enabledModules_eq]
    exact (Settings.reloadedIds_perm hs hr).map _

def decorated : Settings :=
  { Settings.default with
    customModules := [Settings.newModule "custom_1" "Stalagmites" "code metapost" "Points"]
    enabledModules := [.text "custom_1", .text "a_sand_wiki"]
    symbols := .ofList
      [("stalactite", { type := "stalactite", category := .point, color := some "#3e2723" })] }

theorem typed_decorated : decorated.Typed where
  scalars field := by
    cases field with
    | exportTypes => exact ⟨["map"], rfl⟩
    | borderThickness => exact Binary64.noConfusion
    | scale | legendWidth | headerX | headerY | logoWidth | caveNameFontSize | stationLabelSize | rotation
    | overlap | scaleBarLength => exact Value.isExact_int (by decide +kernel)
    | _ => exact ⟨_, rfl⟩
  enabled := ⟨["custom_1", "a_sand_wiki"], by decide, rfl⟩

theorem recorded_decorated : decorated.Recorded where
  ids := by decide
  modules := by
    simp only [decorated, List.forall_mem_cons, List.not_mem_nil, false_imp_iff, implies_true, and_true]
    exact ⟨by decide, by decide, rfl, rfl⟩
  symbols := by
    intro key override hin
    cases hin with
    | head => rfl
    | tail _ h => cases h

theorem reload_document_decorated :
    ∃ draft t, checkDocument (document [] none decorated) = .ok draft ∧
      (∀ tree place ids, (draft.build tree place ids).result = .ok t) ∧
      t.symbols = decorated.symbols ∧ t.enabledModules.Perm [.text "custom_1", .text "a_sand_wiki"] := by
  have haccepted : ∃ draft, checkDocument (document [] none decorated) = .ok draft := by
    have hok : (checkDocument (document [] none decorated)).toOption.isSome := by decide +kernel
    cases h : checkDocument (document [] none decorated) with
    | error => rw [h] at hok; cases hok
    | ok draft => exact ⟨draft, rfl⟩
  obtain ⟨draft, t, hdraft, hbuild, -, -, hsymbols, henabled, -⟩ := reload_document typed_decorated
    recorded_decorated (by simp [decorated, Settings.default]) [] none haccepted
  exact ⟨draft, t, hdraft, hbuild, hsymbols, henabled⟩

end SettingsFile

end CaveMap
