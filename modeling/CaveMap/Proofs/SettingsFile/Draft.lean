import CaveMap.Proofs.Settings.Modules
import CaveMap.Proofs.SettingsFile.Typed
import CaveMap.Proofs.Table
import CaveMap.SettingsFile.Draft

namespace CaveMap

open SettingsFile

namespace Settings

/-- Fields that hold what they are declared to hold, and distinct enabled ids. -/
structure Typed (s : Settings) : Prop where
  scalars : ∀ field : Field, field.kind.Holds (s.get field)
  enabled : ∃ ids : List String, ids.Nodup ∧ s.enabledModules = ids.map .text

/-- Fields that hold what they are declared to hold, no matter if it is a number, and ids that are texts. -/
structure Shaped (s : Settings) : Prop where
  scalars : ∀ field : Field, field.kind.Takes (s.get field)
  enabled : ∃ ids : List String, s.enabledModules = ids.map .text

/-- Custom modules and overrides about which a document says everything. -/
structure Recorded (s : Settings) : Prop where
  ids : (s.customModules.map (·.id)).Nodup
  modules : ∀ m ∈ s.customModules,
    m.id ≠ "" ∧ Text.strip m.displayName = m.displayName ∧ m.category = .drawing ∧ m.isCustom
  symbols : ∀ key override, (key, override) ∈ s.symbols.entries → override.type = key

/-- Custom modules and overrides that go by their own names in a document. -/
structure Identified (s : Settings) : Prop where
  ids : (s.customModules.map (·.id)).Nodup
  filled : ∀ m ∈ s.customModules, m.id ≠ ""
  symbols : ∀ key override, (key, override) ∈ s.symbols.entries → override.type = key

def customIds (s : Settings) : List String := s.customModules.map (·.id)

def enabledIds (s : Settings) : List String := s.enabledModules.filterMap Value.text?

def otherIds (s : Settings) : List String := s.enabledIds.filter (· ∉ s.customIds)

def customEntry (s : Settings) (m : MapModule) : CustomEntry :=
  { id := some m.id, name := m.displayName, code := m.code, description := m.description,
    enabled := s.isEnabled m.id }

variable {s : Settings}

theorem Typed.shaped (h : s.Typed) : s.Shaped where
  scalars field := (h.scalars field).takes
  enabled := by
    obtain ⟨ids, -, he⟩ := h.enabled
    exact ⟨ids, he⟩

theorem Recorded.identified (h : s.Recorded) : s.Identified :=
  ⟨h.ids, fun m hm => (h.modules m hm).1, h.symbols⟩

theorem Shaped.enabledModules_eq (h : s.Shaped) : s.enabledModules = s.enabledIds.map .text := by
  obtain ⟨ids, he⟩ := h.enabled
  rw [enabledIds, he, List.filterMap_map]
  exact congrArg (List.map Value.text) List.filterMap_some.symm

theorem Typed.enabledModules_eq (h : s.Typed) : s.enabledModules = s.enabledIds.map .text :=
  h.shaped.enabledModules_eq

theorem Typed.nodup_enabledIds (h : s.Typed) : s.enabledIds.Nodup := by
  obtain ⟨ids, hn, he⟩ := h.enabled
  rw [enabledIds, he, List.filterMap_map]
  exact (List.filterMap_some (l := ids)).symm ▸ hn

theorem Shaped.isEnabled_eq (h : s.Shaped) (id : String) : s.isEnabled id = decide (id ∈ s.enabledIds) := by
  rw [isEnabled, h.enabledModules_eq, Value.any_equals_texts]

end Settings

def SymbolOverride.entry (override : SymbolOverride) : SymbolEntry :=
  { type := none, category := override.category, visible := override.visible, color := override.color,
    symbolSet := override.symbolSet }

namespace SettingsFile

open Check

variable {s : Settings}

theorem optionalField_optionalText {entries : Entries} {key : String} {text a : Option String}
    {check : Value → Check String} (he : Value.entry? entries key = text.map .text)
    (hc : ∀ t b, check (.text t) = .ok b → b = t)
    (h : optionalField entries key check = .ok a) : a = text := by
  cases text with
  | none =>
    rw [optionalField, fieldOr_absent he] at h
    cases h
    rfl
  | some t =>
    obtain ⟨b, hb, rfl⟩ := (optionalField_eq_ok he (by simp)).1 h
    rw [hc t b hb]

theorem checkSection_eq (hs : s.Shaped) {part : Section} {values : List (Field × Option Value)}
    (h : checkSection part (sectionDocument s part) = .ok values) :
    values = part.fields.map fun field => (field, some (field.kind.loaded (s.get field))) := by
  obtain ⟨entries, hentries, hclosed⟩ := bind_eq_ok.1 h
  cases hentries
  refine gather_map_eq (closed_eq_ok hclosed) fun field hin value hvalue => ?_
  obtain ⟨loaded, hloaded, rfl⟩ := map_eq_ok.1 hvalue
  have hn : (part.fields.map Field.key).Nodup := by cases part <;> decide
  obtain ⟨w, hw, rfl⟩ :=
    (optionalField_eq_ok (entry?_map hn hin) (hs.scalars field).ne_null).1 hloaded
  rw [Field.check_eq (hs.scalars field) hw]

theorem entry?_custom (id name code description enabled : Value) :
    let entries := [entry "id" id, entry "name" name, entry "code" code, entry "description" description,
      entry "enabled" enabled]
    Value.entry? entries "id" = some id ∧ Value.entry? entries "name" = some name ∧
      Value.entry? entries "code" = some code ∧ Value.entry? entries "description" = some description ∧
      Value.entry? entries "enabled" = some enabled := by
  simp [entry?_cons]

theorem checkCustomEntry_eq {m : MapModule} {entry : CustomEntry}
    (h : checkCustomEntry (.map
      [SettingsFile.entry "id" (.text m.id), SettingsFile.entry "name" (.text m.displayName),
        SettingsFile.entry "code" (.text m.code), SettingsFile.entry "description" (.text m.description),
        SettingsFile.entry "enabled" (.bool (s.isEnabled m.id))]) = .ok entry) :
    entry = s.customEntry m := by
  obtain ⟨entries, hentries, hclosed⟩ := bind_eq_ok.1 h
  cases hentries
  obtain ⟨_, enabled, h4, henabled, rfl⟩ := also_eq_ok.1 (closed_eq_ok hclosed)
  obtain ⟨_, description, h3, hdescription, rfl⟩ := also_eq_ok.1 h4
  obtain ⟨_, code, h2, hcode, rfl⟩ := also_eq_ok.1 h3
  obtain ⟨_, name, h1, hname, rfl⟩ := also_eq_ok.1 h2
  obtain ⟨id, hid, rfl⟩ := map_eq_ok.1 h1
  obtain ⟨hi, hn, hc, hd, he⟩ := entry?_custom (.text m.id) (.text m.displayName) (.text m.code)
    (.text m.description) (.bool (s.isEnabled m.id))
  obtain ⟨t, ht, rfl⟩ := (optionalField_eq_ok hi (by simp)).1 hid
  cases ht
  cases checkFilled_text ((requiredField_eq_ok hn).1 hname)
  cases checkFilled_text ((requiredField_eq_ok hc).1 hcode)
  cases (fieldOr_eq_ok hd).1 hdescription
  cases (fieldOr_eq_ok he).1 henabled
  rfl

theorem checkCategory_name {category found : SymbolCategory}
    (h : checkCategory (.text category.name) = .ok found) : found = category := by
  cases category <;> (cases h; rfl)

theorem entry?_symbol (override : SymbolOverride) (key : String) :
    Value.entry? ([SettingsFile.entry "category" (.text override.category.name),
        SettingsFile.entry "visible" (.bool override.visible)] ++ optionalText "color" override.color ++
      optionalText "symbol_set" override.symbolSet) key =
      if key = "category" then some (.text override.category.name)
      else if key = "visible" then some (.bool override.visible)
      else if key = "color" then override.color.map .text
      else if key = "symbol_set" then override.symbolSet.map .text
      else none := by
  cases override.color <;> cases override.symbolSet <;>
    simp only [optionalText, List.cons_append, List.nil_append, List.append_nil, entry?_cons, entry?_nil,
      Option.map_none, Option.map_some, eq_comm (b := key)]
  all_goals grind

theorem checkSymbolEntry_eq {override : SymbolOverride} {entry : SymbolEntry}
    (h : checkSymbolEntry (symbolDocument override) = .ok entry) : entry = override.entry := by
  obtain ⟨entries, hentries, hclosed⟩ := bind_eq_ok.1 h
  cases hentries
  obtain ⟨_, set, h4, hset, rfl⟩ := also_eq_ok.1 (closed_eq_ok hclosed)
  obtain ⟨_, color, h3, hcolor, rfl⟩ := also_eq_ok.1 h4
  obtain ⟨_, visible, h2, hvisible, rfl⟩ := also_eq_ok.1 h3
  obtain ⟨_, category, h1, hcategory, rfl⟩ := also_eq_ok.1 h2
  obtain ⟨type, htype, rfl⟩ := map_eq_ok.1 h1
  have hentry := entry?_symbol override
  have htypeEntry : Value.entry? _ "type" = (none : Option String).map .text := hentry "type"
  cases optionalField_optionalText htypeEntry (by simp [checkText_text]) htype
  cases checkCategory_name ((requiredField_eq_ok (hentry "category")).1 hcategory)
  cases (fieldOr_eq_ok (hentry "visible")).1 hvisible
  cases optionalField_optionalText (hentry "color") (fun t b hb => checkColor_text hb) hcolor
  cases optionalField_optionalText (hentry "symbol_set") (fun t b hb => by cases hb; rfl) hset
  rfl

theorem otherIds_eq (hs : s.Shaped) :
    s.enabledModules.filter (fun id => !s.customModules.any fun m => id.equals (.text m.id)) =
      s.otherIds.map .text := by
  rw [hs.enabledModules_eq, List.filter_map, Settings.otherIds]
  congr 2
  funext id
  simp only [Function.comp_apply, Value.equals_text, Settings.customIds, List.mem_map]
  grind

theorem checkModules_eq (hs : s.Shaped) {lists : List String × List CustomEntry}
    (h : checkModules (modulesDocument s) = .ok lists) :
    lists = (s.otherIds, s.customModules.map s.customEntry) := by
  obtain ⟨entries, hentries, hclosed⟩ := bind_eq_ok.1 h
  cases hentries
  obtain ⟨_, customs, h1, hcustoms, rfl⟩ := also_eq_ok.1 (closed_eq_ok hclosed)
  obtain ⟨others, hothers, rfl⟩ := map_eq_ok.1 h1
  have ho := (fieldOr_eq_ok (by rw [entry?_cons, if_pos rfl])).1 hothers
  have hc := (fieldOr_eq_ok (by rw [entry?_cons, if_neg (by decide), entry?_cons, if_pos rfl])).1 hcustoms
  rw [otherIds_eq hs] at ho
  rw [checkTexts_eq ho, checkItems_map hc fun m _ entry hentry => checkCustomEntry_eq hentry]

theorem checkSymbols_eq {table : Table SymbolEntry}
    (h : checkSymbols (.map (s.symbols.entries.map fun (key, o) =>
      SettingsFile.entry key (symbolDocument o))) = .ok table) :
    table.entries = s.symbols.entries.map fun (key, o) => (key, o.entry) := by
  obtain ⟨items, hitems, rfl⟩ := map_eq_ok.1 h
  rw [List.map_map] at hitems
  have hall := gather_map_eq (g := fun x : String × SymbolOverride => (x.1, x.2.entry)) hitems
    fun x _ item hitem => by
      obtain ⟨_, entry, h1, hentry, rfl⟩ := also_eq_ok.1 hitem
      obtain ⟨key, hkey, rfl⟩ := map_eq_ok.1 h1
      cases within_eq_ok.1 (within_eq_ok.1 hkey)
      rw [checkSymbolEntry_eq (within_eq_ok.1 hentry)]
  rw [hall, Table.entries_ofList]
  rw [List.map_map]
  exact s.symbols.nodup

/-- What a draft holds when it was read from the document of settings. -/
structure Draft.Records (draft : Draft) (s : Settings) : Prop where
  theme : draft.theme = none
  scalars : ∀ field : Field, draft.scalars field = some (field.kind.loaded (s.get field))
  enabledModules : draft.enabledModules = s.otherIds
  customModules : draft.customModules = s.customModules.map s.customEntry
  symbols : draft.symbols.entries = s.symbols.entries.map fun (key, o) => (key, o.entry)

theorem find?_map_pair {β : Type} {fields : List Field} {value : Field → β} {field : Field}
    (h : field ∈ fields) :
    (fields.map fun f => (f, value f)).find? (fun entry => entry.1 = field) = some (field, value field) := by
  induction fields with
  | nil => simp at h
  | cons first rest ih =>
    rw [List.map_cons, List.find?_cons]
    by_cases he : first = field
    · simp [he]
    · simp only [he, decide_false]
      exact ih ((List.mem_cons.1 h).resolve_left (Ne.symm he))

theorem givenValue_sections (value : Field → Option Value) (field : Field) :
    givenValue (Section.all.map fun part => part.fields.map fun f => (f, value f)) field = value field := by
  have hflat : (Section.all.map fun part => part.fields.map fun f => (f, value f)).flatten =
      Field.all.map fun f => (f, value f) := by
    rw [Field.all, List.map_flatMap, List.flatMap_def]
  rw [givenValue, hflat, find?_map_pair field.mem_all]
  rfl

theorem checkSections_eq (hs : s.Shaped) {entries : Entries}
    (he : ∀ part : Section, Value.entry? entries part.key = some (sectionDocument s part))
    {sections : List (List (Field × Option Value))} (h : checkSections entries = .ok sections) :
    sections = Section.all.map fun part =>
      part.fields.map fun field => (field, some (field.kind.loaded (s.get field))) :=
  gather_map_eq h fun part _ _ hvalues => checkSection_eq hs ((fieldOr_eq_ok (he part)).1 hvalues)

theorem entry?_document (schema modules symbols sources : Value) (sections : Section → Value) :
    let entries := [entry "schema" schema] ++ Section.all.map (fun part => entry part.key (sections part)) ++
      [entry "modules" modules, entry "symbols" symbols, entry "sources" sources]
    Value.entry? entries "theme" = none ∧ (∀ part : Section, Value.entry? entries part.key =
      some (sections part)) ∧ Value.entry? entries "modules" = some modules ∧
      Value.entry? entries "symbols" = some symbols ∧ Value.entry? entries "sources" = some sources := by
  simp only [Section.all, List.map_cons, List.map_nil, List.cons_append, List.nil_append, entry?_cons,
    entry?_nil, Section.key, String.reduceEq, if_true, if_false, true_and, and_true]
  intro part
  cases part <;> rfl

/-- An accepted document of settings records them, and lists the sources that were written. -/
theorem checkDocument_records (hs : s.Shaped) {directory : List String} {base : Option Path} {draft : Draft}
    (h : checkDocument (document directory base s) = .ok draft) :
    draft.Records s ∧ draft.sources = (s.uploads.filter fun u =>
      u.kind = .source ∨ u.kind = .drawing).map (sourceText directory base) := by
  obtain ⟨entries, hentries, h1⟩ := bind_eq_ok.1 h
  obtain ⟨found, hparts, hfound⟩ := bind_eq_ok.1 h1
  have hdraft : found = draft := by
    split at hfound <;> cases hfound
    rfl
  subst hdraft
  cases hentries
  obtain ⟨_, sources, h6, hsources, rfl⟩ := also_eq_ok.1 (closed_eq_ok hparts)
  obtain ⟨_, symbols, h5, hsymbols, rfl⟩ := also_eq_ok.1 h6
  obtain ⟨_, modules, h4, hmodules, rfl⟩ := also_eq_ok.1 h5
  obtain ⟨_, sections, h3, hsections, rfl⟩ := also_eq_ok.1 h4
  obtain ⟨_, theme, h2, htheme, rfl⟩ := also_eq_ok.1 h3
  obtain ⟨_, -, rfl⟩ := map_eq_ok.1 h2
  obtain ⟨hno, hpart, hmod, hsym, hsrc⟩ := entry?_document (.text version) (modulesDocument s)
    (.map (s.symbols.entries.map fun (key, o) => entry key (symbolDocument o)))
    (.list ((s.uploads.filter fun u => u.kind = .source ∨ u.kind = .drawing).map fun u =>
      .text (sourceText directory base u))) (sectionDocument s)
  obtain rfl : none = theme := Except.ok.inj ((fieldOr_absent hno).symm.trans htheme)
  cases checkModules_eq hs ((fieldOr_eq_ok hmod).1 hmodules)
  rw [checkSections_eq hs hpart hsections]
  have hsource := (fieldOr_eq_ok hsrc).1 hsources
  refine ⟨⟨rfl, givenValue_sections _, rfl, rfl, checkSymbols_eq ((fieldOr_eq_ok hsym).1 hsymbols)⟩, ?_⟩
  refine checkTexts_eq ?_
  rw [List.map_map]
  exact hsource

theorem checkDocument_eq (hs : s.Typed) {directory : List String} {base : Option Path} {draft : Draft}
    (h : checkDocument (document directory base s) = .ok draft) :
    draft.Records s ∧ draft.sources = (s.uploads.filter fun u =>
      u.kind = .source ∨ u.kind = .drawing).map (sourceText directory base) :=
  checkDocument_records hs.shaped h

end SettingsFile

end CaveMap
