import CaveMap.Proofs.SettingsFile.Colors
import CaveMap.Proofs.SettingsFile.Draft

namespace CaveMap

open SettingsFile

namespace SettingsFile

open Check

variable {α : Type} {s : Settings}

theorem checkItems_isOk_iff {check : Value → Check α} {items : List Value} :
    (∃ values, checkItems check (.list items) = .ok values) ↔ ∀ item ∈ items, ∃ a, check item = .ok a := by
  simp only [checkItems_ok_iff, gather_isOk_iff]

theorem checkTexts_ok (texts : List String) : checkItems checkText (.list (texts.map .text)) = .ok texts := by
  rw [checkItems_ok_iff, gather_eq_ok, List.map_map]
  rfl

theorem checkSection_document (hs : s.Typed) {part : Section} {scalars : Field → Option Value} :
    SectionGives part (sectionDocument s part) scalars ↔
      ∀ field ∈ part.fields, ∃ w, field.check (s.get field) = .ok w ∧ scalars field = some w := by
  have hn : (part.fields.map Field.key).Nodup := by cases part <;> decide
  have hentry (field : Field) (hin : field ∈ part.fields) :
      optionalField (part.fields.map fun f => entry f.key (s.get f)) field.key field.check =
        .ok (scalars field) ↔ ∃ w, field.check (s.get field) = .ok w ∧ scalars field = some w := by
    rw [optionalField_eq_ok (entry?_map hn hin) (hs.scalars field).takes.ne_null]
    simp only [eq_comm (a := some _)]
  constructor
  · rintro ⟨entries, he, -, h⟩ field hin
    cases he
    exact (hentry field hin).1 (h field hin)
  · intro h
    refine ⟨_, rfl, knownKeys_of_names _ ?_ (List.Subset.refl _), fun field hin => (hentry field hin).2 (h field hin)⟩
    rw [List.map_map, List.map_map]
    rfl

def customEntries (s : Settings) (m : MapModule) : Entries :=
  [entry "id" (.text m.id), entry "name" (.text m.displayName), entry "code" (.text m.code),
    entry "description" (.text m.description), entry "enabled" (.bool (s.isEnabled m.id))]

theorem checkCustomEntry_document {m : MapModule} :
    (∃ custom, checkCustomEntry (.map (customEntries s m)) = .ok custom) ↔
      Text.isBlankText m.displayName = false ∧ Text.isBlankText m.code = false := by
  have hentries : Value.entry? (customEntries s m) "id" = some (.text m.id) ∧
      Value.entry? (customEntries s m) "name" = some (.text m.displayName) ∧
      Value.entry? (customEntries s m) "code" = some (.text m.code) ∧
      Value.entry? (customEntries s m) "description" = some (.text m.description) ∧
      Value.entry? (customEntries s m) "enabled" = some (.bool (s.isEnabled m.id)) :=
    entry?_custom _ _ _ _ _
  obtain ⟨hi, hn, hc, hd, he⟩ := hentries
  have hname (t : String) : requiredField (customEntries s m) "name" (checkFilled "name") = .ok t ↔
      m.displayName = t ∧ Text.isBlankText t = false := by
    rw [requiredField_eq_ok hn, checkFilled_ok_iff, checkText_text, Except.ok.injEq]
  have hcode (t : String) : requiredField (customEntries s m) "code" (checkFilled "code") = .ok t ↔
      m.code = t ∧ Text.isBlankText t = false := by
    rw [requiredField_eq_ok hc, checkFilled_ok_iff, checkText_text, Except.ok.injEq]
  constructor
  · rintro ⟨custom, h⟩
    obtain ⟨entries, hentries, hclosed⟩ := bind_eq_ok.1 h
    cases hentries
    obtain ⟨_, _, h4, -, rfl⟩ := also_eq_ok.1 (closed_eq_ok hclosed)
    obtain ⟨_, _, h3, -, rfl⟩ := also_eq_ok.1 h4
    obtain ⟨_, code, h2, hcode', rfl⟩ := also_eq_ok.1 h3
    obtain ⟨_, name, -, hname', rfl⟩ := also_eq_ok.1 h2
    obtain ⟨rfl, hfilled⟩ := (hname name).1 hname'
    obtain ⟨rfl, hfilled'⟩ := (hcode code).1 hcode'
    exact ⟨hfilled, hfilled'⟩
  · rintro ⟨hfilled, hfilled'⟩
    refine ⟨s.customEntry m, bind_eq_ok.2 ⟨_, rfl, closed_ok_iff.2
      ⟨knownKeys_of_names _ rfl (List.Subset.refl _), ?_⟩⟩⟩
    have hid : optionalField (customEntries s m) "id" checkText = .ok (some m.id) :=
      (optionalField_eq_ok hi (by simp)).2 ⟨m.id, rfl, rfl⟩
    have hdescription : fieldOr (customEntries s m) "description" Command.defaultDescription checkText =
        .ok m.description := (fieldOr_eq_ok hd).2 rfl
    have henabled : fieldOr (customEntries s m) "enabled" true checkFlag = .ok (s.isEnabled m.id) :=
      (fieldOr_eq_ok he).2 rfl
    rw [hid, (hname _).2 ⟨rfl, hfilled⟩, (hcode _).2 ⟨rfl, hfilled'⟩, hdescription, henabled]
    rfl

def symbolEntries (override : SymbolOverride) : Entries :=
  [entry "category" (.text override.category.name), entry "visible" (.bool override.visible)] ++
    optionalText "color" override.color ++ optionalText "symbol_set" override.symbolSet

theorem optionalField_text {entries : Entries} {key : String} {check : Value → Check String} {text : Option String}
    (he : Value.entry? entries key = text.map .text) (hc : ∀ t, text = some t → check (.text t) = .ok t) :
    optionalField entries key check = .ok text := by
  cases text with
  | none => exact fieldOr_absent he
  | some t => exact (optionalField_eq_ok he (by simp)).2 ⟨t, hc t rfl, rfl⟩

theorem knownKeys_optionalText {known : List String} {key : String} (h : key ∈ known) (text : Option String) :
    KnownKeys known (optionalText key text) := by
  cases text with
  | none => exact knownKeys_of_names [] rfl (List.nil_subset known)
  | some t => exact knownKeys_of_names [key] rfl (by simpa using h)

theorem checkSymbolEntry_document {override : SymbolOverride} :
    (∃ symbol, checkSymbolEntry (symbolDocument override) = .ok symbol) ↔
      ∀ t, override.color = some t → isColorText t := by
  constructor
  · rintro ⟨symbol, h⟩ t ht
    refine checkSymbolEntry_color h ?_
    rw [checkSymbolEntry_eq h]
    exact ht
  · intro h
    have hentry : ∀ key, Value.entry? (symbolEntries override) key = _ := entry?_symbol override
    have htype : optionalField (symbolEntries override) "type" checkText = .ok none :=
      optionalField_text (hentry "type") (by simp)
    have hcategory : requiredField (symbolEntries override) "category" checkCategory = .ok override.category := by
      rw [requiredField_eq_ok (hentry "category")]
      cases override.category <;> rfl
    have hvisible : fieldOr (symbolEntries override) "visible" true checkFlag = .ok override.visible :=
      (fieldOr_eq_ok (hentry "visible")).2 rfl
    have hcolor : optionalField (symbolEntries override) "color" checkColor = .ok override.color :=
      optionalField_text (hentry "color") fun t ht => checkColor_ok_iff.2 ⟨rfl, h t ht⟩
    have hset : optionalField (symbolEntries override) "symbol_set" checkText = .ok override.symbolSet :=
      optionalField_text (hentry "symbol_set") fun t _ => rfl
    have hkeys : KnownKeys ["type", "category", "visible", "color", "symbol_set"] (symbolEntries override) :=
      ((knownKeys_of_names ["category", "visible"] rfl (by simp)).append (knownKeys_optionalText (by simp) _)).append
        (knownKeys_optionalText (by simp) _)
    refine ⟨override.entry, bind_eq_ok.2 ⟨symbolEntries override, rfl, closed_ok_iff.2 ⟨hkeys, ?_⟩⟩⟩
    rw [htype, hcategory, hvisible, hcolor, hset]
    rfl

theorem checkSymbolItem_document {key : String} {override : SymbolOverride} :
    (∃ item, checkSymbolItem (.text key) (symbolDocument override) = .ok item) ↔
      ∀ t, override.color = some t → isColorText t := by
  rw [← checkSymbolEntry_document]
  constructor
  · rintro ⟨item, h⟩
    obtain ⟨_, symbol, -, hsymbol, -⟩ := also_eq_ok.1 h
    exact ⟨symbol, within_eq_ok.1 hsymbol⟩
  · rintro ⟨symbol, h⟩
    exact ⟨(key, symbol), also_eq_ok.2 ⟨Prod.mk key, symbol, rfl, within_eq_ok.2 h, rfl⟩⟩

theorem checkSymbols_document {symbols : SymbolTable} :
    (∃ table, checkSymbols (.map (symbols.entries.map fun (key, o) => entry key (symbolDocument o))) = .ok table) ↔
      ColoredOverrides symbols := by
  have hall : (∃ items, Check.gather (symbols.entries.map fun x =>
      checkSymbolItem (.text x.1) (symbolDocument x.2)) = .ok items) ↔ ColoredOverrides symbols := by
    rw [gather_isOk_iff]
    constructor
    · intro h key override hin
      exact checkSymbolItem_document.1 (h (key, override) hin)
    · intro h x hin
      exact checkSymbolItem_document.2 (h x.1 x.2 hin)
  rw [← hall]
  constructor
  · rintro ⟨table, h⟩
    obtain ⟨items, hitems, -⟩ := map_eq_ok.1 h
    rw [List.map_map] at hitems
    exact ⟨items, hitems⟩
  · rintro ⟨items, hitems⟩
    refine ⟨.ofList items, map_eq_ok.2 ⟨items, ?_, rfl⟩⟩
    rw [List.map_map]
    exact hitems

theorem entryOr_cons (key k : String) (value absent : Value) (rest : Entries) :
    entryOr (entry k value :: rest) key absent = if k = key then value else entryOr rest key absent := by
  unfold entryOr
  rw [entry?_cons]
  split <;> rfl

theorem checkModules_document (hs : s.Typed) :
    (∃ lists, checkModules (modulesDocument s) = .ok lists) ↔
      ∀ m ∈ s.customModules, Text.isBlankText m.displayName = false ∧ Text.isBlankText m.code = false := by
  have hcustoms : (∃ customs, checkItems checkCustomEntry
      (.list (s.customModules.map fun m => .map (customEntries s m))) = .ok customs) ↔
        ∀ m ∈ s.customModules, Text.isBlankText m.displayName = false ∧ Text.isBlankText m.code = false := by
    simp only [checkItems_isOk_iff, List.forall_mem_map, checkCustomEntry_document]
  have hdocument : modulesDocument s = .map [entry "enabled" (.list (s.otherIds.map .text)),
      entry "custom" (.list (s.customModules.map fun m => .map (customEntries s m)))] := by
    unfold modulesDocument
    dsimp only
    rw [otherIds_eq hs.shaped]
    rfl
  rw [← hcustoms, hdocument]
  constructor
  · rintro ⟨⟨enabled, customs⟩, h⟩
    obtain ⟨entries, he, -, -, hc⟩ := checkModules_ok_iff.1 h
    cases he
    rw [entryOr_cons, if_neg (by decide), entryOr_cons, if_pos rfl] at hc
    exact ⟨customs, hc⟩
  · rintro ⟨customs, hc⟩
    refine ⟨(s.otherIds, customs), checkModules_ok_iff.2 ⟨_, rfl, ?_, ?_, ?_⟩⟩
    · exact knownKeys_of_names ["enabled", "custom"] rfl (List.Subset.refl _)
    · rw [entryOr_cons, if_pos rfl]
      exact checkTexts_ok s.otherIds
    · rw [entryOr_cons, if_neg (by decide), entryOr_cons, if_pos rfl]
      exact hc

end SettingsFile

namespace Settings

/-- What it takes for the document of settings to be accepted. -/
structure Admissible (s : Settings) : Prop where
  fields : ∀ field : Field, ∃ w, field.check (s.get field) = .ok w
  modules : ∀ m ∈ s.customModules, Text.isBlankText m.displayName = false ∧ Text.isBlankText m.code = false
  keys : "" ∉ s.symbols.keys
  overrides : ColoredOverrides s.symbols

end Settings

namespace SettingsFile

variable {s : Settings}

theorem symbolFault?_entry (key : String) (override : SymbolOverride) :
    symbolFault? key override.entry = none ↔ key ≠ "" := by
  by_cases h : key = "" <;> simp [symbolFault?, SymbolOverride.entry, h]

theorem symbolFaults_iff {table : Table SymbolEntry}
    (h : table.entries = s.symbols.entries.map fun (key, o) => (key, o.entry)) :
    (∀ key entry, (key, entry) ∈ table.entries → symbolFault? key entry = none) ↔ "" ∉ s.symbols.keys := by
  rw [h]
  constructor
  · intro hall hin
    obtain ⟨x, hx, hkey⟩ := List.mem_map.1 hin
    exact (symbolFault?_entry x.1 x.2).1 (hall x.1 x.2.entry (List.mem_map_of_mem hx)) hkey
  · intro hne key symbol hin
    obtain ⟨x, hx, he⟩ := List.mem_map.1 hin
    cases he
    exact (symbolFault?_entry x.1 x.2).2 fun hkey => hne (hkey ▸ List.mem_map_of_mem hx)

theorem knownKeys_document (sections : Section → Value) (modules symbols sources : Value) :
    let entries := [entry "schema" (.text version)] ++ Section.all.map (fun part => entry part.key (sections part)) ++
      [entry "modules" modules, entry "symbols" symbols, entry "sources" sources]
    fieldOr entries (versionKey entries) () checkVersion = .ok () ∧ KnownKeys (documentKeys entries) entries := by
  intro entries
  have hentry : Value.entry? entries "schema" = some (.text version) := by
    change Value.entry? (entry "schema" _ :: _) _ = _
    rw [entry?_cons, if_pos rfl]
  have hversion : versionKey entries = "schema" := by
    rw [versionKey, hentry]
    rfl
  rw [documentKeys, hversion]
  refine ⟨(fieldOr_eq_ok hentry).2 rfl, ?_⟩
  exact knownKeys_of_names (["schema"] ++ Section.all.map Section.key ++ ["modules", "symbols", "sources"]) rfl
    (by decide)

/-- Whether the document of settings is accepted depends neither on where it is saved nor on uploads. -/
theorem accepted_document_iff (hs : s.Typed) (directory : List String) (base : Option Path) :
    (∃ draft, checkDocument (document directory base s) = .ok draft) ↔ s.Admissible := by
  let names := (s.uploads.filter fun u => u.kind = .source ∨ u.kind = .drawing).map (sourceText directory base)
  let symbols : Value := .map (s.symbols.entries.map fun (key, o) => entry key (symbolDocument o))
  let sources : Value := .list ((s.uploads.filter fun u => u.kind = .source ∨ u.kind = .drawing).map fun u =>
    .text (sourceText directory base u))
  let entries := [entry "schema" (.text version)] ++
    Section.all.map (fun part => entry part.key (sectionDocument s part)) ++
      [entry "modules" (modulesDocument s), entry "symbols" symbols, entry "sources" sources]
  have hentries : Value.entry? entries "theme" = none ∧
      (∀ part : Section, entryOr entries part.key (.map []) = sectionDocument s part) ∧
      entryOr entries "modules" (.map []) = modulesDocument s ∧
      entryOr entries "symbols" (.map []) = symbols ∧ entryOr entries "sources" (.list []) = sources := by
    obtain ⟨htheme, hpart, hmod, hsym, hsrc⟩ := entry?_document (.text version) (modulesDocument s) symbols sources
      (sectionDocument s)
    refine ⟨htheme, fun part => ?_, ?_, ?_, ?_⟩
    · rw [entryOr, hpart part, Option.getD_some]
    · rw [entryOr, hmod, Option.getD_some]
    · rw [entryOr, hsym, Option.getD_some]
    · rw [entryOr, hsrc, Option.getD_some]
  obtain ⟨htheme, hpart, hmodules, hsymbols, hsources⟩ := hentries
  rw [show document directory base s = .map entries from rfl]
  constructor
  · rintro ⟨draft, hdraft⟩
    obtain ⟨_, he, h⟩ := checkDocument_ok_iff.1 hdraft
    cases he
    have hrecords := (checkDocument_eq hs hdraft).1
    refine ⟨fun field => ?_, ?_, (symbolFaults_iff hrecords.symbols).1 h.entries, ?_⟩
    · obtain ⟨part, hin⟩ := field.mem_some_section
      obtain ⟨w, hw, -⟩ := (checkSection_document hs).1 (hpart part ▸ h.sections part) field hin
      exact ⟨w, hw⟩
    · exact (checkModules_document hs).1 ⟨_, hmodules ▸ h.modules⟩
    · exact checkSymbols_document.1 ⟨_, hsymbols ▸ h.symbols⟩
  · intro h
    choose scalars hscalars using h.fields
    obtain ⟨lists, hlists⟩ := (checkModules_document hs).2 h.modules
    obtain ⟨table, htable⟩ := checkSymbols_document.2 h.overrides
    let draft : Draft :=
      { theme := none, scalars := fun field => some (scalars field), enabledModules := lists.1
        customModules := lists.2, symbols := table, sources := names }
    have hsource : sources = .list (names.map .text) := by
      simp only [sources, names, List.map_map]
      rfl
    obtain ⟨hversion, hkeys⟩ := knownKeys_document (sectionDocument s) (modulesDocument s) symbols sources
    refine ⟨draft, checkDocument_ok_iff.2 ⟨entries, rfl, ?_⟩⟩
    refine { keys := hkeys, version := ?_, theme := ?_, sections := fun part => ?_, modules := ?_, symbols := ?_,
             sources := ?_, entries := (symbolFaults_iff (checkSymbols_eq htable)).2 h.keys }
    · exact hversion
    · exact fieldOr_absent htheme
    · rw [hpart]
      exact (checkSection_document hs).2 fun field _ => ⟨scalars field, hscalars field, rfl⟩
    · rw [hmodules]
      exact hlists
    · rw [hsymbols]
      exact htable
    · rw [hsources, hsource]
      exact checkTexts_ok names

end SettingsFile

end CaveMap
