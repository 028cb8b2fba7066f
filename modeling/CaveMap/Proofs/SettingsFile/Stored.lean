import CaveMap.Proofs.SettingsFile.Saved
import CaveMap.Proofs.Yaml.RoundTrip
import CaveMap.Proofs.Yaml.Scalars

namespace CaveMap

open Yaml (Storable IsKey)

/-- A text whose line ends are not taken for others. -/
def Text.IsKept (s : String) : Prop := '\u0085' ∉ s.toList

instance (s : String) : Decidable (Text.IsKept s) := inferInstanceAs (Decidable (_ ∉ _))

def Value.texts : Value → List String
  | text s => [s]
  | list items => items.filterMap Value.text?
  | _ => []

namespace Settings

/-- The texts that a document holds for settings, the names of its symbols and its sources apart. -/
def texts (s : Settings) : List String :=
  Field.all.flatMap (fun field => (s.get field).texts) ++ s.enabledIds ++
    s.customModules.flatMap (fun m => [m.id, m.displayName, m.code, m.description]) ++
    s.symbols.entries.flatMap fun entry => entry.2.color.toList ++ entry.2.symbolSet.toList

/-- Settings of which a document keeps everything. -/
structure Kept (s : Settings) : Prop where
  texts : ∀ t ∈ s.texts, Text.IsKept t
  columns : s.legendColumns.isWritable
  keys : ∀ key ∈ s.symbols.keys, IsKey key
  paths : ∀ u ∈ SettingsFile.surveyFiles s, ∀ path, u.path = some path → Text.IsKept path

namespace Kept

variable {s : Settings}

theorem field (h : s.Kept) {field : Field} {t : String} (hin : t ∈ (s.get field).texts) : Text.IsKept t := by
  refine h.texts t ?_
  simp only [Settings.texts, List.mem_append, List.mem_flatMap]
  exact .inl (.inl (.inl ⟨field, field.mem_all, hin⟩))

theorem id (h : s.Kept) {id : String} (hin : id ∈ s.enabledIds) : Text.IsKept id := by
  refine h.texts id ?_
  simp only [Settings.texts, List.mem_append]
  exact .inl (.inl (.inr hin))

theorem module (h : s.Kept) {m : MapModule} (hm : m ∈ s.customModules) :
    Text.IsKept m.id ∧ Text.IsKept m.displayName ∧ Text.IsKept m.code ∧ Text.IsKept m.description := by
  have htexts : ∀ t ∈ [m.id, m.displayName, m.code, m.description], Text.IsKept t := by
    intro t hin
    refine h.texts t ?_
    simp only [Settings.texts, List.mem_append, List.mem_flatMap]
    exact .inl (.inr ⟨m, hm, hin⟩)
  simpa only [List.forall_mem_cons, List.not_mem_nil, false_imp_iff, implies_true, and_true] using htexts

theorem override (h : s.Kept) {key : String} {override : SymbolOverride}
    (hin : (key, override) ∈ s.symbols.entries) {t : String}
    (ht : override.color = some t ∨ override.symbolSet = some t) : Text.IsKept t := by
  refine h.texts t ?_
  simp only [Settings.texts, List.mem_append, List.mem_flatMap]
  exact .inr ⟨(key, override), hin, by simpa [Option.mem_toList] using ht⟩

theorem storable (hk : s.Kept) (hs : s.Shaped) (field : Field) (n : Nat) : Storable (n + 1) (s.get field) := by
  have htakes := hs.scalars field
  have htext {t : String} (h : t ∈ (s.get field).texts) := hk.field h
  cases hkind : field.kind with
  | text =>
    rw [hkind] at htakes
    obtain ⟨t, ht⟩ := htakes
    rw [ht] at htext ⊢
    exact .text (htext (List.mem_singleton_self t))
  | flag =>
    rw [hkind] at htakes
    obtain ⟨b, hb⟩ := htakes
    rw [hb]
    exact .bool b
  | number =>
    rw [hkind] at htakes
    revert htakes
    cases s.get field with
    | int i =>
      rintro ⟨x, hx⟩
      exact .int (Binary64.isWritable_of_toInt? hx)
    | float x => exact fun _ => .float x
    | _ => exact False.elim
  | count =>
    rw [hkind] at htakes
    obtain ⟨i, hi⟩ := htakes
    have hcolumns : s.legendColumns = .int i := by
      cases field <;> first | exact hi | cases hkind
    have hwritable := hk.columns
    rw [hcolumns] at hwritable
    rw [hi]
    exact .int hwritable
  | choices =>
    rw [hkind] at htakes
    obtain ⟨names, hnames⟩ := htakes
    rw [hnames] at htext ⊢
    exact .texts names fun name hin =>
      htext (List.mem_filterMap.2 ⟨.text name, List.mem_map_of_mem hin, rfl⟩)

end Kept

end Settings

namespace SettingsFile

variable {tree : FileTree} {p : Path} {s : Settings}

theorem storable_section (hs : s.Shaped) (hk : s.Kept) (part : Section) (n : Nat) :
    Storable (n + 2) (sectionDocument s part) := by
  have hdocument : sectionDocument s part =
      .map (Yaml.textEntries (part.fields.map fun f => (f.key, s.get f))) := by
    rw [sectionDocument, Yaml.textEntries, List.map_map]
    rfl
  have hbrief : ∀ field ∈ Field.all, '\u0085' ∉ field.key.toList ∧ field.key.toList.length ≤ 102 := by decide
  rw [hdocument]
  refine .mapping (part.fields.map Field.key) (by rw [List.map_map]; rfl) (by cases part <;> decide) ?_ ?_
  · refine List.forall_mem_map.2 fun field _ => ?_
    obtain ⟨hkept, hlength⟩ := hbrief field field.mem_all
    exact .of_length hkept hlength
  · exact List.forall_mem_map.2 fun field _ => hk.storable hs field n

theorem storable_modules (hs : s.Shaped) (hk : s.Kept) (n : Nat) : Storable (n + 3) (modulesDocument s) := by
  have henabled : Storable (n + 2) (.list (s.otherIds.map .text)) :=
    .texts _ fun id hin => hk.id (List.mem_of_mem_filter hin)
  have hcustom : Storable (n + 2) (.list (s.customModules.map fun m => .map (Yaml.textEntries
      [("id", .text m.id), ("name", .text m.displayName), ("code", .text m.code),
       ("description", .text m.description), ("enabled", .bool (s.isEnabled m.id))]))) := by
    refine .list (List.forall_mem_map.2 fun m hm => ?_)
    obtain ⟨hid, hname, hcode, hdescription⟩ := hk.module hm
    refine .mapping ["id", "name", "code", "description", "enabled"] rfl (by decide) (by decide) ?_
    simp only [List.forall_mem_cons, List.not_mem_nil, false_imp_iff, implies_true, and_true]
    exact ⟨.text hid, .text hname, .text hcode, .text hdescription, .bool _⟩
  have hdocument : modulesDocument s = .map (Yaml.textEntries [("enabled", .list (s.otherIds.map .text)),
      ("custom", .list (s.customModules.map fun m => .map (Yaml.textEntries
        [("id", .text m.id), ("name", .text m.displayName), ("code", .text m.code),
         ("description", .text m.description), ("enabled", .bool (s.isEnabled m.id))])))]) := by
    unfold modulesDocument
    dsimp only
    rw [otherIds_eq hs]
    rfl
  rw [hdocument]
  refine .mapping ["enabled", "custom"] rfl (by decide) (by decide) ?_
  simp only [List.forall_mem_cons, List.not_mem_nil, false_imp_iff, implies_true, and_true]
  exact ⟨henabled, hcustom⟩

def overrideEntries (override : SymbolOverride) : List (String × Value) :=
  [("category", .text override.category.name), ("visible", .bool override.visible)] ++
    (override.color.map fun t => ("color", .text t)).toList ++
    (override.symbolSet.map fun t => ("symbol_set", .text t)).toList

theorem symbolDocument_eq (override : SymbolOverride) :
    symbolDocument override = .map (Yaml.textEntries (overrideEntries override)) := by
  unfold symbolDocument overrideEntries
  cases override.color <;> cases override.symbolSet <;> rfl

theorem storable_symbol {key : String} {override : SymbolOverride} (hk : s.Kept)
    (hin : (key, override) ∈ s.symbols.entries) (n : Nat) : Storable (n + 1) (symbolDocument override) := by
  have hkeys : ((overrideEntries override).map (·.1)).Sublist
      ["category", "visible", "color", "symbol_set"] := by
    unfold overrideEntries
    cases override.color <;> cases override.symbolSet <;> simp
  have hshort : ∀ key ∈ ["category", "visible", "color", "symbol_set"], Yaml.IsShortKey key := by decide
  have hcategory : Text.IsKept override.category.name := by cases override.category <;> decide
  rw [symbolDocument_eq]
  refine .mapping _ rfl (hkeys.nodup (by decide)) (fun key hkey => hshort key (hkeys.subset hkey)) ?_
  refine List.forall_mem_append.2 ⟨List.forall_mem_append.2 ⟨?_, fun entry hcolor => ?_⟩,
    fun entry hset => ?_⟩
  · simp only [List.forall_mem_cons, List.not_mem_nil, false_imp_iff, implies_true, and_true]
    exact ⟨.text hcategory, .bool _⟩
  · obtain ⟨t, ht, rfl⟩ := Option.map_eq_some_iff.1 (Option.mem_toList.1 hcolor)
    exact .text (hk.override hin (.inl ht))
  · obtain ⟨t, ht, rfl⟩ := Option.map_eq_some_iff.1 (Option.mem_toList.1 hset)
    exact .text (hk.override hin (.inr ht))

theorem storable_symbols (hk : s.Kept) (n : Nat) :
    Storable (n + 2) (.map (s.symbols.entries.map fun (key, o) => entry key (symbolDocument o))) := by
  have hdocument : Value.map (s.symbols.entries.map fun (key, o) => entry key (symbolDocument o)) =
      .map (Yaml.textEntries (s.symbols.entries.map fun x => (x.1, symbolDocument x.2))) := by
    rw [Yaml.textEntries, List.map_map]
    rfl
  rw [hdocument]
  refine .map (by rw [List.map_map]; exact s.symbols.nodup) ?_ ?_
  · exact List.forall_mem_map.2 fun x hin => hk.keys x.1 (List.mem_map_of_mem hin)
  · exact List.forall_mem_map.2 fun x hin => storable_symbol hk hin n

theorem kept_sourceText (hf : Findable tree p s) (hk : s.Kept) {u : Upload} (hu : u ∈ surveyFiles s) :
    Text.IsKept (sourceText tree.working (some (Path.ofPlace (p.parent.place tree.working))) u) := by
  obtain ⟨place, hstored, -⟩ := hf.stored u hu
  rw [sourceText_stored hstored]
  intro hin
  refine hk.paths u hu _ hstored.path ((Path.mem_text_ofPlace (by decide)).2 ?_)
  exact Path.mem_text_between (by decide) hin

def savedEntries (tree : FileTree) (p : Path) (s : Settings) : List (String × Value) :=
  ("schema", .text version) :: Section.all.map (fun part => (part.key, sectionDocument s part)) ++
    [("modules", modulesDocument s),
     ("symbols", .map (s.symbols.entries.map fun (key, o) => entry key (symbolDocument o))),
     ("sources", .list ((surveyFiles s).map fun u =>
       .text (sourceText tree.working (some (Path.ofPlace (p.parent.place tree.working))) u)))]

theorem storable_savedEntries (hs : s.Shaped) (hk : s.Kept) (hf : Findable tree p s) :
    Yaml.StorableDocument (savedEntries tree p s) := by
  have hsources : Storable 3 (.list ((surveyFiles s).map fun u =>
      .text (sourceText tree.working (some (Path.ofPlace (p.parent.place tree.working))) u))) :=
    .list (List.forall_mem_map.2 fun u hu => .text (kept_sourceText hf hk hu))
  have hvalues : ∀ entry ∈ savedEntries tree p s, Storable 3 entry.2 := by
    refine List.forall_mem_append.2 ⟨List.forall_mem_cons.2 ⟨.text (by decide), ?_⟩, ?_⟩
    · exact List.forall_mem_map.2 fun part _ => storable_section hs hk part 1
    · simp only [List.forall_mem_cons, List.not_mem_nil, false_imp_iff, implies_true, and_true]
      exact ⟨storable_modules hs hk 0, storable_symbols hk 1, hsources⟩
  exact .of_short ("schema" :: Section.all.map Section.key ++ ["modules", "symbols", "sources"]) rfl (by decide)
    (by decide) (by decide) hvalues (by decide)

theorem isWritable_savedDocument (hs : s.Shaped) (hk : s.Kept) (hf : Findable tree p s) :
    (savedDocument tree p s).isWritable := (storable_savedEntries hs hk hf).isWritable

/-- The document is read back from the file as it was written. -/
theorem load_savedDocument (hs : s.Shaped) (hk : s.Kept) (hf : Findable tree p s) :
    Yaml.load (Text.unifyNewlines (Yaml.dump (savedDocument tree p s)).toList) =
      .ok (savedDocument tree p s) := by
  have hdocument : savedDocument tree p s = .map (Yaml.textEntries (savedEntries tree p s)) := rfl
  rw [hdocument]
  exact Yaml.load_dump (storable_savedEntries hs hk hf)

/-- What has been saved is loaded again, and its survey files are found from there. -/
theorem load_save (htree : tree.Proper) (hp : tree.Admits p) (hs : s.Shaped) (hi : s.Identified) (hk : s.Kept)
    (hf : Findable tree p s) (ha : ∃ draft, checkDocument (savedDocument tree p s) = .ok draft)
    (ids : Nat → String) :
    (save tree p s).2.result = .ok () ∧
      ∃ t, (load (save tree p s).1 p ids).result = .ok t ∧ Restored s t := by
  obtain ⟨draft, hd⟩ := ha
  obtain ⟨tree', hw, hsave, hyaml⟩ :=
    save_written htree hp (isWritable_savedDocument hs hk hf) (load_savedDocument hs hk hf)
  obtain ⟨t, hbuild, hrestored⟩ := build_found hs hk.columns hi hp hw hf hd ids
  rw [hsave]
  exact ⟨rfl, t, (load_accepted hyaml hd).2 hbuild, hrestored⟩

section Survey

def surveyTree : FileTree :=
  { entries :=
      [(["survey"], .directory), (["survey", "cave.th"], .file (Text.utf8 "survey cave\nendsurvey\n".toList)),
       (["survey", "hall.th2"], .file (Text.utf8 "point 0 0 stalactite\n".toList)), (["maps"], .directory)]
    working := ["maps"] }

def surveyed : Settings :=
  { decorated with
    uploads :=
      [{ id := "1", fileName := "cave.th", kind := .source, content := "survey cave\nendsurvey\n"
         path := some "/survey/cave.th" },
       { id := "2", fileName := "notes.txt", kind := .text, content := "to do\n" },
       { id := "3", fileName := "hall.th2", kind := .drawing, content := "point 0 0 stalactite\n"
         path := some "/survey/hall.th2" }] }

theorem identified_surveyed : surveyed.Identified :=
  ⟨recorded_decorated.ids, recorded_decorated.identified.filled, recorded_decorated.symbols⟩

theorem kept_surveyed : surveyed.Kept where
  texts := by decide +kernel
  columns := by decide
  keys := by
    have hshort : ∀ key ∈ surveyed.symbols.keys, Yaml.IsShortKey key := by decide
    exact fun key hin => (hshort key hin).isKey
  paths := by
    have hpaths : ∀ u ∈ surveyFiles surveyed, ∀ path ∈ u.path, Text.IsKept path := by decide
    exact hpaths

theorem proper_surveyTree : surveyTree.Proper := .of_entries (by decide) (by decide)

theorem admits_surveyTree : surveyTree.Admits (.ofString "drafts/sheet.yaml") where
  isName := ⟨by decide, by decide, by decide⟩
  acceptable := ⟨by decide, by decide⟩
  acceptableTemporary := ⟨by decide, by decide⟩
  short := by decide
  shortWay := by decide
  downward := by decide
  clear := by
    have hfronts : ∀ front ∈ (Path.ofString "drafts/sheet.yaml").parent.names.inits,
        ∀ entry ∈ surveyTree.get? (Path.stepBack (surveyTree.origin 0 ++ front)), entry = .directory := by
      decide
    rintro place ⟨front, hin, rfl⟩ bytes hfile
    cases hfronts front ((List.mem_inits _ _).2 hin) _ hfile
  free := by
    have hfronts : ∀ q ∈ [["maps", "drafts", "sheet.yaml"], ["maps", "drafts", "sheet.yaml.tmp"]],
        surveyTree.get? q ≠ some .directory ∧
          ∀ front ∈ (Path.ofString "drafts/sheet.yaml").parent.names.inits,
            q ≠ Path.stepBack (surveyTree.origin 0 ++ front) := by
      decide
    intro q hq
    obtain ⟨hdirectory, hway⟩ := hfronts q hq
    refine ⟨hdirectory, ?_⟩
    rintro ⟨front, hin, he⟩
    exact hway front ((List.mem_inits _ _).2 hin) he

theorem findable_surveyed : Findable surveyTree (.ofString "drafts/sheet.yaml") surveyed where
  stored := by
    refine List.forall_mem_cons.2 ⟨⟨["survey", "cave.th"], ?_, by decide, by decide⟩,
      List.forall_mem_singleton.2 ⟨["survey", "hall.th2"], ?_, by decide, by decide⟩⟩
    · exact ⟨by simp [Path.IsName], by decide, rfl, by decide, Except.eq_ok (by decide +kernel)⟩
    · exact ⟨by simp [Path.IsName], by decide, rfl, by decide, Except.eq_ok (by decide +kernel)⟩
  covered := by
    unfold Settings.CoversDrawings
    decide +kernel

/-- Saved beside the survey's directory, and loaded again with the two survey files. -/
theorem load_save_surveyed :
    surveyTree.Proper ∧ surveyTree.Admits (.ofString "drafts/sheet.yaml") ∧ surveyed.Shaped ∧
      surveyed.Identified ∧ surveyed.Kept ∧ Findable surveyTree (.ofString "drafts/sheet.yaml") surveyed ∧
      (∃ draft, checkDocument (savedDocument surveyTree (.ofString "drafts/sheet.yaml") surveyed) = .ok draft) ∧
      (save surveyTree (.ofString "drafts/sheet.yaml") surveyed).2.result = .ok () ∧
      ∃ t, (load (save surveyTree (.ofString "drafts/sheet.yaml") surveyed).1 (.ofString "drafts/sheet.yaml")
        fun _ => "").result = .ok t ∧ Restored surveyed t := by
  have hshaped : surveyed.Shaped := ⟨typed_decorated.shaped.scalars, typed_decorated.shaped.enabled⟩
  have haccepted : ∃ draft,
      checkDocument (savedDocument surveyTree (.ofString "drafts/sheet.yaml") surveyed) = .ok draft :=
    Except.exists_ok (by decide +kernel)
  obtain ⟨hsaved, t, hloaded, hrestored⟩ := load_save proper_surveyTree admits_surveyTree hshaped
    identified_surveyed kept_surveyed findable_surveyed haccepted fun _ => ""
  exact ⟨proper_surveyTree, admits_surveyTree, hshaped, identified_surveyed, kept_surveyed, findable_surveyed,
    haccepted, hsaved, t, hloaded, hrestored⟩

end Survey

section Lossy

/-- Settings whose document is accepted, and which are not restored from where they are saved. -/
structure Lossy (s : Settings) : Prop where
  uploads : s.uploads = []
  accepted : ∃ draft, checkDocument (savedDocument surveyTree (.ofString "drafts/sheet.yaml") s) = .ok draft
  lost : ¬ ((save surveyTree (.ofString "drafts/sheet.yaml") s).2.result = .ok () ∧
    ∃ t, (load (save surveyTree (.ofString "drafts/sheet.yaml") s).1 (.ofString "drafts/sheet.yaml")
      fun _ => "").result = .ok t ∧ Restored s t)

/-- The settings that the written document stands for. -/
def recovered (s : Settings) : Option Settings :=
  (checkDocument (savedDocument surveyTree (.ofString "drafts/sheet.yaml") s)).toOption.bind
    (·.settings.toOption)

theorem lossy_of_recovered (hs : s.Shaped) (hk : s.Kept) (hu : s.uploads = [])
    (ha : (checkDocument (savedDocument surveyTree (.ofString "drafts/sheet.yaml") s)).toOption.isSome)
    (h : ∀ t, recovered s = some t → ¬ Restored s t) : Lossy s := by
  refine ⟨hu, Except.exists_ok ha, ?_⟩
  rintro ⟨-, t, ht, hrestored⟩
  have hnone : surveyFiles s = [] := by rw [surveyFiles, hu]; rfl
  have hf : Findable surveyTree (.ofString "drafts/sheet.yaml") s := by
    refine ⟨?_, ?_⟩
    · rw [hnone]
      exact fun _ hin => absurd hin List.not_mem_nil
    · unfold Settings.CoversDrawings
      rw [hu]
      exact fun _ hin => absurd hin List.not_mem_nil
  obtain ⟨draft, hd⟩ := Except.exists_ok ha
  obtain ⟨tree', hw, hsave, hyaml⟩ :=
    save_written proper_surveyTree admits_surveyTree (isWritable_savedDocument hs hk hf)
      (load_savedDocument hs hk hf)
  rw [hsave] at ht
  obtain ⟨start, files, hstart, hfiles, rfl⟩ := Draft.build_eq_ok.1 ((load_accepted hyaml hd).1 ht)
  have hsources : draft.sources = (surveyFiles s).map _ := (checkDocument_records hs hd).2
  rw [hsources, hnone] at hfiles
  cases hfiles
  refine h start ?_ hrestored
  rw [recovered, hd]
  exact congrArg Except.toOption hstart

theorem kept_of_texts (htexts : ∀ t ∈ s.texts, Text.IsKept t) (hcolumns : s.legendColumns = .int 3)
    (hkeys : ∀ key ∈ s.symbols.keys, Yaml.IsShortKey key) (hu : s.uploads = []) : s.Kept where
  texts := htexts
  columns := by
    rw [hcolumns]
    decide
  keys key hin := (hkeys key hin).isKey
  paths u hin := by
    rw [surveyFiles, hu] at hin
    cases hin

def doubled : Settings :=
  { Settings.default with
    customModules := [Settings.newModule "walls" "Walls" "# walls" "",
      Settings.newModule "walls" "Floors" "# floors" ""] }

def unnamed : Settings :=
  { Settings.default with
    customModules := [Settings.newModule "" "Walls" "# walls" "",
      Settings.newModule "custom_walls" "Floors" "# floors" ""] }

def renamed : Settings :=
  { Settings.default with symbols := .ofList [("wall", { type := "border", category := .line })] }

/-- Custom modules need identifiers of their own, and overrides the names of their types. -/
theorem load_save_lossy : Lossy doubled ∧ Lossy unnamed ∧ Lossy renamed := by
  have hscalars : ∀ field : Field, field.kind.Takes (decorated.get field) := typed_decorated.shaped.scalars
  have hdoubled : doubled.Kept := kept_of_texts (by decide +kernel) rfl (by decide) rfl
  have hunnamed : unnamed.Kept := kept_of_texts (by decide +kernel) rfl (by decide) rfl
  have hrenamed : renamed.Kept := kept_of_texts (by decide +kernel) rfl (by decide) rfl
  refine ⟨?_, ?_, ?_⟩
  · refine lossy_of_recovered ⟨hscalars, [], rfl⟩ hdoubled rfl (by decide +kernel) fun t ht _ => ?_
    have hnone : (recovered doubled).isNone := by decide +kernel
    rw [ht] at hnone
    cases hnone
  · refine lossy_of_recovered ⟨hscalars, [], rfl⟩ hunnamed rfl (by decide +kernel) fun t ht _ => ?_
    have hnone : (recovered unnamed).isNone := by decide +kernel
    rw [ht] at hnone
    cases hnone
  · refine lossy_of_recovered ⟨hscalars, [], rfl⟩ hrenamed rfl (by decide +kernel) fun t ht hrestored => ?_
    have hsymbols : (recovered renamed).map (·.symbols.entries) ≠ some renamed.symbols.entries := by
      decide +kernel
    rw [ht, Option.map_some, hrestored.symbols] at hsymbols
    exact hsymbols rfl

end Lossy

end SettingsFile

end CaveMap
