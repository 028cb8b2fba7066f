import CaveMap.Proofs.CommandLine.Edits
import CaveMap.Proofs.Document.Exports
import CaveMap.Proofs.Session.Files
import CaveMap.Proofs.SettingsFile.Reload
import CaveMap.Proofs.SettingsFile.Saved
import CaveMap.Proofs.Yaml.RoundTrip
import CaveMap.Proofs.Yaml.Scalars

namespace CaveMap

theorem Layout.visible_enabling {s : Settings} {enabled : List Value}
    (h : ∀ id, .text id ∈ enabled ↔ .text id ∈ s.enabledModules) :
    visible (s.enabling enabled) = visible s := by
  have hsame : (s.enabling enabled).isEnabled = s.isEnabled := by
    funext id
    rw [Bool.eq_iff_iff, Settings.isEnabled_iff, Settings.isEnabled_iff]
    exact h id
  have hmodules : enabledModules (s.enabling enabled) = enabledModules s := by
    unfold enabledModules
    rw [hsame]
    rfl
  unfold visible
  rw [hmodules]
  rfl

theorem Settings.get_enabling (s : Settings) (enabled : List Value) : (s.enabling enabled).get = s.get := by
  funext field
  cases field <;> rfl

namespace SettingsFile

variable {tree tree' : FileTree} {base : Path}

/-- A file that two trees show alike. -/
def ReadAlike (tree tree' : FileTree) (p : Path) : Prop :=
  ∃ content, tree.readText p "utf-8" = .ok content ∧ tree'.readText p "utf-8" = .ok content

/-- The file behind a source; empty where it cannot be read. -/
def sourceFile (tree : FileTree) (base : Path) (source : String) : NewFile :=
  fileAt tree (base.join (.ofString source))
    ((tree.readText (base.join (.ofString source)) "utf-8").toOption.getD "")

theorem readSources_alike {sources : List String} (hworking : tree'.working = tree.working)
    (h : ∀ source ∈ sources, ReadAlike tree tree' (base.join (.ofString source))) :
    sources.mapM (readSource tree base) = .ok (sources.map (sourceFile tree base)) ∧
      sources.mapM (readSource tree' base) = .ok (sources.map (sourceFile tree base)) := by
  refine ⟨Except.mapM_ok fun source hin => ?_, Except.mapM_ok fun source hin => ?_⟩ <;>
    obtain ⟨content, hread, hread'⟩ := h source hin
  · simp only [readSource, sourceFile, hread]
    rfl
  · simp only [readSource, sourceFile, hread, hread', fileAt, hworking]
    rfl

end SettingsFile

namespace CommandLine.Arguments

open SettingsFile

variable {args : Arguments} {draft : Draft} {s t : Settings}

/-- The layout and the config document that a run is about, if it is about documents. -/
def produced (args : Arguments) (around : Surroundings) (tree : FileTree) : Option (String × String) :=
  match (args.plan around tree).result with
  | .ok (.documents _ layout config) => some (layout, config)
  | _ => none

/-- The same command without switches for the settings, on another settings file. -/
def plainly (args : Arguments) (path : Path) : Arguments :=
  { args with
    settings := some path, sources := [], theme := none, printMode := false, paper := none, exports := []
    modules := [] }

theorem documents_of_drawable (hs : s.Drawable) (args : Arguments) :
    (args.documents s).result =
      if s.legendColumns.isWritable then
        .ok (.documents s (Layout.visible s).text
          (Config.render s s.selectName.shown args.layoutName (s.exportTypes.filterMap (Config.task? s))))
      else .error (.fault (.layout .longInteger)) := by
  have hlayout := hs.generate_eq
  by_cases hcolumns : s.legendColumns.isWritable
  · rw [if_pos hcolumns] at hlayout ⊢
    have hconfig := Config.generate_eq (hs.written .selectName (by decide)) hs.exports args.layoutName
    exact Logged.bind_eq_ok.2 ⟨_, Except.mapError_eq_ok.2 hlayout,
      Logged.bind_eq_ok.2 ⟨_, Except.mapError_eq_ok.2 (congrArg Logged.result hconfig), rfl⟩⟩
  · rw [if_neg hcolumns] at hlayout ⊢
    exact Logged.bind_eq_error.2 (.inl (Except.mapError_eq_error.2 ⟨_, hlayout, rfl⟩))

/-- The documents of drawable settings; there are none where the number of columns is too long to be written. -/
def drawn? (args : Arguments) (s : Settings) : Option (String × String) :=
  if s.legendColumns.isWritable then
    some ((Layout.visible s).text,
      Config.render s s.selectName.shown args.layoutName (s.exportTypes.filterMap (Config.task? s)))
  else none

theorem drawn?_enabling {enabled : List Value}
    (h : ∀ id, .text id ∈ enabled ↔ .text id ∈ s.enabledModules) (args : Arguments) :
    args.drawn? (s.enabling enabled) = args.drawn? s := by
  unfold drawn?
  rw [Layout.visible_enabling h]
  rfl

variable {around : Surroundings} {tree : FileTree}

theorem withSources_result (args : Arguments) {files : List NewFile} (h : args.newFiles tree = .ok files)
    (s : Settings) :
    (args.withSources around tree s).result =
      .ok (Session.addFiles (fun n => around.ids (s.uploads.length + n)) ⟨s, 0⟩ files).settings :=
  Logged.bind_eq_ok.2 ⟨files, Except.mapError_eq_ok.2 h, rfl⟩

theorem plan_eq_ok (args : Arguments) (hlists : args.listModules = false ∧ args.listThemes = false)
    {plan : Plan} :
    (args.plan around tree).result = .ok plan ↔
      ∃ s t, (args.loaded around tree).result = .ok s ∧
        (args.withSources around tree (args.override s)).result = .ok t ∧
        (args.documents t).result = .ok plan := by
  unfold Arguments.plan
  simp only [Logged.bind_eq_ok, hlists.1, hlists.2, Bool.false_eq_true, if_false, Logged.mapError,
    Except.mapError_eq_ok]
  constructor
  · rintro ⟨s, hs, t, ht, hplan⟩
    exact ⟨s, t, hs, ht, hplan⟩
  · rintro ⟨s, t, hs, ht, hplan⟩
    exact ⟨s, hs, t, ht, hplan⟩

theorem plan_result (args : Arguments) (hlists : args.listModules = false ∧ args.listThemes = false)
    (hs : (args.loaded around tree).result = .ok s)
    (ht : (args.withSources around tree (args.override s)).result = .ok t) :
    (args.plan around tree).result = (args.documents t).result := by
  unfold Arguments.plan
  rw [Logged.bind_of_ok (Except.mapError_eq_ok.2 hs)]
  simp only [hlists.1, hlists.2, Bool.false_eq_true, if_false]
  exact Logged.bind_of_ok ht

theorem produced_of_drawable (hlists : args.listModules = false ∧ args.listThemes = false)
    (hs : (args.loaded around tree).result = .ok s)
    (ht : (args.withSources around tree (args.override s)).result = .ok t) (hdrawable : t.Drawable) :
    args.produced around tree = args.drawn? t := by
  rw [produced, plan_result args hlists hs ht, documents_of_drawable hdrawable, drawn?]
  cases t.legendColumns.isWritable <;> rfl

/-- Sources of the document and those of the command line join the uploads as one list. -/
theorem withSources_loaded {start : Settings} {front back : List NewFile} (hstart : start.uploads = [])
    (hfiles : args.newFiles tree = .ok back) :
    (args.withSources around tree
        (args.override (Session.addFiles around.ids ⟨start, 0⟩ front).settings)).result =
      .ok (Session.addFiles around.ids ⟨args.override start, 0⟩ (front ++ back)).settings := by
  have hempty : (args.override start).uploads = [] := by
    obtain ⟨enabled, hfold, -⟩ := Settings.foldl_setEnabled args.modules
      (args.revised ((args.theme.map start.applyTheme).getD start))
    rw [override_eq, hfold]
    cases args.theme <;> exact hstart
  have hdrawn := Session.drawn_addFiles around.ids ⟨args.override start, 0⟩ front
  simp only [hempty, List.length_nil, Nat.zero_add] at hdrawn
  have hsession : Session.addFiles around.ids ⟨args.override start, 0⟩ front =
      ⟨(Session.addFiles around.ids ⟨args.override start, 0⟩ front).settings, front.length⟩ := by
    rw [← hdrawn.1]
  rw [withSources_result args hfiles, Session.addFiles_comm args.override (override_addFile args), hdrawn.2,
    ← Session.addFiles_drawn, ← hsession, ← Session.addFiles_append]

/-- What it takes to replace switches by an edit of the settings file: `path` and `path'` are the files with
the document of `draft` and with the edited one, and `sources` the source files on the command line. -/
structure Rewritten (args : Arguments) (sources : List String) (tree tree' : FileTree) (path path' : Path)
    (draft : Draft) : Prop where
  documents : args.listModules = false ∧ args.listThemes = false
  chosen : args.Chosen
  settings : args.settings = some path
  paths : args.sources = sources.map .ofString
  absolute : ∀ source ∈ sources, (Path.ofString source).isAbsolute
  read : ∃ entries, tree.readYaml path = .ok (.map entries) ∧ checkDocument (.map entries) = .ok draft ∧
    tree'.readYaml path' = .ok (.map (args.edited sources entries))
  beside : path'.parent = path.parent ∧ tree'.working = tree.working
  alike : ∀ source ∈ draft.sources ++ sources, ReadAlike tree tree' (path.parent.join (.ofString source))

namespace Rewritten

variable {sources : List String} {tree' : FileTree} {path path' : Path}

theorem newFiles (h : args.Rewritten sources tree tree' path path' draft) :
    args.newFiles tree = .ok (sources.map (sourceFile tree path.parent)) := by
  rw [Arguments.newFiles, h.paths, List.mapM_map]
  refine Except.mapM_ok fun source hin => ?_
  obtain ⟨content, hread, -⟩ := h.alike source (List.mem_append_right _ hin)
  have hjoin : path.parent.join (.ofString source) = .ofString source := if_pos (h.absolute source hin)
  rw [hjoin] at hread
  simp only [Function.comp_apply, sourceFile, hjoin, hread]
  rfl

theorem loaded_eq_ok (h : args.Rewritten sources tree tree' path path' draft) :
    (args.loaded around tree).result = .ok s ↔ (draft.build tree path.parent around.ids).result = .ok s := by
  obtain ⟨entries, hread, hd, -⟩ := h.read
  rw [loaded, h.settings]
  exact load_accepted hread hd

theorem loaded_plainly_eq_ok (h : args.Rewritten sources tree tree' path path' draft) :
    ((args.plainly path').loaded around tree').result = .ok s ↔
      ((args.editedDraft sources draft).build tree' path.parent around.ids).result = .ok s := by
  obtain ⟨entries, -, hd, hread⟩ := h.read
  obtain ⟨_, he, haccepts⟩ := checkDocument_ok_iff.1 hd
  cases he
  rw [← h.beside.1]
  exact load_accepted hread (checkDocument_ok_iff.2 ⟨_, rfl, accepts_edited h.chosen haccepts sources⟩)

theorem produced_drawn (h : args.Rewritten sources tree tree' path path' draft)
    (hids : firstRepeated? [] (draft.modules.map (·.id)) = none) (around : Surroundings) :
    ∃ final : Settings, final.legendColumns = draft.value .legendColumns ∧
      args.produced around tree = args.drawn? final ∧
      (args.plainly path').produced around tree' = args.drawn? final := by
  obtain ⟨entries, -, hd, -⟩ := h.read
  obtain ⟨_, he, haccepts⟩ := checkDocument_ok_iff.1 hd
  cases he
  obtain ⟨start, hstart⟩ := haccepts.settings_ok hids
  obtain ⟨enabled, hstart', hmem⟩ := settings_edited h.chosen haccepts sources hstart
  have hedited := accepts_edited h.chosen haccepts sources
  obtain ⟨hfront, -⟩ := readSources_alike h.beside.2 fun source hin =>
    h.alike source (List.mem_append_left _ hin)
  obtain ⟨-, hall⟩ := readSources_alike h.beside.2 h.alike
  rw [List.map_append] at hall
  let files := draft.sources.map (sourceFile tree path.parent) ++ sources.map (sourceFile tree path.parent)
  let final := (Session.addFiles around.ids ⟨args.override start, 0⟩ files).settings
  have hget : final.get = ((args.override start).enabling enabled).get := by
    rw [Session.get_addFiles, Settings.get_enabling]
  have hdrawable : final.Drawable := (hedited.drawable hstart').of_get hget
  -- The edited document enables the same modules in another order, which shows in neither document.
  have hmodules : ∀ id, .text id ∈ enabled ↔ .text id ∈ final.enabledModules := by
    rw [Session.enabledModules_addFiles]
    exact hmem
  refine ⟨final, ?_, ?_, ?_⟩
  · have hcolumns := hedited.columns_eq hstart'
    rw [value_editedDraft] at hcolumns
    exact (congrFun hget .legendColumns).trans hcolumns
  · have hloaded : (args.loaded around tree).result = .ok
        (Session.addFiles around.ids ⟨start, 0⟩ (draft.sources.map (sourceFile tree path.parent))).settings :=
      h.loaded_eq_ok.2 (Draft.build_eq_ok.2 ⟨start, _, hstart, hfront, rfl⟩)
    exact produced_of_drawable h.documents hloaded
      (withSources_loaded (Draft.uploads_of_settings hstart) h.newFiles) hdrawable
  · have hfinal : final.enabling enabled =
        (Session.addFiles around.ids ⟨(args.override start).enabling enabled, 0⟩ files).settings :=
      Session.addFiles_comm (·.enabling enabled) (fun _ _ _ => rfl) (args.override start) 0 files
    have hloaded : ((args.plainly path').loaded around tree').result = .ok (final.enabling enabled) := by
      rw [hfinal]
      exact h.loaded_plainly_eq_ok.2 (Draft.build_eq_ok.2 ⟨_, files, hstart', hall, rfl⟩)
    have hplainly : (args.plainly path').produced around tree' =
        (args.plainly path').drawn? (final.enabling enabled) :=
      produced_of_drawable h.documents hloaded
        (withSources_result (args.plainly path') rfl (final.enabling enabled))
        (hdrawable.of_get (final.get_enabling enabled))
    exact hplainly.trans (drawn?_enabling hmodules args)

theorem not_produced (h : args.Rewritten sources tree tree' path path' draft)
    (hids : firstRepeated? [] (draft.modules.map (·.id)) ≠ none) (around : Surroundings) :
    args.produced around tree = none ∧ (args.plainly path').produced around tree' = none := by
  have hsettings (draft' : Draft) (hmodules : draft'.modules = draft.modules) (s : Settings) :
      draft'.settings ≠ .ok s := by
    intro hs
    obtain ⟨-, -, -, -, hnone, -⟩ := Draft.settings_eq_ok.1 hs
    exact hids (hmodules ▸ hnone)
  constructor
  · unfold produced
    split
    · next hplan =>
      obtain ⟨s, -, hs, -⟩ := (plan_eq_ok args h.documents).1 hplan
      obtain ⟨start, -, hstart, -⟩ := Draft.build_eq_ok.1 (h.loaded_eq_ok.1 hs)
      exact absurd hstart (hsettings draft rfl start)
    · rfl
  · unfold produced
    split
    · next hplan =>
      obtain ⟨s, -, hs, -⟩ := (plan_eq_ok (args.plainly path') h.documents).1 hplan
      obtain ⟨start, -, hstart, -⟩ := Draft.build_eq_ok.1 (h.loaded_plainly_eq_ok.1 hs)
      exact absurd hstart (hsettings (args.editedDraft sources draft) rfl start)
    · rfl

end Rewritten

variable {sources : List String} {tree' : FileTree} {path path' : Path}

/-- Switches on the command line mean the same as an edit of the settings file: the same documents come of
both. There are documents unless two custom modules share an identifier or the number of columns is too long to
be written. -/
theorem produced_edited (h : args.Rewritten sources tree tree' path path' draft) (around : Surroundings) :
    args.produced around tree = (args.plainly path').produced around tree' ∧
      ((args.produced around tree).isSome ↔
        (draft.modules.map (·.id)).Nodup ∧ (draft.value .legendColumns).isWritable) := by
  by_cases hids : firstRepeated? [] (draft.modules.map (·.id)) = none
  · obtain ⟨final, hcolumns, hproduced, hproduced'⟩ := h.produced_drawn hids around
    rw [hproduced, hproduced', ← hcolumns, and_iff_right (firstRepeated?_eq_none_iff.1 hids).1, drawn?]
    refine ⟨rfl, ?_⟩
    cases final.legendColumns.isWritable <;> simp
  · obtain ⟨hproduced, hproduced'⟩ := h.not_produced hids around
    rw [hproduced, hproduced']
    exact ⟨rfl, nofun, fun hdraft => absurd (firstRepeated?_eq_none hdraft.1 (by simp)) hids⟩

section Walls

def wallsEntries : List (String × Value) :=
  [("id", .text "walls"), ("name", .text "Walls"), ("code", .text "# walls"), ("enabled", .bool false)]

/-- A document with a theme, a module and a drawing. -/
def plainSheet : List (String × Value) :=
  [("schema", .text version), ("theme", .text "hc_gray"),
   ("modules", .map (Yaml.textEntries [("custom", .list [.map (Yaml.textEntries wallsEntries)])])),
   ("sources", .list [.text "hall.th2"])]

def switchedSheet : List (String × Value) :=
  [("schema", .text version), ("theme", .text "heatmap"),
   ("modules", .map (Yaml.textEntries
     [("custom", .list [.map (Yaml.textEntries wallsEntries)]), ("enabled", .list [.text "walls"])])),
   ("sources", .list [.text "hall.th2", .text "/entrance.th2"]),
   ("project", .map (Yaml.textEntries [("paper_size", .text "A3"), ("export_types", .list [.text "model"])])),
   ("colors", .map (Yaml.textEntries [("print_mode", .bool true)]))]

def switches : Arguments :=
  { settings := some (.ofString "plain.yaml"), sources := [.ofString "/entrance.th2"]
    theme := Theme.ofId? "heatmap", printMode := true, paper := some .a3, exports := ["model"]
    modules := ["walls"] }

/-- Both drawings have a symbol in common. -/
def sheetTree : FileTree :=
  { entries :=
      [(["plain.yaml"], .file (Text.utf8 (Yaml.dump (.map (Yaml.textEntries plainSheet))).toList)),
       (["switched.yaml"], .file (Text.utf8 (Yaml.dump (.map (Yaml.textEntries switchedSheet))).toList)),
       (["hall.th2"], .file (Text.utf8 "point 0 0 stalactite\n".toList)),
       (["entrance.th2"], .file (Text.utf8 "point 1 1 stalactite\npoint 2 2 bat\n".toList))]
    working := [] }

theorem chosen_switches : switches.Chosen where
  theme theme h := by
    cases h
    decide
  exports := by decide

theorem edited_plainSheet :
    switches.edited ["/entrance.th2"] (Yaml.textEntries plainSheet) = Yaml.textEntries switchedSheet := by
  have htheme : (Theme.ofId? "heatmap").map (·.id) = some "heatmap" := by decide
  obtain ⟨theme, hfound, hid⟩ := Option.map_eq_some_iff.1 htheme
  simp only [edited, editField, given, switches, hfound, hid, if_true, Option.map_some, List.isEmpty_cons,
    Bool.false_eq_true, if_false, PaperSize.name]
  simp [withTheme, withField, withEnabled, SettingsFile.withSources, amended, onEntries, appended, entryOr,
    Value.insertEntry, Value.equals_text, plainSheet, switchedSheet, Yaml.textEntries, Value.entry?,
    Section.key, Field.key, Value.items?]

theorem storable_walls : Yaml.Storable 1 (.map (Yaml.textEntries wallsEntries)) := by
  refine .mapping ["id", "name", "code", "enabled"] rfl (by decide) (by decide) ?_
  simp only [wallsEntries, List.forall_mem_cons, List.not_mem_nil, false_imp_iff, implies_true, and_true]
  exact ⟨.text (by decide), .text (by decide), .text (by decide), .bool false⟩

theorem storable_plainSheet : Yaml.StorableDocument plainSheet := by
  have hmodules : Yaml.Storable 3 (.map (Yaml.textEntries
      [("custom", .list [.map (Yaml.textEntries wallsEntries)])])) :=
    .mapping ["custom"] rfl (by decide) (by decide)
      (List.forall_mem_singleton.2 (.list (List.forall_mem_singleton.2 storable_walls)))
  have hvalues : ∀ entry ∈ plainSheet, Yaml.Storable 3 entry.2 := by
    simp only [plainSheet, List.forall_mem_cons, List.not_mem_nil, false_imp_iff, implies_true, and_true]
    exact ⟨.text (by decide), .text (by decide), hmodules, .texts ["hall.th2"] (by decide)⟩
  exact .of_short ["schema", "theme", "modules", "sources"] rfl (by decide) (by decide) (by decide) hvalues
    (by decide)

theorem storable_switchedSheet : Yaml.StorableDocument switchedSheet := by
  have hmodules : Yaml.Storable 3 (.map (Yaml.textEntries
      [("custom", .list [.map (Yaml.textEntries wallsEntries)]), ("enabled", .list [.text "walls"])])) := by
    refine .mapping ["custom", "enabled"] rfl (by decide) (by decide) ?_
    simp only [List.forall_mem_cons, List.not_mem_nil, false_imp_iff, implies_true, and_true]
    exact ⟨.list (List.forall_mem_singleton.2 storable_walls), .texts ["walls"] (by decide)⟩
  have hproject : Yaml.Storable 3 (.map (Yaml.textEntries
      [("paper_size", .text "A3"), ("export_types", .list [.text "model"])])) := by
    refine .mapping ["paper_size", "export_types"] rfl (by decide) (by decide) ?_
    simp only [List.forall_mem_cons, List.not_mem_nil, false_imp_iff, implies_true, and_true]
    exact ⟨.text (by decide), .texts ["model"] (by decide)⟩
  have hcolors : Yaml.Storable 3 (.map (Yaml.textEntries [("print_mode", .bool true)])) :=
    .mapping ["print_mode"] rfl (by decide) (by decide) (List.forall_mem_singleton.2 (.bool true))
  have hvalues : ∀ entry ∈ switchedSheet, Yaml.Storable 3 entry.2 := by
    simp only [switchedSheet, List.forall_mem_cons, List.not_mem_nil, false_imp_iff, implies_true, and_true]
    exact ⟨.text (by decide), .text (by decide), hmodules, .texts ["hall.th2", "/entrance.th2"] (by decide),
      hproject, hcolors⟩
  exact .of_short ["schema", "theme", "modules", "sources", "project", "colors"] rfl (by decide) (by decide)
    (by decide) hvalues (by decide)

theorem readAlike_sheetTree : ∀ source ∈ ["hall.th2", "/entrance.th2"],
    ReadAlike sheetTree sheetTree ((Path.ofString "plain.yaml").parent.join (.ofString source)) := by
  have hread : ∀ source ∈ ["hall.th2", "/entrance.th2"], (sheetTree.readText
      ((Path.ofString "plain.yaml").parent.join (.ofString source)) "utf-8").toOption.isSome := by
    decide +kernel
  intro source hin
  obtain ⟨content, hcontent⟩ := Except.exists_ok (hread source hin)
  exact ⟨content, hcontent, hcontent⟩

theorem rewritten_switches : ∃ draft, switches.Rewritten ["/entrance.th2"] sheetTree sheetTree
    (.ofString "plain.yaml") (.ofString "switched.yaml") draft ∧
      (draft.modules.map (·.id)).Nodup ∧ (draft.value .legendColumns).isWritable := by
  have hok : (checkDocument (.map (Yaml.textEntries plainSheet))).toOption.any fun draft =>
      decide (draft.sources = ["hall.th2"] ∧
        (draft.modules.map (·.id)).Nodup ∧ (draft.value .legendColumns).isWritable) := by decide +kernel
  cases hd : checkDocument (.map (Yaml.textEntries plainSheet)) with
  | error =>
    rw [hd] at hok
    cases hok
  | ok draft =>
    rw [hd] at hok
    obtain ⟨hsources, hmakes⟩ := of_decide_eq_true hok
    have hplace (name : String) (h : name ∈ ["plain.yaml", "switched.yaml"]) :
        sheetTree.locate (.ofString name) = .ok [name] := by
      revert name
      decide
    have hplain := FileTree.readYaml_file (hplace "plain.yaml" (by decide)) rfl
      (Yaml.load_dump storable_plainSheet)
    have hswitched := FileTree.readYaml_file (hplace "switched.yaml" (by decide)) rfl
      (Yaml.load_dump storable_switchedSheet)
    rw [← edited_plainSheet] at hswitched
    refine ⟨draft, ⟨⟨rfl, rfl⟩, chosen_switches, rfl, rfl, by decide, ⟨_, hplain, hd, hswitched⟩,
      ⟨rfl, rfl⟩, ?_⟩, hmakes⟩
    rw [hsources]
    exact readAlike_sheetTree

/-- The switches change theme, paper, background, exports, modules and sources of the document. -/
theorem produced_edited_switches :
    ∃ draft, switches.Rewritten ["/entrance.th2"] sheetTree sheetTree (.ofString "plain.yaml")
        (.ofString "switched.yaml") draft ∧ (draft.modules.map (·.id)).Nodup ∧
      (draft.value .legendColumns).isWritable ∧
      switches.produced ⟨.nan, 1, "shipped.yaml", fun _ => "id"⟩ sheetTree =
        (switches.plainly (.ofString "switched.yaml")).produced ⟨.nan, 1, "shipped.yaml", fun _ => "id"⟩
          sheetTree ∧
      (switches.produced ⟨.nan, 1, "shipped.yaml", fun _ => "id"⟩ sheetTree).isSome := by
  obtain ⟨draft, hrewritten, hmakes⟩ := rewritten_switches
  obtain ⟨hsame, hsome⟩ := produced_edited hrewritten ⟨.nan, 1, "shipped.yaml", fun _ => "id"⟩
  exact ⟨draft, hrewritten, hmakes.1, hmakes.2, hsame, hsome.2 hmakes⟩

end Walls

end CommandLine.Arguments

end CaveMap