import CaveMap.Document.Config
import CaveMap.Proofs.Session.Files
import CaveMap.Proofs.Session.Invariant
import CaveMap.Proofs.SettingsFile.Derived
import CaveMap.Proofs.SettingsFile.Reload
import CaveMap.Proofs.SettingsFile.Sources
import CaveMap.Proofs.Text.Utf8
import CaveMap.SettingsFile.File

namespace CaveMap

def Settings.withUploads (s : Settings) (uploads : List Upload) : Settings := { s with uploads }

/-- The file that an upload was made of. -/
def Upload.handedIn (u : Upload) : NewFile := { name := u.fileName, content := u.content, path := u.path }

namespace Session

/-- A drawing whose symbols are all in the table. -/
def Covered (symbols : SymbolTable) (file : NewFile) : Prop :=
  FileKind.ofFileName file.name = .drawing → ∀ type ∈ (Drawing.scan file.content).keys, type ∈ symbols.keys

theorem fill_covered {symbols : SymbolTable} {files : List NewFile} (h : ∀ file ∈ files, Covered symbols file) :
    symbols.fill ((files.flatMap NewFile.uses).map Drawing.entryOf) = symbols := by
  refine Table.fill_of_keys fun entry hin => ?_
  obtain ⟨use, huse, rfl⟩ := List.mem_map.1 hin
  obtain ⟨file, hfile, huse⟩ := List.mem_flatMap.1 huse
  unfold NewFile.uses at huse
  split at huse
  · next hd =>
    refine h file hfile hd use.2 ?_
    rw [Drawing.scan_eq, Table.mem_keys_fill_empty]
    exact List.mem_map_of_mem (List.mem_map_of_mem huse)
  · exact absurd huse List.not_mem_nil

theorem addFiles_covered (ids : Nat → String) (s : Settings) (drawn : Nat) {files : List NewFile}
    (h : ∀ file ∈ files, Covered s.symbols file) :
    (addFiles ids ⟨s, drawn⟩ files).settings = { s with uploads := s.uploads ++ uploadsOf ids drawn files } := by
  rw [addFiles_eq, fill_covered h]

end Session

namespace Config

variable {s t : Settings}

theorem tasks_congr (h : t.paperSize = s.paperSize) (kinds : List Value) : tasks t kinds = tasks s kinds := by
  have htask : task? t = task? s := by
    funext kind
    unfold task? mapTask
    rw [h]
  induction kinds with
  | nil => rfl
  | cons kind rest ih =>
    unfold tasks
    rw [htask, ih]

theorem generate_congr (hpaper : t.paperSize = s.paperSize) (hselect : t.selectName = s.selectName)
    (htypes : t.exportTypes = s.exportTypes)
    (hsources : t.sourceFiles.map (·.fileName) = s.sourceFiles.map (·.fileName)) (name : String) :
    generate t name = generate s name := by
  have hrender : render t = render s := by
    funext select layoutName tasks
    unfold render sources
    rw [hsources]
  unfold generate
  rw [tasks_congr hpaper, hrender, htypes, hselect]

theorem generate_anonymous (s : Settings) (name : String) : generate s.anonymous name = generate s name := by
  have hpaper : s.anonymous.paperSize = s.paperSize := rfl
  have hselect : s.anonymous.selectName = s.selectName := rfl
  have htypes : s.anonymous.exportTypes = s.exportTypes := rfl
  have hsources : s.anonymous.sourceFiles.map (·.fileName) = s.sourceFiles.map (·.fileName) := by
    rw [Settings.sourceFiles, Settings.anonymous, List.filter_map, List.map_map]
    rfl
  exact generate_congr hpaper hselect htypes hsources name

end Config

theorem sourceNames_eq {uploads files : List Upload}
    (h : uploads.map Upload.anonymous =
      (files.filter fun u => u.kind = .source ∨ u.kind = .drawing).map Upload.anonymous) :
    (uploads.filter (·.kind = .source)).map (·.fileName) =
      (files.filter (·.kind = .source)).map (·.fileName) := by
  have hnames (us : List Upload) : (us.filter (·.kind = .source)).map (·.fileName) =
      ((us.map Upload.anonymous).filter (·.kind = .source)).map (·.fileName) := by
    rw [List.filter_map, List.map_map]
    rfl
  rw [hnames uploads, h, ← hnames, List.filter_filter]
  congr 2
  funext u
  by_cases hs : u.kind = .source <;> simp [hs]

theorem Layout.generate_uploads (s : Settings) (uploads : List Upload) (text : String)
    (h : (generate s).result = .ok text) : (generate (s.withUploads uploads)).result = .ok text := h

theorem Layout.generate_anonymous (s : Settings) : (generate s.anonymous).result = (generate s).result := rfl

namespace FileTree

variable {tree : FileTree} {p : Path}

theorem readYaml_file {v : Value} {place : List String} (hlocate : tree.locate p = .ok place)
    (hfile : tree.get? place = some (.file (Text.utf8 (Yaml.dump v).toList)))
    (hv : Yaml.load (Text.unifyNewlines (Yaml.dump v).toList) = .ok v) : tree.readYaml p = .ok v := by
  have hexists : tree.exists? p = .ok true := by
    rw [exists?, hlocate]
    simp only [hfile]
    rfl
  rw [readYaml, hexists, read_file hlocate hfile]
  simp only [Except.mapError, bind, Except.bind, Bool.not_true, Bool.false_eq_true, if_false,
    Text.ofUtf8?_utf8, String.toList_ofList, hv]

end FileTree

namespace SettingsFile

variable {tree : FileTree} {p : Path} {s : Settings}

def savedDocument (tree : FileTree) (p : Path) (s : Settings) : Value :=
  document tree.working (some (Path.ofPlace (p.parent.place tree.working))) s

def surveyFiles (s : Settings) : List Upload := s.uploads.filter fun u => u.kind = .source ∨ u.kind = .drawing

/-- Uploads whose files are found from the path. -/
structure Findable (tree : FileTree) (p : Path) (s : Settings) : Prop where
  stored : ∀ u ∈ surveyFiles s, ∃ place, u.StoredAt tree place ∧ place ≠ p.place tree.working ∧
    (p.parent.join (wayTo tree p place)).text.utf8ByteSize ≤ FileTree.maxPath
  covered : Settings.CoversDrawings s.symbols s.uploads

theorem mem_surveyFiles {u : Upload} :
    u ∈ surveyFiles s ↔ u ∈ s.uploads ∧ (u.kind = .source ∨ u.kind = .drawing) := by
  simp [surveyFiles]

theorem readSources_found {tree' : FileTree} {bytes : List UInt8} (hp : tree.Admits p)
    (hw : tree.Wrote tree' p bytes) (hf : Findable tree p s) :
    ((surveyFiles s).map (sourceText tree.working (some (Path.ofPlace (p.parent.place tree.working))))).mapM
      (readSource tree' p.parent) = .ok ((surveyFiles s).map Upload.handedIn) := by
  rw [List.mapM_map]
  refine Except.mapM_ok fun u hu => ?_
  obtain ⟨place, hstored, hother, hshort⟩ := hf.stored u hu
  exact readSource_stored hp hw hstored (mem_surveyFiles.1 hu).2 hother hshort

theorem covered_handedIn {u : Upload} (hf : Findable tree p s) (hu : u ∈ surveyFiles s) :
    Session.Covered s.symbols u.handedIn := by
  obtain ⟨place, hstored, -⟩ := hf.stored u hu
  intro hd type htype
  exact hf.covered u (mem_surveyFiles.1 hu).1 (hstored.kind.trans hd) type htype

theorem anonymous_handedIn {u : Upload} (hf : Findable tree p s) (hu : u ∈ surveyFiles s) :
    u.handedIn.upload "" = u.anonymous := by
  obtain ⟨place, hstored, -⟩ := hf.stored u hu
  rw [NewFile.upload, Upload.anonymous, Upload.handedIn, ← hstored.kind]

/-- What is loaded for settings that have been saved. -/
structure Restored (s t : Settings) : Prop where
  uploads : t.uploads.map Upload.anonymous = (surveyFiles s).map Upload.anonymous
  symbols : t.symbols = s.symbols
  layout : ∃ text, (Layout.generate s).result = .ok text ∧ (Layout.generate t).result = .ok text
  config : ∀ name, Config.generate t name = Config.generate s name

theorem restored_reread (hs : s.Shaped) (hc : s.legendColumns.isWritable) {uploads : List Upload}
    (h : uploads.map Upload.anonymous = (surveyFiles s).map Upload.anonymous) :
    Restored s (s.reread.withUploads uploads) := by
  have hpaper : (s.reread.withUploads uploads).paperSize = s.paperSize := rfl
  have hselect : (s.reread.withUploads uploads).selectName = s.selectName := rfl
  have htypes : (s.reread.withUploads uploads).exportTypes = s.exportTypes := rfl
  refine ⟨h, rfl, ?_, Config.generate_congr hpaper hselect htypes (sourceNames_eq h)⟩
  obtain ⟨text, hsaved⟩ := Layout.generate_ok_of_shaped hs hc
  exact ⟨text, hsaved,
    Layout.generate_uploads s.reread uploads text ((Layout.generate_reread hs).trans hsaved)⟩

/-- The draft of the written document finds its sources from there. -/
theorem build_found (hs : s.Shaped) (hc : s.legendColumns.isWritable) (hi : s.Identified)
    {tree' : FileTree} {bytes : List UInt8} (hp : tree.Admits p) (hw : tree.Wrote tree' p bytes) (hf : Findable tree p s) {draft : Draft}
    (hd : checkDocument (savedDocument tree p s) = .ok draft) (ids : Nat → String) :
    ∃ t, (draft.build tree' p.parent ids).result = .ok t ∧ Restored s t := by
  obtain ⟨hrecords, hsources⟩ := checkDocument_records hs hd
  have hfiles := readSources_found hp hw hf
  have hcovered : ∀ file ∈ (surveyFiles s).map Upload.handedIn, Session.Covered s.reread.symbols file := by
    intro file hin
    obtain ⟨u, hu, rfl⟩ := List.mem_map.1 hin
    have hu' : Session.Covered s.symbols u.handedIn := covered_handedIn hf hu
    exact hu'
  have hsettings := Session.addFiles_covered ids s.reread 0 hcovered
  refine ⟨s.reread.withUploads (Session.uploadsOf ids 0 ((surveyFiles s).map Upload.handedIn)), ?_,
    restored_reread hs hc ?_⟩
  · have hread : draft.sources.mapM (readSource tree' p.parent) =
        .ok ((surveyFiles s).map Upload.handedIn) := by
      rw [hsources]
      exact hfiles
    rw [Draft.build, hrecords.settings_reread hi, hread]
    exact congrArg Except.ok hsettings
  · rw [Session.anonymous_uploadsOf, List.map_map]
    exact List.map_congr_left fun u hu => anonymous_handedIn hf hu

theorem save_written (htree : tree.Proper) (hp : tree.Admits p) (hv : (savedDocument tree p s).isWritable)
    (hread : Yaml.load (Text.unifyNewlines (Yaml.dump (savedDocument tree p s)).toList) =
      .ok (savedDocument tree p s)) :
    ∃ tree', tree.Wrote tree' p (Text.utf8 (Yaml.dump (savedDocument tree p s)).toList) ∧
      save tree p s = (tree', .record (.settingsWritten p.text)) ∧
      tree'.readYaml p = .ok (savedDocument tree p s) := by
  obtain ⟨tree', hwrite, hw⟩ := FileTree.writeAtomically_ok htree hp
    (Text.utf8 (Yaml.dump (savedDocument tree p s)).toList)
  have hwritten : tree.writeYaml p
      (document tree.working (some (Path.ofPlace (p.parent.place tree.working))) s) = (tree', .ok ()) :=
    (if_pos hv).trans hwrite
  refine ⟨tree', hw, ?_, FileTree.readYaml_file (hw.locate hp) hw.file hread⟩
  unfold save
  simp only [hwritten]

end SettingsFile

end CaveMap
