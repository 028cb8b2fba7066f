import CaveMap.CommandLine.Plan
import CaveMap.Proofs.FileKind
import CaveMap.Proofs.Session.Files
import CaveMap.Proofs.SettingsFile.Derived
import CaveMap.Proofs.SettingsFile.Sources

namespace CaveMap

open FileKind

theorem Path.name_join {p q : Path} (h : q.names ≠ []) : (p.join q).name = q.name := by
  unfold join name
  split
  · rfl
  · rw [List.getLast?_append_of_ne_nil _ h]

theorem FileTree.directory_of_locate {tree : FileTree} {p : Path} {place front : List String} (hn : p.names ≠ [])
    (hp : tree.locate p = .ok place) (hf : tree.locate p.parent = .ok front) :
    tree.get? front = some .directory := by
  rw [locate_eq (acceptable_of_locate hp), ← List.dropLast_concat_getLast hn, walk_append] at hp
  rw [locate_eq (acceptable_of_locate hf)] at hf
  obtain ⟨middle, hmiddle, hstep⟩ := Except.bind_eq_ok.1 hp
  obtain rfl : middle = front := Except.ok.inj (hmiddle.symm.trans hf)
  rw [walk_singleton] at hstep
  exact step_directory hstep

theorem FileTree.names_of_readText_parent {tree : FileTree} {p : Path} {encoding content : String}
    (hp : tree.exists? p = .ok true) (h : tree.readText p.parent encoding = .ok content) : p.names = [] := by
  by_contra hn
  obtain ⟨front, bytes, hlocate, hfile⟩ := file_of_readText h
  cases hplace : tree.locate p with
  | error fault =>
    rw [exists?, hplace] at hp
    cases fault <;> cases hp
  | ok place =>
    rw [directory_of_locate hn hplace hlocate] at hfile
    cases hfile

namespace SettingsFile

variable {tree : FileTree} {path : Path} {text : String} {file : NewFile}

theorem readSource_eq_ok {base : Path} (h : readSource tree base text = .ok file) :
    ∃ content, tree.readText (base.join (.ofString text)) "utf-8" = .ok content ∧
      file = fileAt tree (base.join (.ofString text)) content := by
  simp only [readSource] at h
  split at h <;> cases h
  exact ⟨_, ‹_›, rfl⟩

theorem kind_of_readSource (hpath : tree.exists? path = .ok true)
    (h : readSource tree path.parent text = .ok file) : ofFileName file.name = ofFileName text := by
  obtain ⟨content, hread, rfl⟩ := readSource_eq_ok h
  change ofFileName (path.parent.join (.ofString text)).name = _
  rw [← ofFileName_name text]
  by_cases hnames : (Path.ofString text).names = []
  · unfold Path.join at hread ⊢
    split at hread
    · next habsolute => rw [if_pos habsolute]
    · next hrelative =>
      rw [hnames, List.append_nil] at hread
      have hfront : path.names = [] := FileTree.names_of_readText_parent hpath hread
      rw [if_neg hrelative, hnames, List.append_nil, Path.name, Path.name, Path.parent, hfront, hnames]
      rfl
  · rw [Path.name_join hnames]

end SettingsFile

namespace Session

theorem kinds_uploadsOf (ids : Nat → String) (drawn : Nat) (files : List NewFile) :
    (uploadsOf ids drawn files).map (·.kind) = files.map fun file => ofFileName file.name := by
  have hanonymous := congrArg (List.map (·.kind)) (anonymous_uploadsOf ids drawn files)
  rw [List.map_map, List.map_map] at hanonymous
  exact hanonymous

end Session

/-- Settings that are given files by their texts: as uploads, as sources of a command line or as sources of a
settings file. -/
inductive HandedIn (tree : FileTree) (texts : List String) : Settings → Settings → Prop
  | upload {ids : Nat → String} {session session' : Session} {files : List NewFile} :
      files.map (·.name) = texts → (session.run ids (.addFiles files)).result = .ok session' →
      HandedIn tree texts session.settings session'.settings
  | argument {args : CommandLine.Arguments} {around : CommandLine.Surroundings} {s t : Settings} :
      args.sources = texts.map Path.ofString → (args.withSources around tree s).result = .ok t →
      HandedIn tree texts s t
  | listed {path : Path} {value : Value} {draft : SettingsFile.Draft} {ids : Nat → String} {s t : Settings} :
      tree.readYaml path = .ok value → SettingsFile.checkDocument value = .ok draft → draft.sources = texts →
      draft.settings = .ok s → (SettingsFile.load tree path ids).result = .ok t → HandedIn tree texts s t

namespace HandedIn

variable {tree : FileTree} {texts : List String} {s t : Settings}

/-- However files are handed in, they come to names of the kinds of their texts. -/
theorem files (h : HandedIn tree texts s t) : ∃ (ids : Nat → String) (drawn : Nat) (files : List NewFile),
    t = (Session.addFiles ids ⟨s, drawn⟩ files).settings ∧
      (files.map fun file => ofFileName file.name) = texts.map ofFileName := by
  cases h with
  | @upload ids session session' files htexts hrun =>
    cases hrun
    refine ⟨ids, session.drawn, files, rfl, ?_⟩
    rw [← htexts, List.map_map]
    rfl
  | @argument args around _ _ hsources hrun =>
    obtain ⟨files, hfiles, hrun⟩ := Logged.bind_eq_ok.1 hrun
    cases hrun
    refine ⟨_, 0, files, rfl, ?_⟩
    have hread : texts.mapM (fun text => (tree.readText (.ofString text) "utf-8").map
        (SettingsFile.fileAt tree (.ofString text))) = .ok files := by
      rw [← Except.mapError_eq_ok.1 hfiles, CommandLine.Arguments.newFiles, hsources, List.mapM_map]
      rfl
    refine Except.map_of_mapM hread fun text _ file hfile => ?_
    have hname : file.name = (Path.ofString text).name := by
      cases hcontent : tree.readText (.ofString text) "utf-8" <;> rw [hcontent] at hfile <;> cases hfile
      rfl
    rw [hname, ofFileName_name]
  | @listed path value draft ids _ _ hread hdraft hsources hstart hload =>
    rw [SettingsFile.load_accepted hread hdraft] at hload
    obtain ⟨start, files, hstart', hfiles, rfl⟩ := SettingsFile.Draft.build_eq_ok.1 hload
    obtain rfl : s = start := Except.ok.inj (hstart.symm.trans hstart')
    refine ⟨ids, 0, files, rfl, ?_⟩
    rw [hsources] at hfiles
    have hpath := SettingsFile.exists_of_readYaml hread
    exact Except.map_of_mapM hfiles fun text _ file hfile => SettingsFile.kind_of_readSource hpath hfile

theorem kinds (h : HandedIn tree texts s t) :
    ∃ added, t.uploads = s.uploads ++ added ∧ added.map (·.kind) = texts.map ofFileName := by
  obtain ⟨ids, drawn, files, rfl, hkinds⟩ := h.files
  refine ⟨Session.uploadsOf ids drawn files, ?_, (Session.kinds_uploadsOf ids drawn files).trans hkinds⟩
  rw [Session.addFiles_eq]

end HandedIn

namespace FileKind

/-- Nothing but the last component of a text decides about the kind, in lower case: the whole name, or what
follows its last point. Directories in front of a name make no difference, nor does the way on which a file comes
in. -/
theorem kind_by_last_component :
    (∀ text : List Char, Text.Lowered text (Text.lower text)) ∧
    (∀ (text : String) (low : List Char),
      Text.Lowered (((components text.toList).getLast?).getD []) low →
      ∀ kind, IsKindOf low kind ↔ kind = ofFileName text) ∧
    (∀ directory name : String, Path.IsName name → ofFileName (directory ++ "/" ++ name) = ofFileName name) ∧
    ∀ (tree : FileTree) (texts : List String) (s t : Settings), HandedIn tree texts s t →
      ∃ added, t.uploads = s.uploads ++ added ∧ added.map (·.kind) = texts.map ofFileName := by
  refine ⟨Text.lowered_lower, fun text low h kind => ?_, fun directory name h => ?_,
    fun tree texts s t h => h.kinds⟩
  · rw [← lastComponent_eq] at h
    have hkind := isKindOf_ofFileName h
    exact ⟨fun h' => h'.unique hkind, fun he => he ▸ hkind⟩
  · rw [ofFileName, lastComponent_append h, ofFileName, lastComponent_name h]

def surveyTree : FileTree :=
  { entries := [(["Maps"], .directory), (["Maps", "CAVE.TH2"], .file (Text.utf8 "line wall\n".toList))]
    working := [] }

theorem kind_by_last_component_survey :
    IsKindOf "cave.th2".toList .drawing ∧ ofFileName "Maps//CAVE.TH2/." = .drawing ∧
      ofFileName ("Maps" ++ "/" ++ "ThConfig") = ofFileName "ThConfig" ∧
      ∃ (t : Settings) (added : List Upload), t.uploads = Settings.default.uploads ++ added ∧
        added.map (·.kind) = ["Maps/CAVE.TH2", "./Maps//CAVE.TH2"].map ofFileName := by
  obtain ⟨hlower, hkind, hdirectory, hways⟩ := kind_by_last_component
  have hlow : Text.Lowered (((components "Maps//CAVE.TH2/.".toList).getLast?).getD []) "cave.th2".toList :=
    hlower "CAVE.TH2".toList
  have hdrawing : .drawing = ofFileName "Maps//CAVE.TH2/." := by decide
  have hname : Path.IsName "ThConfig" := ⟨by decide, by decide, by decide⟩
  let args : CommandLine.Arguments := { sources := ["Maps/CAVE.TH2", "./Maps//CAVE.TH2"].map Path.ofString }
  let around : CommandLine.Surroundings :=
    { time := .ofInt 0, process := 1, shippedName := "", ids := Text.decimalText }
  have hfound : (args.withSources around surveyTree .default).result.toOption.isSome := by decide +kernel
  obtain ⟨t, ht⟩ := Except.exists_ok hfound
  exact ⟨(hkind _ _ hlow _).2 hdrawing, hdrawing.symm, hdirectory "Maps" "ThConfig" hname, t,
    hways surveyTree _ .default t (.argument rfl ht)⟩

end FileKind

end CaveMap
