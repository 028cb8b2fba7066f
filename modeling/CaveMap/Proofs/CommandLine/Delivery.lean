import CaveMap.CommandLine.Run
import CaveMap.Proofs.CommandLine.Overrides
import CaveMap.Proofs.Files.Refusal

namespace CaveMap

structure Output where
  path : Path
  bytes : List UInt8

/-- Outputs that are written one after the other. -/
inductive FileTree.WroteAll : FileTree → List Output → FileTree → Prop
  | nil (tree) : WroteAll tree [] tree
  | cons {tree next tree'} {output : Output} {outputs} (admits : tree.Admits output.path)
    (wrote : tree.Wrote next output.path output.bytes) (rest : WroteAll next outputs tree') :
    WroteAll tree (output :: outputs) tree'

/-- How the first output that cannot be written ends a run. -/
inductive FileTree.Ends (tree : FileTree) (output : Output) : CommandLine.Ending → Prop
  | reported (h : tree.Refuses output.path) : Ends tree output .failed
  | escaped (h : tree.Blocks output.path) (fault : WriteFault) : Ends tree output (.broken (.write fault))

/-- Outputs are written in order, as far as they can be. -/
inductive FileTree.Delivered : FileTree → List Output → CommandLine.Ending → FileTree → Prop
  | done (tree) : Delivered tree [] .done tree
  | written {tree next tree'} {output : Output} {outputs ending} (admits : tree.Admits output.path)
    (wrote : tree.Wrote next output.path output.bytes) (rest : Delivered next outputs ending tree') :
    Delivered tree (output :: outputs) ending tree'
  | stopped {tree} {output : Output} {ending} (ends : tree.Ends output ending) (outputs tree') :
    Delivered tree (output :: outputs) ending tree'

namespace FileTree.Delivered

variable {tree between tree' : FileTree} {front back : List Output} {ending : CommandLine.Ending}

theorem append (h : Delivered tree front .done between) (h' : Delivered between back ending tree') :
    Delivered tree (front ++ back) ending tree' := by
  generalize hdone : CommandLine.Ending.done = ending' at h
  induction h with
  | done => exact h'
  | written admits wrote _ ih => exact .written admits wrote (ih h' hdone)
  | stopped ends => cases ends <;> cases hdone

theorem more (h : Delivered tree front ending tree') (hne : ending ≠ .done) (back : List Output) :
    Delivered tree (front ++ back) ending tree' := by
  induction h with
  | done => exact absurd rfl hne
  | written admits wrote _ ih => exact .written admits wrote (ih hne)
  | stopped ends outputs tree' => exact .stopped ends (outputs ++ back) tree'

theorem keeps (h : Delivered tree front .done tree') (hproper : tree.Proper) :
    tree'.Proper ∧ tree'.working = tree.working := by
  generalize hdone : CommandLine.Ending.done = ending' at h
  induction h with
  | done => exact ⟨hproper, rfl⟩
  | written _ wrote _ ih =>
    obtain ⟨hproper', hworking⟩ := ih wrote.proper hdone
    exact ⟨hproper', hworking.trans wrote.working⟩
  | stopped ends => cases ends <;> cases hdone

/-- Either all outputs are written, or those in front of one that cannot be. -/
theorem outcome {outputs : List Output} (h : Delivered tree outputs ending tree') :
    (ending = .done ∧ tree.WroteAll outputs tree') ∨
      ∃ front output back between, outputs = front ++ output :: back ∧ tree.WroteAll front between ∧
        between.Ends output ending := by
  induction h with
  | done tree => exact .inl ⟨rfl, .nil tree⟩
  | @written tree next tree' output outputs ending admits wrote _ ih =>
    rcases ih with ⟨hdone, hall⟩ | ⟨front, last, back, between, he, hfront, hends⟩
    · exact .inl ⟨hdone, .cons admits wrote hall⟩
    · exact .inr ⟨output :: front, last, back, between, by rw [he, List.cons_append], .cons admits wrote hfront, hends⟩
  | @stopped tree output ending ends outputs tree' =>
    exact .inr ⟨[], output, outputs, tree, rfl, .nil tree, ends⟩

end FileTree.Delivered

namespace CommandLine

variable {tree : FileTree} {p : Path}

theorem writeText_delivered (h : tree.Proper) (hp : p.Named) (text : String) :
    (∃ next, tree.writeText p text = (next, .ok ()) ∧ tree.Delivered [⟨p, Text.utf8 text.toList⟩] .done next) ∨
      ∃ next fault, tree.writeText p text = (next, .error fault) ∧
        ∀ events, (Report.ofWriteFault next events fault).ending ≠ .done ∧
          tree.Delivered [⟨p, Text.utf8 text.toList⟩] (Report.ofWriteFault next events fault).ending
            (Report.ofWriteFault next events fault).tree := by
  unfold FileTree.writeText
  have hcases : tree.Admits p ∨ tree.Refuses p ∨ tree.Blocks p := FileTree.admits_or_refuses_or_blocks hp.name
  rcases hcases with ha | hr | hb
  · obtain ⟨next, hwrite, hwrote⟩ := FileTree.writeAtomically_ok h ha (Text.utf8 text.toList)
    exact .inl ⟨next, hwrite, .written ha hwrote (.done next)⟩
  · obtain ⟨next, fault, involved, hwrite⟩ := FileTree.writeAtomically_refused h hr (Text.utf8 text.toList)
    exact .inr ⟨next, _, hwrite, fun events => ⟨by simp [Report.ofWriteFault], .stopped (.reported hr) [] _⟩⟩
  · obtain ⟨next, fault, hwrite, hfault⟩ := FileTree.writeAtomically_blocked h hb (Text.utf8 text.toList)
    refine .inr ⟨next, fault, hwrite, fun events => ?_⟩
    have hreport : Report.ofWriteFault next events fault = { tree := next, ending := .broken (.write fault) } := by
      cases fault with
      | failed q cause involved => exact absurd rfl (hfault q cause involved)
      | _ => rfl
    rw [hreport]
    exact ⟨by simp, .stopped (.escaped hb fault) [] _⟩

namespace Arguments

variable {args : Arguments} {s : Settings} {tree : FileTree}

def documentOutputs (args : Arguments) (layout config : String) : List Output :=
  if args.dryRun then []
  else [⟨args.layoutPath, Text.utf8 layout.toList⟩, ⟨args.configPath, Text.utf8 config.toList⟩]

def savedOutput (args : Arguments) (directory : List String) (s : Settings) : List Output :=
  (args.saveSettings.map fun path =>
    ⟨path, Text.utf8 (Yaml.dump (SettingsFile.document directory
      (some (Path.ofPlace (path.parent.place directory))) s)).toList⟩).toList

def outputs (args : Arguments) (directory : List String) : Plan → List Output
  | .listing _ => []
  | .documents s layout config => args.documentOutputs layout config ++ args.savedOutput directory s

/-- Paths on a command line are read from texts. -/
structure Named (args : Arguments) : Prop where
  outDir : args.outDir.Named
  saveSettings : ∀ path, args.saveSettings = some path → path.Named

theorem writeDocuments_delivered (h : tree.Proper) (hargs : args.Named) (layout config : String) :
    tree.Delivered
      [⟨args.layoutPath, Text.utf8 layout.toList⟩, ⟨args.configPath, Text.utf8 config.toList⟩]
      (args.writeDocuments layout config tree).ending (args.writeDocuments layout config tree).tree := by
  have hlayout : args.layoutPath.Named := hargs.outDir.join (Path.named_ofString _)
  have hconfig : args.configPath.Named := hargs.outDir.join (Path.named_ofString _)
  unfold writeDocuments
  rcases writeText_delivered h hlayout layout with ⟨next, hwrite, hfirst⟩ | ⟨next, fault, hwrite, hfirst⟩
  · obtain ⟨hproper, -⟩ := hfirst.keeps h
    simp only [hwrite]
    rcases writeText_delivered hproper hconfig config with ⟨last, hwrite', hsecond⟩ | ⟨last, fault, hwrite', hsecond⟩
    · simp only [hwrite']
      exact hfirst.append hsecond
    · simp only [hwrite']
      exact hfirst.append (hsecond _).2
  · simp only [hwrite]
    exact (hfirst _).2.more (hfirst _).1 _

theorem deliver_delivered (h : tree.Proper) (hargs : args.Named) (layout config : String) :
    tree.Delivered (args.documentOutputs layout config) (args.deliver layout config tree).ending
      (args.deliver layout config tree).tree := by
  unfold documentOutputs deliver
  split
  · exact .done tree
  · exact writeDocuments_delivered h hargs layout config

theorem saveSettings?_delivered (h : tree.Proper) (hargs : args.Named)
    (hwritable : ∀ directory base, (SettingsFile.document directory base s).isWritable) :
    tree.Delivered (args.savedOutput tree.working s) (args.saveSettings? s tree).ending
      (args.saveSettings? s tree).tree := by
  unfold savedOutput saveSettings?
  cases hsave : args.saveSettings with
  | none => exact .done tree
  | some path =>
    simp only [SettingsFile.save, FileTree.writeYaml, if_pos (hwritable _ _)]
    rcases writeText_delivered h (hargs.saveSettings path hsave) (Yaml.dump (SettingsFile.document tree.working
      (some (Path.ofPlace (path.parent.place tree.working))) s)) with
      ⟨next, hwrite, hwritten⟩ | ⟨next, fault, hwrite, hwritten⟩
    · simp only [hwrite]
      exact hwritten
    · simp only [hwrite]
      exact (hwritten _).2

/-- A plan whose settings can be saved. -/
inductive Savable : Plan → Prop
  | listing (text : String) : Savable (.listing text)
  | documents {s : Settings} (layout config : String)
    (h : ∀ directory base, (SettingsFile.document directory base s).isWritable) :
    Savable (.documents s layout config)

theorem carryOut_delivered (h : tree.Proper) (hargs : args.Named) {plan : Plan} (hplan : Savable plan) :
    tree.Delivered (args.outputs tree.working plan) (args.carryOut tree plan).ending
      (args.carryOut tree plan).tree := by
  cases hplan with
  | listing text => exact .done tree
  | @documents s layout config hwritable =>
    have hdeliver := deliver_delivered h hargs layout config
    simp only [carryOut, Report.andThen]
    split
    · next hdone =>
      rw [hdone] at hdeliver
      obtain ⟨hproper, hworking⟩ := hdeliver.keeps h
      have hsave := saveSettings?_delivered hproper hargs hwritable
      rw [hworking] at hsave
      exact hdeliver.append hsave
    · next hnot => exact hdeliver.more hnot _

theorem named_of_parse {words : List String} (h : parse words = .ok (.run args)) : args.Named := by
  refine parse_induction (fun args next switch argument hargs ha => ?_)
    ⟨Path.named_ofString _, by rintro _ ⟨⟩⟩ h
  cases switch with
  | outDir =>
    cases ha
    exact ⟨Path.named_ofString argument, hargs.saveSettings⟩
  | saveSettings =>
    cases ha
    refine ⟨hargs.outDir, fun path hpath => ?_⟩
    change optionalPath argument = some path at hpath
    unfold optionalPath at hpath
    split at hpath <;> cases hpath
    exact Path.named_ofString argument
  | theme | paper | exportKind | logLevel =>
    simp only [assign] at ha
    split at ha <;> cases ha
    exact ⟨hargs.outDir, hargs.saveSettings⟩
  | _ =>
    cases ha
    exact ⟨hargs.outDir, hargs.saveSettings⟩

variable {around : Surroundings}

/-- Loaded settings are built from an accepted document; the surroundings decide only how its uploads are called. -/
theorem loaded_build (h : (args.loaded around tree).result = .ok s) :
    ∃ value draft base, SettingsFile.checkDocument value = .ok draft ∧
      (draft.build tree base around.ids).result = .ok s ∧
      ∀ around', around'.shippedName = around.shippedName →
        ∀ t, (draft.build tree base around'.ids).result = .ok t → (args.loaded around' tree).result = .ok t := by
  unfold loaded at h ⊢
  cases hpath : args.settings with
  | none =>
    rw [hpath] at h
    obtain ⟨value, draft, hread, hd, hbuild⟩ := SettingsFile.loadShipped_eq_ok.1 h
    refine ⟨value, draft, _, hd, hbuild, fun around' hname t ht => ?_⟩
    rw [← hname] at ht
    exact SettingsFile.loadShipped_eq_ok.2 ⟨value, draft, hread, hd, ht⟩
  | some path =>
    rw [hpath] at h
    obtain ⟨hexists, value, draft, hread, hd, hbuild⟩ := SettingsFile.load_eq_ok.1 h
    exact ⟨value, draft, _, hd, hbuild, fun around' _ t ht =>
      SettingsFile.load_eq_ok.2 ⟨hexists, value, draft, hread, hd, ht⟩⟩

theorem drawable_of_loaded (h : (args.loaded around tree).result = .ok s) : s.Drawable := by
  obtain ⟨value, draft, base, hd, hbuild, -⟩ := loaded_build h
  exact SettingsFile.drawable_of_build hd hbuild

theorem isWritable_given {field : Field} {v : Value} (h : args.given field = some v) : v.isWritable := by
  cases field with
  | paperSize =>
    obtain ⟨size, -, rfl⟩ := Option.map_eq_some_iff.1 h
    rfl
  | printMode =>
    obtain ⟨-, he⟩ := Option.ite_none_right_eq_some.1 h
    cases he
    rfl
  | exportTypes =>
    obtain ⟨-, he⟩ := Option.ite_none_left_eq_some.1 h
    cases he
    exact Value.areWritable_texts args.exports
  | _ => cases h

theorem drawable_override (h : s.Drawable) (args : Arguments) : (args.override s).Drawable := by
  obtain ⟨enabled, hfold, -⟩ := Settings.foldl_setEnabled args.modules
    (args.revised ((args.theme.map s.applyTheme).getD s))
  have hthemed : ((args.theme.map s.applyTheme).getD s).Drawable := by
    cases args.theme with
    | none => exact h
    | some theme => exact h.applyTheme theme
  have hrevised : (args.revised ((args.theme.map s.applyTheme).getD s)).Drawable := by
    refine ⟨fun field hin => ?_, fun field hfield => ?_, ?_⟩
    · have hnone : args.given field = none := by
        revert hin
        cases field <;> first | exact fun _ => rfl | exact fun hin => absurd hin (by decide)
      rw [get_revised, hnone]
      exact hthemed.texts field hin
    · rw [get_revised]
      cases hgiven : args.given field with
      | none => exact hthemed.written field hfield
      | some v => exact isWritable_given hgiven
    · simp only [revised]
      split
      · exact hthemed.exports
      · exact List.forall_mem_map.2 fun _ _ => rfl
  rw [override_eq, hfold]
  exact hrevised.of_get (Settings.get_enabling _ enabled)

theorem columns_override (args : Arguments) (s : Settings) : (args.override s).legendColumns = s.legendColumns := by
  obtain ⟨enabled, hfold, -⟩ := Settings.foldl_setEnabled args.modules
    (args.revised ((args.theme.map s.applyTheme).getD s))
  rw [override_eq, hfold]
  cases args.theme <;> rfl

theorem enabled_override (h : ∀ id ∈ s.enabledModules, ∃ t, id = .text t) (args : Arguments) :
    ∀ id ∈ (args.override s).enabledModules, ∃ t, id = .text t := by
  have hfold (ids : List String) (s : Settings) (h : ∀ id ∈ s.enabledModules, ∃ t, id = .text t) :
      ∀ id ∈ (ids.foldl (fun s id => s.setEnabled id true) s).enabledModules, ∃ t, id = .text t := by
    induction ids generalizing s with
    | nil => exact h
    | cons first rest ih =>
      refine ih _ (List.forall_mem_append.2 ⟨fun id hin => h id (List.mem_of_mem_filter hin), ?_⟩)
      exact List.forall_mem_singleton.2 ⟨first, rfl⟩
  rw [override_eq]
  refine hfold args.modules _ ?_
  cases args.theme <;> exact h

/-- Whether a run on loaded settings has something to tell: it only lists, or the number of columns is short enough
to be written. -/
def hasAnswer (args : Arguments) (s : Settings) : Bool :=
  args.listModules || args.listThemes || s.legendColumns.isWritable

variable {files : List NewFile}

/-- Where settings and sources can be read, there is a plan, or else the number of columns is too long. -/
theorem plan_of_loaded (hs : (args.loaded around tree).result = .ok s) (hfiles : args.newFiles tree = .ok files) :
    (args.hasAnswer s → ∃ plan, (args.plan around tree).result = .ok plan ∧ Savable plan) ∧
      (args.hasAnswer s = false → (args.plan around tree).result = .error (.fault (.layout .longInteger))) := by
  have hloaded : ((args.loaded around tree).mapError Obstacle.ofLoad).result = .ok s := Except.mapError_eq_ok.2 hs
  unfold hasAnswer
  cases hmodules : args.listModules with
  | true =>
    exact ⟨fun _ => ⟨_, Logged.bind_eq_ok.2 ⟨s, hloaded, by rw [hmodules]; rfl⟩, .listing (moduleListing s)⟩, nofun⟩
  | false =>
    cases hthemes : args.listThemes with
    | true =>
      exact ⟨fun _ => ⟨_, Logged.bind_eq_ok.2 ⟨s, hloaded, by rw [hmodules, hthemes]; rfl⟩, .listing themeListing⟩,
        nofun⟩
    | false =>
      obtain ⟨value, draft, base, -, hbuild, -⟩ := loaded_build hs
      let ids (n : Nat) : String := around.ids ((args.override s).uploads.length + n)
      let t := (Session.addFiles ids ⟨args.override s, 0⟩ files).settings
      have hget : t.get = (args.override s).get := Session.get_addFiles ⟨args.override s, 0⟩ ids files
      have hdrawable : t.Drawable := (drawable_override (drawable_of_loaded hs) args).of_get hget
      have hcolumns : t.legendColumns = s.legendColumns :=
        (congrFun hget .legendColumns).trans (columns_override args s)
      have hplan := plan_result args ⟨hmodules, hthemes⟩ hs (withSources_result args hfiles (args.override s))
      rw [documents_of_drawable hdrawable, hcolumns] at hplan
      simp only [Bool.false_or]
      refine ⟨fun hwritable => ⟨_, hplan.trans (if_pos hwritable), ?_⟩, fun hlong => hplan.trans (if_neg ?_)⟩
      · have henabled : ∀ id ∈ t.enabledModules, ∃ name, id = .text name := by
          rw [Session.enabledModules_addFiles]
          exact enabled_override (SettingsFile.enabled_of_build hbuild) args
        exact .documents _ _ (SettingsFile.isWritable_document hdrawable (hcolumns ▸ hwritable) henabled)
      · rw [hlong]
        exact Bool.false_ne_true

theorem documents_of_plan {plan : Plan} (hlists : args.listModules = false ∧ args.listThemes = false)
    (h : (args.plan around tree).result = .ok plan) : ∃ s layout config, plan = .documents s layout config := by
  obtain ⟨-, t, -, -, hdocuments⟩ := (plan_eq_ok args hlists).1 h
  obtain ⟨layout, -, h⟩ := Logged.bind_eq_ok.1 hdocuments
  obtain ⟨config, -, h⟩ := Logged.bind_eq_ok.1 h
  cases h
  exact ⟨t, layout, config, rfl⟩

theorem run_planned {plan : Plan} (h : (args.plan around tree).result = .ok plan) :
    (args.run around tree).ending = (args.carryOut tree plan).ending ∧
      (args.run around tree).tree = (args.carryOut tree plan).tree ∧
      (args.run around tree).printed = (args.carryOut tree plan).printed := by
  unfold Arguments.run
  split
  · next heq =>
    rw [heq] at h
    cases h
  · next heq =>
    rw [heq] at h
    cases h
    exact ⟨rfl, rfl, rfl⟩

theorem run_unplanned {fault : Fault} (h : (args.plan around tree).result = .error (.fault fault)) :
    (args.run around tree).ending = .broken fault ∧ (args.run around tree).tree = tree := by
  unfold Arguments.run
  split
  · next heq =>
    rw [heq] at h
    cases h
    exact ⟨rfl, rfl⟩
  · next heq =>
    rw [heq] at h
    cases h

theorem ofArguments_report (hlog : args.logFile = none) (around : Surroundings) (tree : FileTree) :
    (Outcome.ofArguments around tree args).ending = (args.run around tree).ending ∧
      (Outcome.ofArguments around tree args).tree = (args.run around tree).tree ∧
      (Outcome.ofArguments around tree args).printed = (args.run around tree).printed := by
  have hrank : ∃ rank, Log.rankOf? args.logLevel.name = some rank := by
    rw [← Option.isSome_iff_exists]
    cases args.logLevel <;> decide
  obtain ⟨rank, hrank⟩ := hrank
  have hsetup : ∃ logger handlers, Log.Logger.setUp {} tree args.setUp = (tree, logger, .ok handlers) ∧
      logger.handlers = [.console false] := by
    unfold Log.Logger.setUp
    simp only [setUp, hlog, hrank]
    exact ⟨_, _, rfl, rfl⟩
  obtain ⟨logger, handlers, hsetup, hconsole⟩ := hsetup
  simp only [Outcome.ofArguments, hsetup, Outcome.writeLog, hconsole]
  exact ⟨trivial, rfl, trivial⟩

end Arguments

variable {around : Surroundings} {words : List String} {args : Arguments} {s : Settings} {files : List NewFile}

theorem run_eq (around : Surroundings) (tree : FileTree) (hparse : Arguments.parse words = .ok (.run args))
    (hlog : args.logFile = none) :
    (run around tree words).ending = (args.run around tree).ending ∧
      (run around tree words).tree = (args.run around tree).tree := by
  obtain ⟨hending, htree, -⟩ := Arguments.ofArguments_report hlog around tree
  simp only [run, hparse]
  exact ⟨hending, htree⟩

/-- Where settings and sources can be read and there is no log file, a run is done with all its outputs written, or
else the first output that cannot be written has ended it: by a report where writing is refused, and by a failure that
is not handled where it is blocked. Only a number of columns that is too long keeps a run from its outputs; it ends by
a failure that is not handled, and leaves all files alone. -/
theorem run_outputs (h : tree.Proper) (hparse : Arguments.parse words = .ok (.run args)) (hlog : args.logFile = none)
    (hs : (args.loaded around tree).result = .ok s) (hfiles : args.newFiles tree = .ok files) :
    (args.hasAnswer s → ∃ plan, (args.plan around tree).result = .ok plan ∧
      (((run around tree words).ending = .done ∧
          tree.WroteAll (args.outputs tree.working plan) (run around tree words).tree) ∨
        ∃ front output back between, args.outputs tree.working plan = front ++ output :: back ∧
          tree.WroteAll front between ∧ between.Ends output (run around tree words).ending)) ∧
    (args.hasAnswer s = false →
      (run around tree words).ending = .broken (.layout .longInteger) ∧ (run around tree words).tree = tree) := by
  obtain ⟨hending, htree⟩ := run_eq around tree hparse hlog
  obtain ⟨hplanned, hunplanned⟩ := Arguments.plan_of_loaded hs hfiles
  rw [hending, htree]
  refine ⟨fun hanswer => ?_, fun hlong => Arguments.run_unplanned (hunplanned hlong)⟩
  obtain ⟨plan, hplan, hsavable⟩ := hplanned hanswer
  obtain ⟨hcarryEnding, hcarryTree, -⟩ := Arguments.run_planned hplan
  rw [hcarryEnding, hcarryTree]
  exact ⟨plan, hplan, (Arguments.carryOut_delivered h (Arguments.named_of_parse hparse) hsavable).outcome⟩

/-- A settings file, a file, and directories in the places of a document and of a temporary file. -/
def occupied : FileTree :=
  { entries := [(["s.yaml"], .file (Text.utf8 "theme: blueprint_light".toList)), (["taken"], .file []),
      (["thconfig"], .directory), (["map.thl.tmp"], .directory)]
    working := [] }

def aside : Surroundings := ⟨.nan, 1, "shipped.yaml", fun _ => "id"⟩

def attempt (words : List String) : Outcome := run aside occupied words

/-- Whether a command line in `occupied` gets as far as its documents. -/
def goesAhead (words : List String) : Bool :=
  match Arguments.parse words with
  | .ok (.run args) => args.logFile.isNone && (args.newFiles occupied).toOption.isSome &&
      (args.loaded aside occupied).result.toOption.any args.hasAnswer
  | _ => false

def Ending.complaint? : Ending → Option String
  | broken fault => some fault.message
  | _ => none

def saving : Arguments := { settings := some (.ofString "s.yaml"), saveSettings := some (.ofString "t.yaml") }

theorem proper_occupied : occupied.Proper := .of_entries (by decide) (by decide)

theorem not_refuses_layout : ¬ occupied.Refuses (.ofString "layout.thl") := fun hrefuses => by
  obtain ⟨_, _, _, hwrite⟩ := FileTree.writeAtomically_refused proper_occupied hrefuses []
  have hok : (occupied.writeAtomically (.ofString "layout.thl") []).2.toOption.isSome := by decide +kernel
  rw [hwrite] at hok
  cases hok

/-- A directory stands where the second document belongs: the first one is written, and the second one ends the run by
a report. -/
theorem run_outputs_occupied :
    ∃ s plan layout config sheet between,
      Arguments.parse ["-c", "s.yaml", "--save-settings", "t.yaml"] = .ok (.run saving) ∧
      (saving.loaded aside occupied).result = .ok s ∧ saving.hasAnswer s ∧
      (saving.plan aside occupied).result = .ok plan ∧
      saving.outputs [] plan =
        [⟨.ofString "layout.thl", layout⟩, ⟨.ofString "thconfig", config⟩, ⟨.ofString "t.yaml", sheet⟩] ∧
      occupied.WroteAll [⟨.ofString "layout.thl", layout⟩] between ∧ between.Refuses (.ofString "thconfig") ∧
      (attempt ["-c", "s.yaml", "--save-settings", "t.yaml"]).ending = .failed := by
  have hparse : Arguments.parse ["-c", "s.yaml", "--save-settings", "t.yaml"] = .ok (.run saving) := rfl
  have hfiles : saving.newFiles occupied = .ok [] := rfl
  have hloads : (saving.loaded aside occupied).result.toOption.any saving.hasAnswer := by decide +kernel
  obtain ⟨s, hs, hanswer⟩ := (Option.any_eq_true ..).1 hloads
  have hs := Except.eq_ok hs
  obtain ⟨plan, hplan, houtcome⟩ := (run_outputs proper_occupied hparse rfl hs hfiles).1 hanswer
  obtain ⟨t, layout, config, rfl⟩ := Arguments.documents_of_plan ⟨rfl, rfl⟩ hplan
  have hends : (attempt ["-c", "s.yaml", "--save-settings", "t.yaml"]).ending.exitCode = 1 ∧
      (attempt ["-c", "s.yaml", "--save-settings", "t.yaml"]).ending.complaint? = none := by
    decide +kernel
  change (attempt ["-c", "s.yaml", "--save-settings", "t.yaml"]).ending = .done ∧ _ ∨
    ∃ front output back between, [_, _, _] = front ++ output :: back ∧ occupied.WroteAll front between ∧
      between.Ends output (attempt ["-c", "s.yaml", "--save-settings", "t.yaml"]).ending at houtcome
  generalize (attempt ["-c", "s.yaml", "--save-settings", "t.yaml"]).ending = ending at hends houtcome ⊢
  rcases houtcome with ⟨rfl, -⟩ | ⟨front, output, back, between, he, hfront, hended⟩
  · cases hends.1
  rcases hended with hrefuses | ⟨-, fault⟩
  swap
  · cases hends.2
  rcases front with _ | ⟨first, _ | ⟨second, rest⟩⟩
  · cases he
    cases hfront
    exact absurd hrefuses not_refuses_layout
  · cases he
    exact ⟨s, _, _, _, _, between, hparse, hs, hanswer, hplan, rfl, hfront, hrefuses, rfl⟩
  · simp only [List.cons_append, List.cons.injEq] at he
    obtain ⟨rfl, rfl, -⟩ := he
    obtain - | ⟨hadmits, hwrote, - | ⟨hadmits', -, -⟩⟩ := hfront
    have hthere := (hadmits'.ne_of_directory (hwrote.directories hadmits (q := ["thconfig"]) rfl)).1
    rw [hwrote.working] at hthere
    exact absurd rfl hthere

/-- Runs that are not ended by a report: a file stands where the output directory belongs, or above it, a directory
where the temporary file belongs, and a document has no name. -/
theorem run_escapes :
    (goesAhead ["-c", "s.yaml", "-o", "taken"] ∧
      (attempt ["-c", "s.yaml", "-o", "taken"]).ending.complaint? = some "File exists") ∧
    (goesAhead ["-c", "s.yaml", "-o", "taken/maps"] ∧
      (attempt ["-c", "s.yaml", "-o", "taken/maps"]).ending.complaint? = some "Not a directory") ∧
    (goesAhead ["-c", "s.yaml", "--layout-name", "map.thl"] ∧
      (attempt ["-c", "s.yaml", "--layout-name", "map.thl"]).ending.complaint? = some "Is a directory") ∧
    (goesAhead ["-c", "s.yaml", "--layout-name", ""] ∧
      (attempt ["-c", "s.yaml", "--layout-name", ""]).ending.complaint? =
        some "PosixPath('.') has an empty name") := by
  decide +kernel

end CommandLine

end CaveMap
