import CaveMap.Proofs.CommandLine.Delivery

namespace CaveMap.CommandLine

namespace Arguments

variable {args next final : Arguments} {words : List (String × Word)}

def dry (args : Arguments) : Arguments := { args with dryRun := true }

theorem assign_dry {switch : Switch} {text : String} (h : args.assign switch text = .ok next) :
    args.dry.assign switch text = .ok next.dry := by
  cases switch with
  | theme | paper | logLevel =>
    simp only [assign] at h ⊢
    split at h <;> cases h
    rfl
  | exportKind =>
    simp only [assign] at h ⊢
    split at h
    · next hin =>
      cases h
      rw [if_pos hin]
      rfl
    · cases h
  | _ =>
    cases h
    rfl

theorem Accepted.dry (h : Accepted args words final) : Accepted args.dry words final.dry := by
  induction h with
  | nil args => exact .nil args.dry
  | switch known noHelp supplied assigned _ ih => exact .switch known noHelp supplied (assign_dry assigned) ih

/-- The switch for a dry run may stand behind any part of a command line that is accepted by itself. -/
theorem parse_dryRun {front back : List String} {first : Arguments} (hfront : parse front = .ok (.run first))
    (h : parse (front ++ back) = .ok (.run args)) : parse (front ++ "--dry-run" :: back) = .ok (.run args.dry) := by
  rw [parse_append hfront] at h ⊢
  obtain ⟨words, hwords, hread⟩ := Except.bind_eq_ok.1 h
  have hword : Word.ofText "--dry-run" = .ok (.spelled .dryRun false none) := rfl
  have hdry : classified ("--dry-run" :: back) = .ok (("--dry-run", .spelled .dryRun false none) :: words) := by
    rw [classified, if_neg (by decide), hword, hwords]
    rfl
  have hswitch : Accepted first (("--dry-run", .spelled .dryRun false none) :: words) args.dry :=
    .switch rfl rfl (.none rfl) rfl (accepted_of_read hread).2.dry
  rw [hdry]
  exact hswitch.read

variable {s t : Settings} {tree : FileTree} {around around' : Surroundings} {layout config : String}

theorem anonymous_override (args : Arguments) (s : Settings) :
    (args.override s).anonymous = args.override s.anonymous := by
  have hfold (ids : List String) (s : Settings) : (ids.foldl (fun s id => s.setEnabled id true) s).anonymous =
      ids.foldl (fun s id => s.setEnabled id true) s.anonymous := by
    induction ids generalizing s with
    | nil => rfl
    | cons first rest ih => exact ih (s.setEnabled first true)
  rw [override_eq, override_eq, hfold]
  cases args.theme <;> rfl

theorem documents_anonymous {drawn : Settings} (h : t.anonymous = s.anonymous)
    (hs : (args.documents s).result = .ok (.documents drawn layout config)) :
    (args.documents t).result = .ok (.documents t layout config) := by
  obtain ⟨_, hlayout, hs⟩ := Logged.bind_eq_ok.1 hs
  obtain ⟨_, hconfig, hs⟩ := Logged.bind_eq_ok.1 hs
  cases hs
  have hsameLayout : (Layout.generate t).result = (Layout.generate s).result := by
    rw [← Layout.generate_anonymous, h, Layout.generate_anonymous]
  have hsameConfig : Config.generate t args.layoutName = Config.generate s args.layoutName := by
    rw [← Config.generate_anonymous, h, Config.generate_anonymous]
  refine Logged.bind_eq_ok.2 ⟨layout, ?_, Logged.bind_eq_ok.2 ⟨config, ?_, rfl⟩⟩
  · rw [Logged.mapError, hsameLayout]
    exact hlayout
  · rw [hsameConfig]
    exact hconfig

theorem loaded_surroundings (hname : around'.shippedName = around.shippedName)
    (h : (args.loaded around tree).result = .ok s) :
    ∃ t, (args.loaded around' tree).result = .ok t ∧ t.anonymous = s.anonymous := by
  obtain ⟨value, draft, base, -, hbuild, hload⟩ := loaded_build h
  obtain ⟨start, files, hstart, hfiles, rfl⟩ := SettingsFile.Draft.build_eq_ok.1 hbuild
  exact ⟨_, hload around' hname _ (SettingsFile.Draft.build_eq_ok.2 ⟨start, files, hstart, hfiles, rfl⟩),
    Session.anonymous_addFiles_congr rfl⟩

theorem plan_surroundings (hlists : args.listModules = false ∧ args.listThemes = false)
    (hname : around'.shippedName = around.shippedName)
    (h : (args.plan around tree).result = .ok (.documents s layout config)) :
    ∃ t, (args.plan around' tree).result = .ok (.documents t layout config) := by
  obtain ⟨start, _, hloaded, hsources, hdocuments⟩ := (plan_eq_ok args hlists).1 h
  obtain ⟨files, hfiles, hadded⟩ := Logged.bind_eq_ok.1 hsources
  have hnew : args.newFiles tree = .ok files := Except.mapError_eq_ok.1 hfiles
  obtain ⟨start', hloaded', hstart⟩ := loaded_surroundings hname hloaded
  have hoverride : (args.override start').anonymous = (args.override start).anonymous := by
    rw [anonymous_override, hstart, ← anonymous_override]
  cases hadded
  exact ⟨_, (plan_eq_ok args hlists).2 ⟨start', _, hloaded', withSources_result args hnew _,
    documents_anonymous (Session.anonymous_addFiles_congr hoverride) hdocuments⟩⟩

/-- Arguments that ask for the two documents to be written and for nothing else. -/
structure Writes (args : Arguments) : Prop where
  dryRun : args.dryRun = false
  listModules : args.listModules = false
  listThemes : args.listThemes = false
  saveSettings : args.saveSettings = none
  logFile : args.logFile = none

/-- The two documents in different places, and the first one not in that of the temporary file of the second. -/
structure Apart (args : Arguments) (directory : List String) : Prop where
  documents : args.layoutPath.place directory ≠ args.configPath.place directory
  temporary : args.layoutPath.place directory ≠ args.configPath.temporary.place directory

theorem carryOut_unsaved (h : args.saveSettings = none) (tree : FileTree) (s : Settings) (layout config : String) :
    (args.carryOut tree (.documents s layout config)).ending = (args.deliver layout config tree).ending ∧
      (args.carryOut tree (.documents s layout config)).tree = (args.deliver layout config tree).tree ∧
      (args.carryOut tree (.documents s layout config)).printed = (args.deliver layout config tree).printed := by
  simp only [carryOut, Report.andThen, saveSettings?, h]
  split
  · next hdone => exact ⟨hdone.symm, rfl, String.append_empty⟩
  · exact ⟨rfl, rfl, rfl⟩

theorem plan_of_done (h : (args.run around tree).ending = .done) :
    ∃ plan, (args.plan around tree).result = .ok plan := by
  unfold Arguments.run at h
  split at h
  · next obstacle _ _ => cases obstacle <;> cases h
  · next plan _ hplan => exact ⟨plan, by rw [hplan]⟩

theorem writeDocuments_read (htree : tree.Proper) (hargs : args.Named) (hapart : args.Apart tree.working)
    (hdone : (args.writeDocuments layout config tree).ending = .done) :
    (args.writeDocuments layout config tree).tree.read args.layoutPath = .ok (Text.utf8 layout.toList) ∧
      (args.writeDocuments layout config tree).tree.read args.configPath = .ok (Text.utf8 config.toList) := by
  have hdelivered := writeDocuments_delivered htree hargs layout config
  rw [hdone] at hdelivered
  rcases hdelivered.outcome with ⟨-, hall⟩ | ⟨_, _, _, _, -, -, hends⟩
  · generalize (args.writeDocuments layout config tree).tree = after at hall
    obtain - | ⟨hadmits, hwrote, - | ⟨hadmits', hwrote', ⟨⟩⟩⟩ := hall
    exact ⟨hwrote.read_kept hadmits hwrote' hadmits' hapart.documents hapart.temporary, hwrote'.read hadmits'⟩
  · cases hends

theorem run_written (htree : tree.Proper) (hargs : args.Named) (hwrites : args.Writes)
    (hapart : args.Apart tree.working) (hdone : (args.run around tree).ending = .done) :
    ∃ s layout config, (args.plan around tree).result = .ok (.documents s layout config) ∧
      (args.run around tree).tree.read args.layoutPath = .ok (Text.utf8 layout.toList) ∧
      (args.run around tree).tree.read args.configPath = .ok (Text.utf8 config.toList) := by
  obtain ⟨plan, hplan⟩ := plan_of_done hdone
  obtain ⟨s, layout, config, rfl⟩ := documents_of_plan ⟨hwrites.listModules, hwrites.listThemes⟩ hplan
  obtain ⟨hending, hafter, -⟩ := run_planned hplan
  obtain ⟨hcarryEnding, hcarryTree, -⟩ := carryOut_unsaved hwrites.saveSettings tree s layout config
  have hdeliver : args.deliver layout config tree = args.writeDocuments layout config tree := by
    rw [deliver, hwrites.dryRun]
    rfl
  rw [hending, hcarryEnding, hdeliver] at hdone
  rw [hafter, hcarryTree, hdeliver]
  exact ⟨s, layout, config, hplan, writeDocuments_read htree hargs hapart hdone⟩

theorem run_dry (hplan : (args.plan around tree).result = .ok (.documents s layout config))
    (hsave : args.saveSettings = none) :
    (args.dry.run around tree).ending = .done ∧ (args.dry.run around tree).tree = tree ∧
      (args.dry.run around tree).printed = args.dryRunText layout config := by
  have hsame : (args.dry.plan around tree).result = .ok (.documents s layout config) := hplan
  obtain ⟨hending, htree, hprinted⟩ := run_planned hsame
  obtain ⟨hcarryEnding, hcarryTree, hcarryPrinted⟩ :=
    carryOut_unsaved (show args.dry.saveSettings = none from hsave) tree s layout config
  rw [hending, htree, hprinted, hcarryEnding, hcarryTree, hcarryPrinted]
  exact ⟨rfl, rfl, rfl⟩

end Arguments

open Arguments

variable {tree : FileTree} {around around' : Surroundings} {front back : List String} {first args : Arguments}

theorem Ending.eq_done {ending : Ending} (h : ending.exitCode = 0) : ending = .done := by
  cases ending <;> first | rfl | cases h

/-- Whether a command line in `occupied` asks for two documents in places of their own and for nothing else. -/
def onlyWrites (words : List String) : Bool :=
  match parse words with
  | .ok (.run args) =>
    !args.dryRun && !args.listModules && !args.listThemes && args.saveSettings.isNone && args.logFile.isNone &&
      args.layoutPath.place [] ≠ args.configPath.place [] &&
      args.layoutPath.place [] ≠ args.configPath.temporary.place []
  | _ => false

theorem exists_writes {words : List String} (h : onlyWrites words) :
    ∃ args, parse words = .ok (.run args) ∧ args.Writes ∧ args.Apart [] := by
  unfold onlyWrites at h
  split at h
  · next args hparse =>
    simp only [Bool.and_eq_true, Bool.not_eq_true', Option.isNone_iff_eq_none, decide_eq_true_eq] at h
    obtain ⟨⟨⟨⟨⟨⟨hdry, hmodules⟩, hthemes⟩, hsave⟩, hlog⟩, hdocuments⟩, htemporary⟩ := h
    exact ⟨args, hparse, ⟨hdry, hmodules, hthemes, hsave, hlog⟩, ⟨hdocuments, htemporary⟩⟩
  · cases h

def repeated (words : List String) : Outcome := run ⟨.nan, 2, "shipped.yaml", fun _ => "other"⟩ occupied words

end CaveMap.CommandLine
