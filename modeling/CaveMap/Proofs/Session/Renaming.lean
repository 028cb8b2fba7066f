import CaveMap.Proofs.Session.History
import CaveMap.Proofs.SettingsFile.Saved
import Mathlib.Data.List.Forall2

namespace CaveMap

/-- Ids in one place of two lists, or one id that is in neither. -/
def Counterpart (olds news : List String) (id id' : String) : Prop :=
  (∃ place : Nat, olds[place]? = some id ∧ news[place]? = some id') ∨ id = id' ∧ id ∉ olds ∧ id' ∉ news

namespace Counterpart

variable {olds news : List String}

theorem symm {id id' : String} (h : Counterpart olds news id id') : Counterpart news olds id' id := by
  rcases h with ⟨place, hid, hid'⟩ | ⟨rfl, hid, hid'⟩
  · exact .inl ⟨place, hid', hid⟩
  · exact .inr ⟨rfl, hid', hid⟩

theorem leftUnique (hnews : news.Nodup) : Relator.LeftUnique (Counterpart olds news) := by
  intro id other id' hid hother
  rcases hid with ⟨place, hold, hnew⟩ | ⟨rfl, -, hnot⟩
  · rcases hother with ⟨place', hold', hnew'⟩ | ⟨rfl, -, hnot⟩
    · have hplace : place = place' :=
        (List.getElem?_inj (List.getElem?_eq_some_iff.1 hnew).1 hnews).1 (hnew.trans hnew'.symm)
      subst hplace
      exact Option.some.inj (hold.symm.trans hold')
    · exact absurd (List.mem_of_getElem? hnew) hnot
  · rcases hother with ⟨place', -, hnew'⟩ | ⟨rfl, -, -⟩
    · exact absurd (List.mem_of_getElem? hnew') hnot
    · rfl

theorem biUnique (holds : olds.Nodup) (hnews : news.Nodup) : Relator.BiUnique (Counterpart olds news) :=
  ⟨leftUnique hnews, fun _ _ _ h h' => leftUnique holds h.symm h'.symm⟩

theorem of_prefix {front front' : List String} (hlength : front.length = front'.length) (h : front <+: olds)
    (h' : front' <+: news) : List.Forall₂ (Counterpart olds news) front front' :=
  List.forall₂_iff_get.2 ⟨hlength, fun i hi hi' =>
    .inl ⟨i, List.prefix_iff_getElem?.1 h i hi, List.prefix_iff_getElem?.1 h' i hi'⟩⟩

end Counterpart

theorem rel_getElem?_map {α β γ δ : Type} {R : α → β → Prop} {S : γ → δ → Prop} {l : List α}
    {l' : List β} {f : α → γ} {g : β → δ} (h : List.Forall₂ R l l') (hfg : ∀ a b, R a b → S (f a) (g b))
    (place : Nat) : Option.Rel S (l[place]?.map f) (l'[place]?.map g) := by
  induction h generalizing place with
  | nil => exact .none
  | cons hfirst _ ih =>
    cases place with
    | zero => exact .some (hfg _ _ hfirst)
    | succ place => exact ih place

def Upload.Renamed (U : String → String → Prop) (u v : Upload) : Prop := ∃ id, U u.id id ∧ v = { u with id }

def MapModule.Renamed (M : String → String → Prop) (m n : MapModule) : Prop := ∃ id, M m.id id ∧ n = { m with id }

def Settings.withLists (s : Settings) (uploads : List Upload) (enabledModules : List Value)
    (customModules : List MapModule) : Settings :=
  { s with uploads, enabledModules, customModules }

/-- The same settings under related ids of uploads and modules. -/
structure Settings.Renamed (U M : String → String → Prop) (s t : Settings) : Prop where
  rest : ∃ uploads enabledModules customModules, t = s.withLists uploads enabledModules customModules
  uploads : List.Forall₂ (Upload.Renamed U) s.uploads t.uploads
  enabled : ∃ on on' : List String, List.Forall₂ M on on' ∧ on.Nodup ∧ s.enabledModules = on.map .text ∧
    t.enabledModules = on'.map .text
  customModules : List.Forall₂ (MapModule.Renamed M) s.customModules t.customModules

inductive Command.Renamed (U M : String → String → Prop) : Command → Command → Prop
  | addFiles (files) : Renamed U M (.addFiles files) (.addFiles files)
  | removeFile {id id'} (h : U id id') : Renamed U M (.removeFile id) (.removeFile id')
  | addModule (name code description) :
    Renamed U M (.addModule name code description) (.addModule name code description)
  | removeModule {id id'} (h : M id id') : Renamed U M (.removeModule id) (.removeModule id')
  | setEnabled {id id'} (h : M id id') (enabled) : Renamed U M (.setEnabled id enabled) (.setEnabled id' enabled)
  | updateSymbol (type changes) : Renamed U M (.updateSymbol type changes) (.updateSymbol type changes)
  | suggestColors (suggestions) : Renamed U M (.suggestColors suggestions) (.suggestColors suggestions)
  | applyTheme (theme) : Renamed U M (.applyTheme theme) (.applyTheme theme)

section

variable {U M : String → String → Prop} {s t : Settings} {id id' : String}

namespace Settings.Renamed

theorem symbols_eq (h : s.Renamed U M t) : t.symbols = s.symbols := by
  obtain ⟨_, _, _, rfl⟩ := h.rest
  rfl

theorem withSymbols (h : s.Renamed U M t) (symbols : SymbolTable) :
    Renamed U M { s with symbols } { t with symbols } := by
  obtain ⟨⟨_, _, _, rfl⟩, huploads, henabled, hcustom⟩ := h
  exact ⟨⟨_, _, _, rfl⟩, huploads, henabled, hcustom⟩

theorem addFile (h : s.Renamed U M t) (hid : U id id') (file : NewFile) :
    (s.addFile id file).Renamed U M (t.addFile id' file) := by
  obtain ⟨⟨_, _, _, rfl⟩, huploads, henabled, hcustom⟩ := h
  exact ⟨⟨_, _, _, rfl⟩, List.rel_append huploads (.cons ⟨id', hid, rfl⟩ .nil), henabled, hcustom⟩

theorem removeFile (hU : Relator.BiUnique U) (h : s.Renamed U M t) (hid : U id id') :
    (s.removeFile id).Renamed U M (t.removeFile id') := by
  obtain ⟨⟨_, _, _, rfl⟩, huploads, henabled, hcustom⟩ := h
  refine ⟨⟨_, _, _, rfl⟩, List.rel_filter ?_ huploads, henabled, hcustom⟩
  rintro u _ ⟨other, hother, rfl⟩
  simpa using not_congr (Relator.rel_eq hU hother hid)

theorem enabled_with (hM : Relator.BiUnique M) (h : s.Renamed U M t) (hid : M id id') :
    ∃ on on' : List String, List.Forall₂ M on on' ∧ on.Nodup ∧
      Value.distinct (s.enabledModules ++ [.text id]) = on.map .text ∧
      Value.distinct (t.enabledModules ++ [.text id']) = on'.map .text := by
  obtain ⟨on, on', hon, hnodup, he, he'⟩ := h.enabled
  have hmem : id ∈ on ↔ id' ∈ on' := List.rel_mem hM hid hon
  have hnodup' : on'.Nodup := (List.rel_nodup hM hon).1 hnodup
  rw [he, he', Value.distinct_append_singleton, Value.distinct_append_singleton, Value.distinct_texts hnodup,
    Value.distinct_texts hnodup', Value.any_text_equals, Value.any_text_equals]
  by_cases hin : id ∈ on
  · exact ⟨on, on', hon, hnodup, by simp [hin], by simp [hmem.1 hin]⟩
  · have hin' : id' ∉ on' := fun h => hin (hmem.2 h)
    refine ⟨on ++ [id], on' ++ [id'], List.rel_append hon (.cons hid .nil), ?_, by simp [hin], by simp [hin']⟩
    exact List.nodup_append'.2 ⟨hnodup, List.nodup_singleton _, List.disjoint_singleton.2 hin⟩

theorem addModule (hM : Relator.BiUnique M) (h : s.Renamed U M t) {m n : MapModule} (hmodule : m.Renamed M n) :
    (s.addModule m).Renamed U M (t.addModule n) := by
  obtain ⟨id', hid, rfl⟩ := hmodule
  have henabled := h.enabled_with hM hid
  obtain ⟨⟨_, _, _, rfl⟩, huploads, -, hcustom⟩ := h
  exact ⟨⟨_, _, _, rfl⟩, huploads, henabled, List.rel_append hcustom (.cons ⟨id', hid, rfl⟩ .nil)⟩

theorem enabled_without (hM : Relator.BiUnique M) (h : s.Renamed U M t) (hid : M id id') :
    ∃ on on' : List String, List.Forall₂ M on on' ∧ on.Nodup ∧ id ∉ on ∧
      withoutId s.enabledModules id = on.map .text ∧ withoutId t.enabledModules id' = on'.map .text := by
  obtain ⟨on, on', hon, hnodup, he, he'⟩ := h.enabled
  refine ⟨on.filter (· ≠ id), on'.filter (· ≠ id'), List.rel_filter ?_ hon, hnodup.filter _, by simp, ?_, ?_⟩
  · intro other other' hother
    simpa using not_congr (Relator.rel_eq hM hother hid)
  · rw [he, withoutId_texts]
  · rw [he', withoutId_texts]

theorem removeModule (hM : Relator.BiUnique M) (h : s.Renamed U M t) (hid : M id id') :
    (s.removeModule id).Renamed U M (t.removeModule id') := by
  obtain ⟨on, on', hon, hnodup, -, he, he'⟩ := h.enabled_without hM hid
  obtain ⟨⟨_, _, _, rfl⟩, huploads, -, hcustom⟩ := h
  refine ⟨⟨_, _, _, rfl⟩, huploads, ⟨on, on', hon, hnodup, he, he'⟩, List.rel_filter ?_ hcustom⟩
  rintro m _ ⟨other, hother, rfl⟩
  simpa using not_congr (Relator.rel_eq hM hother hid)

theorem setEnabled (hM : Relator.BiUnique M) (h : s.Renamed U M t) (hid : M id id') (enabled : Bool) :
    (s.setEnabled id enabled).Renamed U M (t.setEnabled id' enabled) := by
  obtain ⟨on, on', hon, hnodup, hnot, he, he'⟩ := h.enabled_without hM hid
  obtain ⟨⟨_, _, _, rfl⟩, huploads, -, hcustom⟩ := h
  refine ⟨⟨_, _, _, rfl⟩, huploads, ?_, hcustom⟩
  simp only [Settings.setEnabled]
  rw [he, he']
  cases enabled with
  | false => exact ⟨on, on', hon, hnodup, by simp, by simp⟩
  | true =>
    refine ⟨on ++ [id], on' ++ [id'], List.rel_append hon (.cons hid .nil), ?_, by simp, by simp⟩
    exact List.nodup_append'.2 ⟨hnodup, List.nodup_singleton _, List.disjoint_singleton.2 hnot⟩

theorem applyTheme (h : s.Renamed U M t) (theme : Theme) : (s.applyTheme theme).Renamed U M (t.applyTheme theme) := by
  obtain ⟨⟨_, _, _, rfl⟩, huploads, henabled, hcustom⟩ := h
  exact ⟨⟨_, _, _, rfl⟩, huploads, henabled, hcustom⟩

end Settings.Renamed

namespace Session

variable {ids ids' : Nat → String} {session session' : Session} {command command' : Command}

theorem addFiles_renamed (files : List NewFile) (h : session.settings.Renamed U M session'.settings)
    (hnew : List.Forall₂ U ((List.range' session.drawn files.length).map ids)
      ((List.range' session'.drawn files.length).map ids')) :
    (session.addFiles ids files).settings.Renamed U M (session'.addFiles ids' files).settings := by
  induction files generalizing session session' with
  | nil => exact h
  | cons file rest ih =>
    obtain ⟨hfirst, hrest⟩ := List.forall₂_cons.1 hnew
    exact @ih ⟨_, _⟩ ⟨_, _⟩ (h.addFile hfirst file) hrest

theorem newUploads_renamed (hc : command.Renamed U M command') : command'.newUploads = command.newUploads := by
  cases hc <;> rfl

theorem newModules_renamed (hc : command.Renamed U M command') : command'.newModules = command.newModules := by
  cases hc <;> rfl

/-- Two outcomes of a command: settings that are the same under related ids, or the same refusal. -/
inductive Alike (U M : String → String → Prop) : Except Command.Fault Session → Except Command.Fault Session → Prop
  | done {next next' : Session} (h : next.settings.Renamed U M next'.settings) : Alike U M (.ok next) (.ok next')
  | refused (fault : Command.Fault) : Alike U M (.error fault) (.error fault)

theorem Alike.outcome_eq {result result' : Except Command.Fault Session} (h : Alike U M result result') :
    (result.map fun _ => ()) = result'.map fun _ => () := by
  cases h <;> rfl

theorem Alike.after (h : session.settings.Renamed U M session'.settings)
    (hrun : Alike U M (session.run ids command).result (session'.run ids' command').result) :
    (after ids session command).settings.Renamed U M (after ids' session' command').settings := by
  unfold Session.after
  generalize (session.run ids command).result = result, (session'.run ids' command').result = result' at hrun
  cases hrun with
  | done hnext => exact hnext
  | refused fault => exact h

/-- A command has the same outcome under related ids, if the ids that it draws are related. -/
theorem run_renamed (hU : Relator.BiUnique U) (hM : Relator.BiUnique M)
    (h : session.settings.Renamed U M session'.settings) (hc : command.Renamed U M command')
    (huploads : List.Forall₂ U ((List.range' session.drawn command.newUploads).map ids)
      ((List.range' session'.drawn command'.newUploads).map ids'))
    (hmodules : List.Forall₂ M ((List.range' session.drawn command.newModules).map (MapModule.customId ∘ ids))
      ((List.range' session'.drawn command'.newModules).map (MapModule.customId ∘ ids'))) :
    Alike U M (session.run ids command).result (session'.run ids' command').result := by
  cases hc with
  | addFiles files => exact .done (addFiles_renamed files h huploads)
  | removeFile hid => exact .done (h.removeFile hU hid)
  | addModule name code description =>
    simp only [Command.newModules] at hmodules
    simp only [run]
    cases hname : Text.isBlankText name with
    | true => exact .refused _
    | false =>
      cases hcode : Text.isBlankText code with
      | true => exact .refused _
      | false =>
        rw [hname, hcode] at hmodules
        exact .done (h.addModule hM ⟨_, (List.forall₂_cons.1 hmodules).1, rfl⟩)
  | removeModule hid => exact .done (h.removeModule hM hid)
  | setEnabled hid enabled => exact .done (h.setEnabled hM hid enabled)
  | updateSymbol type changes =>
    simp only [run, h.symbols_eq]
    cases session.settings.symbols.get? type with
    | none => exact .refused _
    | some override =>
      dsimp only
      split
      · exact .refused _
      · cases override.revise changes with
        | error fault => exact .refused _
        | ok revised => exact .done (h.withSymbols _)
  | suggestColors suggestions =>
    refine .done ?_
    simp only [Settings.suggestColors, h.symbols_eq]
    exact h.withSymbols _
  | applyTheme theme => exact .done (h.applyTheme theme)

end Session

namespace Settings.Renamed

theorem isEnabled_eq (hM : Relator.BiUnique M) (h : s.Renamed U M t) (hid : M id id') :
    s.isEnabled id = t.isEnabled id' := by
  obtain ⟨on, on', hon, -, he, he'⟩ := h.enabled
  have hmem : id ∈ on ↔ id' ∈ on' := List.rel_mem hM hid hon
  rw [isEnabled, isEnabled, he, he', Value.any_equals_texts, Value.any_equals_texts, decide_eq_decide]
  exact hmem

theorem enabledModules (hM : Relator.BiUnique M) (hbuiltin : ∀ m ∈ MapModule.builtins, M m.id m.id)
    (h : s.Renamed U M t) :
    List.Forall₂ (MapModule.Renamed M) (Layout.enabledModules s) (Layout.enabledModules t) := by
  have hbuiltins : List.Forall₂ (MapModule.Renamed M) MapModule.builtins MapModule.builtins :=
    List.forall₂_same.2 fun m hin => ⟨m.id, hbuiltin m hin, rfl⟩
  refine List.rel_filter ?_ (List.rel_append hbuiltins h.customModules)
  rintro m _ ⟨id', hid, rfl⟩
  exact Bool.eq_iff_iff.1 (h.isEnabled_eq hM hid)

theorem code_eq {modules modules' : List MapModule} (h : List.Forall₂ (MapModule.Renamed M) modules modules') :
    modules.map (·.code) = modules'.map (·.code) := by
  induction h with
  | nil => rfl
  | cons hfirst _ ih =>
    obtain ⟨_, -, rfl⟩ := hfirst
    rw [List.map_cons, List.map_cons, ih]

theorem layout_eq (hM : Relator.BiUnique M) (hbuiltin : ∀ m ∈ MapModule.builtins, M m.id m.id)
    (h : s.Renamed U M t) : Layout.generate s = Layout.generate t := by
  have henabled := h.enabledModules hM hbuiltin
  have hmodules : Layout.modules s = Layout.modules t := by
    rw [Layout.modules, Layout.modules, MapModule.joinedCode, MapModule.joinedCode, code_eq henabled]
  obtain ⟨uploads, on, customs, rfl⟩ := h.rest
  have hsections : Layout.sections s = Layout.sections (s.withLists uploads on customs) := by
    unfold Layout.sections
    rw [hmodules]
    rfl
  unfold Layout.generate
  rw [hsections, henabled.length_eq]

theorem sourceNames_eq {uploads uploads' : List Upload} (h : List.Forall₂ (Upload.Renamed U) uploads uploads') :
    (uploads.filter (·.kind = .source)).map (·.fileName) = (uploads'.filter (·.kind = .source)).map (·.fileName) := by
  induction h with
  | nil => rfl
  | cons hfirst _ ih =>
    obtain ⟨_, -, rfl⟩ := hfirst
    rw [List.filter_cons, List.filter_cons]
    split
    · rw [List.map_cons, List.map_cons, ih]
    · exact ih

theorem config_eq (h : s.Renamed U M t) (name : String) : Config.generate s name = Config.generate t name := by
  have hsources : s.sourceFiles.map (·.fileName) = t.sourceFiles.map (·.fileName) := sourceNames_eq h.uploads
  obtain ⟨uploads, on, customs, rfl⟩ := h.rest
  exact Config.generate_congr (s := s.withLists uploads on customs) (t := s) rfl rfl rfl hsources name

end Settings.Renamed

namespace Session.History

open Function

variable {ids ids' : Nat → String} {all all' h h' : History}

/-- Two runs that are the same up to ids; those in the same place of the whole runs are related. -/
structure Renamed (all all' h h' : History) : Prop where
  settings : h.session.settings.Renamed (Counterpart all.uploads all'.uploads)
    (Counterpart all.modules all'.modules) h'.session.settings
  uploads : List.Forall₂ (Counterpart all.uploads all'.uploads) h.uploads h'.uploads
  modules : List.Forall₂ (Counterpart all.modules all'.modules) h.modules h'.modules

theorem Renamed.start (all all' : History) : Renamed all all' {} {} where
  settings := ⟨⟨_, _, _, rfl⟩, .nil, ⟨[], [], .nil, List.nodup_nil, rfl, rfl⟩, .nil⟩
  uploads := .nil
  modules := .nil

theorem Renamed.command (hh : Renamed all all' h h') {step : Step} (hstep : step.Avoids all)
    (hstep' : step.Avoids all') :
    Option.Rel (Command.Renamed (Counterpart all.uploads all'.uploads) (Counterpart all.modules all'.modules))
      (h.command? step) (h'.command? step) := by
  cases step with
  | plain command =>
    refine .some ?_
    cases command with
    | addFiles files => exact .addFiles files
    | removeFile id => exact .removeFile (.inr ⟨rfl, hstep, hstep'⟩)
    | addModule name code description => exact .addModule name code description
    | removeModule id => exact .removeModule (.inr ⟨rfl, hstep, hstep'⟩)
    | setEnabled id enabled => exact .setEnabled (.inr ⟨rfl, hstep, hstep'⟩) enabled
    | updateSymbol type changes => exact .updateSymbol type changes
    | suggestColors suggestions => exact .suggestColors suggestions
    | applyTheme theme => exact .applyTheme theme
  | removeFile place => exact rel_getElem?_map hh.uploads (fun _ _ => .removeFile) place
  | removeModule place => exact rel_getElem?_map hh.modules (fun _ _ => .removeModule) place
  | setEnabled place enabled => exact rel_getElem?_map hh.modules (fun _ _ hid => .setEnabled hid enabled) place

/-- Related commands have the same outcome in two such runs, and keep them the same. -/
theorem Renamed.extend (hd : all.Distinct ids) (hd' : all'.Distinct ids') (hh : Renamed all all' h h')
    {command command' : Command}
    (hc : command.Renamed (Counterpart all.uploads all'.uploads) (Counterpart all.modules all'.modules) command')
    (hp : (h.extend (after ids h.session command)).uploads <+: all.uploads ∧
      (h.extend (after ids h.session command)).modules <+: all.modules)
    (hp' : (h'.extend (after ids' h'.session command')).uploads <+: all'.uploads ∧
      (h'.extend (after ids' h'.session command')).modules <+: all'.modules) :
    ((h.session.run ids command).result.map fun _ => ()) = ((h'.session.run ids' command').result.map fun _ => ()) ∧
      Renamed all all' (h.extend (after ids h.session command)) (h'.extend (after ids' h'.session command')) := by
  have huploads : List.Forall₂ (Counterpart all.uploads all'.uploads) (h.extend (after ids h.session command)).uploads
      (h'.extend (after ids' h'.session command')).uploads := by
    refine Counterpart.of_prefix ?_ hp.1 hp'.1
    rw [uploads_extend, uploads_extend, newUploads_renamed hc]
    simp [hh.uploads.length_eq]
  have hmodules : List.Forall₂ (Counterpart all.modules all'.modules) (h.extend (after ids h.session command)).modules
      (h'.extend (after ids' h'.session command')).modules := by
    refine Counterpart.of_prefix ?_ hp.2 hp'.2
    rw [modules_extend, modules_extend, newModules_renamed hc]
    simp [hh.modules.length_eq]
  have hnew := List.forall₂_drop h.uploads.length huploads
  have hnewModules := List.forall₂_drop h.modules.length hmodules
  rw [uploads_extend, uploads_extend, List.drop_left, hh.uploads.length_eq, List.drop_left] at hnew
  rw [modules_extend, modules_extend, List.drop_left, hh.modules.length_eq, List.drop_left] at hnewModules
  have hrun := run_renamed (Counterpart.biUnique hd.uploads.1 hd'.uploads.1)
    (Counterpart.biUnique hd.modules.1 hd'.modules.1) hh.settings hc hnew hnewModules
  exact ⟨hrun.outcome_eq, hrun.after hh.settings, huploads, hmodules⟩

theorem Renamed.next (hd : all.Distinct ids) (hd' : all'.Distinct ids') (hh : Renamed all all' h h') {step : Step}
    (hstep : step.Avoids all) (hstep' : step.Avoids all')
    (hp : (h.next ids step).uploads <+: all.uploads ∧ (h.next ids step).modules <+: all.modules)
    (hp' : (h'.next ids' step).uploads <+: all'.uploads ∧ (h'.next ids' step).modules <+: all'.modules) :
    h.outcome? ids step = h'.outcome? ids' step ∧ Renamed all all' (h.next ids step) (h'.next ids' step) := by
  have hcommand := hh.command hstep hstep'
  unfold History.next at hp hp' ⊢
  unfold outcome?
  generalize h.command? step = command, h'.command? step = command' at hcommand hp hp'
  cases hcommand with
  | none => exact ⟨rfl, hh⟩
  | some hc =>
    obtain ⟨houtcome, hnext⟩ := hh.extend hd hd' hc hp hp'
    exact ⟨congrArg some houtcome, hnext⟩

theorem Distinct.builtin_not_mem (hd : h.Distinct ids) {m : MapModule} (hm : m ∈ MapModule.builtins) :
    m.id ∉ h.modules := by
  intro hin
  obtain ⟨n, -, he⟩ := hd.modules.2 m.id hin
  simp only [MapModule.builtins, List.mem_cons, List.not_mem_nil, or_false] at hm
  have hlist : m.id.toList = "custom_".toList ++ (ids n).toList := by simp [he, MapModule.customId]
  rcases hm with rfl | rfl | rfl <;> simp at hlist

section

variable {steps : List Step} (hids : Injective ids) (hids' : Injective ids')
  (hfresh : ∀ step ∈ steps, step.Avoids (reach ids steps))
  (hfresh' : ∀ step ∈ steps, step.Avoids (reach ids' steps))

include hids hids' hfresh hfresh'

theorem Renamed.reach_concat {earlier : List Step} {step : Step} (hp : earlier ++ [step] <+: steps)
    (hh : Renamed (reach ids steps) (reach ids' steps) (reach ids earlier) (reach ids' earlier)) :
    (reach ids earlier).outcome? ids step = (reach ids' earlier).outcome? ids' step ∧
      Renamed (reach ids steps) (reach ids' steps) (reach ids (earlier ++ [step]))
        (reach ids' (earlier ++ [step])) := by
  have hin : step ∈ steps := hp.subset List.mem_concat_self
  have hreach := reach_prefix ids hp
  have hreach' := reach_prefix ids' hp
  rw [History.reach_concat] at hreach hreach' ⊢
  rw [History.reach_concat]
  exact hh.next (reach_distinct hids steps) (reach_distinct hids' steps) (hfresh step hin) (hfresh' step hin) hreach
    hreach'

theorem reach_renamed {earlier : List Step} (hp : earlier <+: steps) :
    Renamed (reach ids steps) (reach ids' steps) (reach ids earlier) (reach ids' earlier) := by
  induction earlier using List.reverseRecOn with
  | nil => exact .start _ _
  | append_singleton earlier step ih =>
    exact (Renamed.reach_concat hids hids' hfresh hfresh' hp (ih ((List.prefix_append _ _).trans hp))).2

end

/-- Two supplies of distinct ids give the same outcomes and the same documents all along, whatever the steps are, as
long as they name what they have created by its place, or by ids that neither run creates. -/
theorem documents_independent_of_ids (hids : Injective ids) (hids' : Injective ids') (steps : List Step)
    (hfresh : ∀ step ∈ steps, step.Avoids (reach ids steps))
    (hfresh' : ∀ step ∈ steps, step.Avoids (reach ids' steps)) :
    (∀ earlier step, earlier ++ [step] <+: steps →
      (reach ids earlier).outcome? ids step = (reach ids' earlier).outcome? ids' step) ∧
    ∀ earlier, earlier <+: steps →
      Layout.generate (reach ids earlier).session.settings = Layout.generate (reach ids' earlier).session.settings ∧
      ∀ name, Config.generate (reach ids earlier).session.settings name =
        Config.generate (reach ids' earlier).session.settings name := by
  have hd := reach_distinct hids steps
  have hd' := reach_distinct hids' steps
  constructor
  · intro earlier step hp
    have hh := reach_renamed hids hids' hfresh hfresh' ((List.prefix_append earlier [step]).trans hp)
    exact (Renamed.reach_concat hids hids' hfresh hfresh' hp hh).1
  · intro earlier hp
    have hsettings := (reach_renamed hids hids' hfresh hfresh' hp).settings
    exact ⟨hsettings.layout_eq (Counterpart.biUnique hd.modules.1 hd'.modules.1) fun m hm =>
      .inr ⟨rfl, hd.builtin_not_mem hm, hd'.builtin_not_mem hm⟩, hsettings.config_eq⟩

def tally (letter : Char) (n : Nat) : String := String.ofList (List.replicate n letter)

theorem tally_injective (letter : Char) : Injective (tally letter) := by
  intro m n h
  simpa [tally] using congrArg String.length h

def comingAndGoing : List Step :=
  [.plain (.addFiles [⟨"cave.th", "survey cave", none⟩, ⟨"plan.th2", "line wall", none⟩]),
   .plain (.addModule "Walls" "code metapost" ""), .plain (.setEnabled "a_sand_wiki" true), .setEnabled 0 false,
   .setEnabled 0 true, .removeFile 0, .removeModule 0, .plain (.removeFile "cave"), .removeFile 7]

theorem documents_independent_of_ids_tally :
    (∀ earlier step, earlier ++ [step] <+: comingAndGoing →
      (reach (tally 'a') earlier).outcome? (tally 'a') step =
        (reach (tally 'b') earlier).outcome? (tally 'b') step) ∧
    ∀ earlier, earlier <+: comingAndGoing →
      Layout.generate (reach (tally 'a') earlier).session.settings =
        Layout.generate (reach (tally 'b') earlier).session.settings ∧
      ∀ name, Config.generate (reach (tally 'a') earlier).session.settings name =
        Config.generate (reach (tally 'b') earlier).session.settings name :=
  documents_independent_of_ids (tally_injective 'a') (tally_injective 'b') comingAndGoing (by decide +kernel)
    (by decide +kernel)

end Session.History

end

end CaveMap
