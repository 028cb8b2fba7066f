import CaveMap.Proofs.Logged
import CaveMap.Proofs.Settings.Revise
import CaveMap.SettingsFile.File

namespace CaveMap

namespace SettingsFile

namespace Draft

variable {draft : Draft} {s t : Settings}

theorem themed_eq_ok : draft.themed s = .ok t ↔ (draft.theme = none ∧ t = s) ∨
    ∃ id theme, draft.theme = some id ∧ Theme.ofId? id = some theme ∧ t = s.applyTheme theme := by
  unfold themed
  cases draft.theme with
  | none => simp [pure, Except.pure, eq_comm]
  | some id =>
    cases h : Theme.ofId? id with
    | none => simp [h, throw, throwThe, MonadExceptOf.throw]
    | some theme => simp [h, pure, Except.pure, eq_comm]

def furnish (draft : Draft) (s : Settings) : Settings :=
  { s with
    customModules := draft.modules
    enabledModules := Value.distinct (draft.enabledIds.map .text)
    symbols := draft.overrides }

theorem settings_eq_ok : draft.settings = .ok s ↔
    ∃ base themed, Settings.default.revise { scalars := draft.scalars } = .ok base ∧
      draft.themed base = .ok themed ∧ firstRepeated? [] (draft.modules.map (·.id)) = none ∧
      s = draft.furnish themed := by
  unfold settings
  cases hbase : Settings.default.revise { scalars := draft.scalars } with
  | error => simp [bind, Except.bind, Except.mapError]
  | ok base =>
    cases hthemed : draft.themed base with
    | error => simp [bind, Except.bind, Except.mapError, hthemed]
    | ok themed =>
      cases hids : firstRepeated? [] (draft.modules.map (·.id)) with
      | some => simp [bind, Except.bind, Except.mapError, hthemed, throw, throwThe, MonadExceptOf.throw]
      | none =>
        simp [bind, Except.bind, Except.mapError, hthemed, pure, Except.pure, furnish, eq_comm]

theorem uploads_of_settings (h : draft.settings = .ok s) : s.uploads = [] := by
  obtain ⟨base, themed, hbase, hthemed, -, rfl⟩ := settings_eq_ok.1 h
  have huploads : base.uploads = [] := (Settings.revise_eq_ok hbase).uploads
  rcases themed_eq_ok.1 hthemed with ⟨-, rfl⟩ | ⟨-, -, -, -, rfl⟩ <;> exact huploads

theorem build_eq_ok {tree : FileTree} {base : Path} {ids : Nat → String} :
    (draft.build tree base ids).result = .ok s ↔
      ∃ start files, draft.settings = .ok start ∧ draft.sources.mapM (readSource tree base) = .ok files ∧
        s = (Session.addFiles ids { settings := start } files).settings := by
  unfold build
  simp only [Logged.bind_eq_ok, Logged.ofExcept, Except.mapError_eq_ok, Except.ok.injEq, eq_comm (a := s)]
  tauto

end Draft

variable {tree : FileTree} {ids : Nat → String} {s : Settings}

theorem settingsOf_eq_ok {name : String} {base : Path} {value : Value} :
    (settingsOf tree name base ids value).result = .ok s ↔
      ∃ draft, checkDocument value = .ok draft ∧ (draft.build tree base ids).result = .ok s := by
  unfold settingsOf
  split
  · simp [Logged.fail, checkDocument, checkRecord, Check.complain, bind, Except.bind, throw, throwThe,
      MonadExceptOf.throw]
  · simp only [Logged.bind_eq_ok, Logged.ofExcept, Logged.mapError, Logged.record, Except.mapError_eq_ok]
    simp [pure]
  · next hnull hmap =>
    have hrejected (draft : Draft) : checkDocument value ≠ .ok draft := by
      cases value with
      | map entries => exact absurd rfl (hmap entries)
      | _ => simp [checkDocument, checkRecord, Check.complain, bind, Except.bind, throw, throwThe,
          MonadExceptOf.throw]
    simp [Logged.fail, hrejected]

theorem load_eq_ok {path : Path} :
    (load tree path ids).result = .ok s ↔
      tree.exists? path = .ok true ∧ ∃ value draft, tree.readYaml path = .ok value ∧
        checkDocument value = .ok draft ∧ (draft.build tree path.parent ids).result = .ok s := by
  have hread : (load tree path ids).result = .ok s ↔ tree.exists? path = .ok true ∧
      ∃ value, tree.readYaml path = .ok value ∧
        (settingsOf tree path.text path.parent ids value).result = .ok s := by
    unfold load
    simp only [Logged.bind_eq_ok, Logged.ofExcept, Except.mapError_eq_ok]
    constructor
    · rintro ⟨found, hfound, h⟩
      cases found with
      | false =>
        obtain ⟨_, h, -⟩ := Logged.bind_eq_ok.1 h
        cases h
      | true =>
        obtain ⟨_, -, h⟩ := Logged.bind_eq_ok.1 h
        obtain ⟨value, hvalue, hs⟩ := Logged.bind_eq_ok.1 h
        exact ⟨hfound, value, Except.mapError_eq_ok.1 hvalue, hs⟩
    · rintro ⟨hfound, value, hvalue, hs⟩
      refine ⟨true, hfound, Logged.bind_eq_ok.2 ⟨(), rfl, Logged.bind_eq_ok.2 ⟨value, ?_, hs⟩⟩⟩
      exact Except.mapError_eq_ok.2 hvalue
  simp only [hread, settingsOf_eq_ok, exists_and_left]

theorem exists_of_readYaml {path : Path} {value : Value} (h : tree.readYaml path = .ok value) :
    tree.exists? path = .ok true := by
  unfold FileTree.readYaml at h
  cases hexists : tree.exists? path with
  | error =>
    rw [hexists] at h
    cases h
  | ok found =>
    rw [hexists] at h
    cases found
    · cases h
    · rfl

/-- A file is loaded as what the draft of its document stands for. -/
theorem loadShipped_eq_ok {name : String} :
    (loadShipped tree name ids).result = .ok s ↔ ∃ value draft, Yaml.load shipped.toList = .ok value ∧
      checkDocument value = .ok draft ∧ (draft.build tree (Path.ofString name).parent ids).result = .ok s := by
  unfold loadShipped
  -- The shipped text is long; nothing here depends on how it reads.
  generalize Yaml.load shipped.toList = read
  simp only [Logged.bind_eq_ok, Logged.ofExcept, Logged.record, Except.mapError_eq_ok, settingsOf_eq_ok,
    exists_const, true_and, exists_and_left]

theorem load_accepted {path : Path} {value : Value} {draft : Draft} (hread : tree.readYaml path = .ok value)
    (hd : checkDocument value = .ok draft) :
    (load tree path ids).result = .ok s ↔ (draft.build tree path.parent ids).result = .ok s := by
  rw [load_eq_ok, and_iff_right (exists_of_readYaml hread)]
  constructor
  · rintro ⟨value', draft', hread', hd', hbuild⟩
    cases hread.symm.trans hread'
    cases hd.symm.trans hd'
    exact hbuild
  · intro hbuild
    exact ⟨value, draft, hread, hd, hbuild⟩

end SettingsFile

end CaveMap
