import CaveMap.Proofs.SettingsFile.Settled
import CaveMap.Proofs.Text.Utf8

namespace CaveMap

namespace FileTree

variable {tree : FileTree} {p : Path} {fault : FileFault}

/-- A path that is no path to a file, though it is not one where nothing is either. -/
inductive Unreadable (tree : FileTree) (p : Path) : FileFault → Prop
  | tooLong (h : tree.locate p = .error .nameTooLong) : Unreadable tree p .nameTooLong
  | directory (place : List String) (h : tree.locate p = .ok place) (hd : tree.get? place = some .directory) :
    Unreadable tree p .isDirectory

theorem unreadable_iff : tree.Unreadable p fault ↔
    tree.exists? p = .error fault ∨ tree.exists? p = .ok true ∧ tree.read p = .error fault := by
  constructor
  · rintro (h | ⟨place, h, hd⟩)
    · left
      rw [exists?, h]
      rfl
    · right
      rw [exists?, read, h]
      simp only [hd, bind, Except.bind]
      exact ⟨rfl, rfl⟩
  · unfold exists? read
    cases hl : tree.locate p with
    | error other =>
      rintro (h | ⟨h, -⟩)
      · cases other <;> cases h
        exact .tooLong hl
      · cases other <;> cases h
    | ok place =>
      cases hg : tree.get? place with
      | none =>
        rintro (h | ⟨h, -⟩)
        · cases h
        · simp [hg, pure, Except.pure] at h
      | some entry =>
        rintro (h | ⟨-, h⟩)
        · cases h
        · cases entry with
          | directory =>
            simp only [hg, bind, Except.bind] at h
            cases h
            exact .directory place hl hg
          | file bytes =>
            simp only [hg, bind, Except.bind] at h
            cases h

theorem exists_of_read {bytes : List UInt8} (h : tree.read p = .ok bytes) : tree.exists? p = .ok true := by
  unfold read at h
  cases hl : tree.locate p with
  | error => rw [hl] at h; cases h
  | ok place =>
    rw [hl] at h
    cases hg : tree.get? place with
    | none => simp only [hg, bind, Except.bind] at h; cases h
    | some entry =>
      rw [exists?, hl]
      simp [hg, pure, Except.pure]

/-- The bytes of a file, if there is one and nothing stands in the way. -/
theorem fetch_eq_error {ε β : Type} {f : FileFault → ε} {missing fault : ε} {next : List UInt8 → Except ε β} :
    (do
      if !(← (tree.exists? p).mapError f) then throw missing
      let bytes ← (tree.read p).mapError f
      next bytes : Except ε β) = .error fault ↔
      (tree.exists? p = .ok false ∧ missing = fault) ∨ (∃ cause, tree.Unreadable p cause ∧ f cause = fault) ∨
        ∃ bytes, tree.read p = .ok bytes ∧ next bytes = .error fault := by
  simp only [unreadable_iff]
  cases he : tree.exists? p with
  | error cause =>
    have hread (bytes : List UInt8) : tree.read p ≠ .ok bytes := fun h => by
      rw [exists_of_read h] at he
      cases he
    simp [Except.mapError, bind, Except.bind, hread]
  | ok found =>
    cases found with
    | false =>
      have hread (bytes : List UInt8) : tree.read p ≠ .ok bytes := fun h => by
        rw [exists_of_read h] at he
        cases he
      simp [Except.mapError, bind, Except.bind, throw, throwThe, MonadExceptOf.throw, hread]
    | true =>
      cases tree.read p <;> simp [Except.mapError, bind, Except.bind]

theorem readText_eq_system {encoding : String} :
    tree.readText p encoding = .error (.system fault) ↔ tree.Unreadable p fault := by
  unfold readText
  rw [fetch_eq_error]
  simp only [ReadFault.system.injEq, exists_eq_right, reduceCtorEq, and_false, false_or]
  constructor
  · rintro (h | ⟨bytes, -, h⟩)
    · exact h
    · split at h
      · cases h
      · split at h <;> cases h
  · exact .inl

/-- What the bytes of a file say in UTF-8; nothing if they are malformed. -/
def Says (tree : FileTree) (p : Path) (text : Option String) : Prop :=
  ∃ bytes, tree.read p = .ok bytes ∧ Text.ofUtf8? bytes = text

theorem readYaml_eq_error {fault : Yaml.FileFault} : tree.readYaml p = .error fault ↔
    (tree.exists? p = .ok false ∧ .missing p = fault) ∨ (∃ cause, tree.Unreadable p cause ∧ .system cause = fault) ∨
      (tree.Says p none ∧ .encoding = fault) ∨
      ∃ text cause, tree.Says p (some text) ∧ Yaml.load (Text.unifyNewlines text.toList) = .error cause ∧
        .document cause = fault := by
  unfold readYaml
  rw [fetch_eq_error]
  refine or_congr_right (or_congr_right ?_)
  constructor
  · rintro ⟨bytes, hread, h⟩
    cases htext : Text.ofUtf8? bytes with
    | none =>
      simp only [htext] at h
      cases h
      exact .inl ⟨⟨bytes, hread, htext⟩, rfl⟩
    | some text =>
      simp only [htext, Except.mapError_eq_error] at h
      obtain ⟨cause, hcause, he⟩ := h
      exact .inr ⟨text, cause, ⟨bytes, hread, htext⟩, hcause, he⟩
  · rintro (⟨⟨bytes, hread, htext⟩, rfl⟩ | ⟨text, cause, ⟨bytes, hread, htext⟩, hcause, he⟩)
    · exact ⟨bytes, hread, by simp only [htext]; rfl⟩
    · exact ⟨bytes, hread, by simp only [htext, Except.mapError_eq_error]; exact ⟨cause, hcause, he⟩⟩

end FileTree

namespace SettingsFile

variable {tree : FileTree} {path : Path} {ids : Nat → String}

theorem readSource_eq_system {base : Path} {source : String} {fault : FileFault} :
    readSource tree base source = .error (.system fault) ↔
      tree.Unreadable (base.join (Path.ofString source)) fault := by
  have hread : tree.readText (base.join (Path.ofString source)) "utf-8" = .error (.system fault) ↔
      tree.Unreadable (base.join (Path.ofString source)) fault := FileTree.readText_eq_system
  rw [← hread]
  simp only [readSource]
  cases tree.readText (base.join (Path.ofString source)) "utf-8" with
  | ok content => simp [pure, Except.pure]
  | error cause => cases cause <;> simp [throw, throwThe, MonadExceptOf.throw]

theorem build_eq_system {draft : Draft} {base : Path} {fault : FileFault} :
    (draft.build tree base ids).result = .error (.system fault) ↔ (∃ s, draft.settings = .ok s) ∧
      ∃ front source back, draft.sources = front ++ source :: back ∧
        (∀ earlier ∈ front, ∃ file, readSource tree base earlier = .ok file) ∧
        tree.Unreadable (base.join (Path.ofString source)) fault := by
  unfold Draft.build
  simp only [Logged.bind_eq_error, Logged.ofExcept, Except.mapError_eq_error, Except.mapError_eq_ok,
    Except.mapM_eq_error, readSource_eq_system, reduceCtorEq, and_false, exists_false, false_or, or_false, exists_and_right]

theorem settingsOf_eq_failure {name : String} {base : Path} {value : Value} {fault : LoadFault}
    (hfault : fault.isRefusal = false) :
    (settingsOf tree name base ids value).result = .error fault ↔ ∃ draft cause, checkDocument value = .ok draft ∧
      (draft.build tree base ids).result = .error (.system cause) ∧ .source (.system cause) = fault := by
  unfold settingsOf
  split
  · have hrejected (draft : Draft) : checkDocument .null ≠ .ok draft := fun h => by
      obtain ⟨entries, he, -⟩ := checkDocument_ok_iff.1 h
      cases he
    have hempty : LoadFault.empty name ≠ fault := by
      rintro rfl
      cases hfault
    simp [Logged.fail, hrejected, hempty]
  · simp only [Logged.bind_eq_error, Logged.ofExcept, Logged.mapError, Logged.record, Except.mapError_eq_error,
      Except.mapError_eq_ok, pure, reduceCtorEq, and_false, exists_false, or_false]
    constructor
    · rintro (⟨problems, -, rfl⟩ | ⟨draft, hcheck, cause, hbuild, rfl⟩)
      · cases hfault
      · cases cause with
        | system cause => exact ⟨draft, cause, hcheck, hbuild, rfl⟩
        | _ => cases hfault
    · rintro ⟨draft, cause, hcheck, hbuild, rfl⟩
      exact .inr ⟨draft, hcheck, _, hbuild, rfl⟩
  · next hnull hmap =>
    have hrejected (draft : Draft) : checkDocument value ≠ .ok draft := fun h => by
      obtain ⟨entries, he, -⟩ := checkDocument_ok_iff.1 h
      exact hmap entries he
    have hother : LoadFault.notMapping name ≠ fault := by
      rintro rfl
      cases hfault
    simp [Logged.fail, hrejected, hother]

theorem settingsOf_ne_missing {name : String} {base p : Path} {value : Value} :
    (settingsOf tree name base ids value).result ≠ .error (.missing p) := by
  unfold settingsOf
  split
  · simp [Logged.fail]
  · simp [Logged.bind_eq_error, Logged.ofExcept, Logged.mapError, Logged.record, Except.mapError_eq_error, pure]
  · simp [Logged.fail]

/-- How many collections are open at once at most, and how many still are behind a token. -/
def nestingAfter : Nat × Nat → Yaml.Token → Nat × Nat
  | (most, opened), .flowSequenceStart | (most, opened), .flowMappingStart
  | (most, opened), .blockSequenceStart | (most, opened), .blockMappingStart => (max most (opened + 1), opened + 1)
  | (most, opened), .flowSequenceEnd | (most, opened), .flowMappingEnd
  | (most, opened), .blockEnd => (most, opened - 1)
  | depths, _ => depths

def nesting (text : List Char) : Nat := ((Yaml.Token.scan text).1.foldl nestingAfter (0, 0)).1

/-- Files that are read as one piece and within a common stack: they are not so long that they are parsed before a
byte or character that is not allowed has been met, their collections do not lie too deep in each other, neither as
written nor with all aliases in place, and they hold no escaped surrogate and no collection within itself. -/
structure Tame (tree : FileTree) (path : Path) : Prop where
  decoded : ∀ bytes, tree.read path = .ok bytes →
    (Text.ofUtf8? bytes).any (·.toList.all Yaml.isAllowed) ∨ bytes.length ≤ 4096
  nested : ∀ text, tree.Says path (some text) → nesting (Text.unifyNewlines text.toList) ≤ 100
  shallow : ∀ text, tree.Says path (some text) →
    ∀ node, Yaml.Node.read (Text.unifyNewlines text.toList) = .ok (some node) → node.depth ≤ 100
  sound : ∀ text, tree.Says path (some text) →
    ∀ cause ∈ [.surrogate, .cyclic], Yaml.load (Text.unifyNewlines text.toList) ≠ .error cause

/-- Failures to load a file that are not put down to its settings. -/
inductive Unhandled (tree : FileTree) (path : Path) : LoadFault → Prop
  | unreadable {cause} (h : tree.Unreadable path cause) : Unhandled tree path (.system cause)
  | encoding (h : tree.Says path none) : Unhandled tree path .encoding
  | scalar {text cause} (h : tree.Says path (some text))
    (hload : Yaml.load (Text.unifyNewlines text.toList) = .error cause)
    (hcause : cause ∉ [.malformed, .surrogate, .cyclic]) : Unhandled tree path (.scalar cause)
  | source {value draft s front source back cause} (hread : tree.readYaml path = .ok value)
    (hcheck : checkDocument value = .ok draft) (hs : draft.settings = .ok s)
    (hsources : draft.sources = front ++ source :: back)
    (hfront : ∀ earlier ∈ front, ∃ file, readSource tree path.parent earlier = .ok file)
    (h : tree.Unreadable (path.parent.join (Path.ofString source)) cause) :
    Unhandled tree path (.source (.system cause))

theorem load_eq_error {fault : LoadFault} : (load tree path ids).result = .error fault ↔
    (∃ cause, tree.exists? path = .error cause ∧ .system cause = fault) ∨
    (tree.exists? path = .ok false ∧ .missing path = fault) ∨
    tree.exists? path = .ok true ∧ ((∃ cause, tree.readYaml path = .error cause ∧ .ofFile path.text cause = fault) ∨
      ∃ value, tree.readYaml path = .ok value ∧
        (settingsOf tree path.text path.parent ids value).result = .error fault) := by
  unfold load
  simp only [Logged.bind_eq_error, Logged.ofExcept, Except.mapError_eq_error, Except.mapError_eq_ok]
  refine or_congr_right ?_
  constructor
  · rintro ⟨found, hfound, h⟩
    cases found with
    | false =>
      rw [Bool.not_false, if_pos rfl, Logged.bind_eq_error] at h
      rcases h with h | ⟨_, h, -⟩
      · exact .inl ⟨hfound, Except.error.inj h⟩
      · cases h
    | true =>
      refine .inr ⟨hfound, ?_⟩
      rw [Bool.not_true, if_neg Bool.false_ne_true, Logged.bind_eq_error] at h
      rcases h with h | ⟨_, -, h⟩
      · cases h
      · simpa only [Logged.bind_eq_error, Except.mapError_eq_error, Except.mapError_eq_ok] using h
  · rintro (⟨hfound, rfl⟩ | ⟨hfound, h⟩)
    · exact ⟨false, hfound, Logged.bind_eq_error.2 (.inl rfl)⟩
    · refine ⟨true, hfound, Logged.bind_eq_error.2 (.inr ⟨(), rfl, ?_⟩)⟩
      simpa only [Logged.bind_eq_error, Except.mapError_eq_error, Except.mapError_eq_ok] using h

theorem ofFile_document {name : String} {cause : Yaml.Fault} (h : cause ∉ [.malformed, .surrogate, .cyclic]) :
    LoadFault.ofFile name (.document cause) = .scalar cause := by
  cases cause with
  | malformed | cyclic => exact absurd (by decide) h
  | _ => rfl

theorem Unhandled.of_readYaml {name : String} {cause : Yaml.FileFault} (htame : Tame tree path)
    (hread : tree.readYaml path = .error cause) (hfound : tree.exists? path = .ok true)
    (hcause : (LoadFault.ofFile name cause).isRefusal = false) :
    Unhandled tree path (.ofFile name cause) := by
  rcases FileTree.readYaml_eq_error.1 hread with
    ⟨hnone, -⟩ | ⟨cause, h, rfl⟩ | ⟨h, rfl⟩ | ⟨text, cause, h, hload, rfl⟩
  · rw [hfound] at hnone
    cases hnone
  · exact .unreadable h
  · exact .encoding h
  · have hother : cause ∉ [.malformed, .surrogate, .cyclic] := by
      rw [List.mem_cons, not_or]
      refine ⟨?_, fun hin => htame.sound text h cause hin hload⟩
      rintro rfl
      cases hcause
    rw [ofFile_document hother]
    exact .scalar h hload hother

theorem Unhandled.of_load {fault : LoadFault} (htame : Tame tree path)
    (h : (load tree path ids).result = .error fault) (hfault : fault.isRefusal = false) :
    Unhandled tree path fault := by
  rcases load_eq_error.1 h with ⟨cause, hcause, rfl⟩ | ⟨-, rfl⟩ | ⟨hfound, ⟨cause, hread, rfl⟩ | ⟨value, hread, h⟩⟩
  · exact .unreadable (FileTree.unreadable_iff.2 (.inl hcause))
  · cases hfault
  · exact .of_readYaml htame hread hfound hfault
  · obtain ⟨draft, cause, hcheck, hbuild, rfl⟩ := (settingsOf_eq_failure hfault).1 h
    obtain ⟨⟨s, hs⟩, front, source, back, hsources, hfront, h⟩ := build_eq_system.1 hbuild
    exact .source hread hcheck hs hsources hfront h

theorem Unhandled.load {fault : LoadFault} (h : Unhandled tree path fault) :
    (load tree path ids).result = .error fault := by
  rw [load_eq_error]
  cases h with
  | unreadable h =>
    rcases FileTree.unreadable_iff.1 h with hcause | ⟨hfound, -⟩
    · exact .inl ⟨_, hcause, rfl⟩
    · exact .inr (.inr ⟨hfound, .inl ⟨_, FileTree.readYaml_eq_error.2 (.inr (.inl ⟨_, h, rfl⟩)), rfl⟩⟩)
  | encoding h =>
    have hfound := FileTree.exists_of_read h.choose_spec.1
    exact .inr (.inr ⟨hfound, .inl ⟨_, FileTree.readYaml_eq_error.2 (.inr (.inr (.inl ⟨h, rfl⟩))), rfl⟩⟩)
  | @scalar text cause h hload hcause =>
    have hfound := FileTree.exists_of_read h.choose_spec.1
    have hread : tree.readYaml path = .error (.document cause) :=
      FileTree.readYaml_eq_error.2 (.inr (.inr (.inr ⟨text, cause, h, hload, rfl⟩)))
    exact .inr (.inr ⟨hfound, .inl ⟨_, hread, ofFile_document hcause⟩⟩)
  | @source value draft s front source back cause hread hcheck hs hsources hfront h =>
    have hbuild : (draft.build tree path.parent ids).result = .error (.system cause) :=
      build_eq_system.2 ⟨⟨s, hs⟩, front, source, back, hsources, hfront, h⟩
    exact .inr (.inr ⟨exists_of_readYaml hread, .inr ⟨value, hread,
      (settingsOf_eq_failure rfl).2 ⟨draft, cause, hcheck, hbuild, rfl⟩⟩⟩)

theorem load_eq_missing {p : Path} :
    (load tree path ids).result = .error (.missing p) ↔ p = path ∧ tree.exists? path = .ok false := by
  rw [load_eq_error]
  constructor
  · rintro (⟨cause, -, he⟩ | ⟨hfound, he⟩ | ⟨hfound, ⟨cause, hread, he⟩ | ⟨value, -, h⟩⟩)
    · cases he
    · cases he
      exact ⟨rfl, hfound⟩
    · rcases FileTree.readYaml_eq_error.1 hread with
        ⟨hnone, -⟩ | ⟨cause, -, rfl⟩ | ⟨-, rfl⟩ | ⟨text, cause, -, -, rfl⟩
      · rw [hfound] at hnone
        cases hnone
      · cases he
      · cases he
      · cases cause <;> cases he
    · exact absurd h settingsOf_ne_missing
  · rintro ⟨rfl, hfound⟩
    exact .inr (.inl ⟨hfound, rfl⟩)

/-- A settings file of these bytes beside a directory. -/
def besideDirectory (bytes : List UInt8) : FileTree :=
  { entries := [(["s.yaml"], .file bytes), (["d"], .directory)]
    working := [] }

theorem says_besideDirectory (text : String) {said : Option String}
    (h : (besideDirectory (Text.utf8 text.toList)).Says (.ofString "s.yaml") said) : said = some text := by
  obtain ⟨bytes, hbytes, rfl⟩ := h
  cases (rfl : (besideDirectory (Text.utf8 text.toList)).read (.ofString "s.yaml") = .ok _).symm.trans hbytes
  rw [Text.ofUtf8?_utf8, String.ofList_toList]

theorem load_ten : Yaml.load (Text.unifyNewlines "scale: !!int ten".toList) = .error (.notInteger 10 "ten") := by
  have hfault : (match Yaml.load (Text.unifyNewlines "scale: !!int ten".toList) with
      | .ok _ => false
      | .error fault => decide (fault = .notInteger 10 "ten")) = true := by
    decide +kernel
  split at hfault
  · cases hfault
  · next fault hload => rw [hload, of_decide_eq_true hfault]

theorem tame_ten : Tame (besideDirectory (Text.utf8 "scale: !!int ten".toList)) (.ofString "s.yaml") where
  decoded bytes hbytes := by
    have hsaid := says_besideDirectory _ ⟨bytes, hbytes, rfl⟩
    rw [hsaid]
    exact .inl rfl
  nested text h := by
    cases says_besideDirectory _ h
    decide +kernel
  shallow text h node hnode := by
    cases says_besideDirectory _ h
    have hdepth : (Yaml.Node.read (Text.unifyNewlines "scale: !!int ten".toList)).toOption.join.all
        (·.depth ≤ 100) := by
      decide +kernel
    rw [hnode] at hdepth
    exact of_decide_eq_true hdepth
  sound text h cause hin := by
    cases says_besideDirectory _ h
    rw [load_ten]
    rintro ⟨⟩
    exact absurd hin (by decide)

/-- Whether a file is refused, and the message; nothing if it is loaded. -/
def failure? (tree : FileTree) (path : String) : Option (Bool × String) :=
  match (load tree (Path.ofString path) fun _ => "").result with
  | .ok _ => none
  | .error fault => some (fault.isRefusal, fault.headline)

end SettingsFile

end CaveMap
