import CaveMap.Proofs.Session.Invariant
import Mathlib.Data.List.Nodup
import Mathlib.Data.List.Range

namespace CaveMap

namespace Session

/-- A command, or one that names an upload or a custom module by its place in the order of creation. -/
inductive Step
  | plain (command : Command)
  | removeFile (place : Nat)
  | removeModule (place : Nat)
  | setEnabled (place : Nat) (enabled : Bool)

/-- A session with the ids of all its uploads and custom modules in the order of creation, also of those that
are gone. -/
structure History where
  session : Session := Session.start
  uploads : List String := []
  modules : List String := []

namespace History

def extend (h : History) (next : Session) : History where
  session := next
  uploads := h.uploads ++ (next.settings.uploads.drop h.session.settings.uploads.length).map (·.id)
  modules := h.modules ++ (next.settings.customModules.drop h.session.settings.customModules.length).map (·.id)

/-- The command of a step; none if the step names something that was never created. -/
def command? (h : History) : Step → Option Command
  | .plain command => some command
  | .removeFile place => h.uploads[place]?.map .removeFile
  | .removeModule place => h.modules[place]?.map .removeModule
  | .setEnabled place enabled => h.modules[place]?.map (.setEnabled · enabled)

/-- Whether the command of a step is done, or why not. -/
def outcome? (ids : Nat → String) (h : History) (step : Step) : Option (Except Command.Fault Unit) :=
  (h.command? step).map fun command => (h.session.run ids command).result.map fun _ => ()

def next (ids : Nat → String) (h : History) (step : Step) : History :=
  match h.command? step with
  | none => h
  | some command => h.extend (after ids h.session command)

def reach (ids : Nat → String) (steps : List Step) : History := steps.foldl (next ids) {}

theorem reach_concat (ids : Nat → String) (steps : List Step) (step : Step) :
    reach ids (steps ++ [step]) = (reach ids steps).next ids step := by
  rw [reach, List.foldl_append]
  rfl

end History

/-- An id that a step spells out is none of the created ones. -/
def Step.Avoids (h : History) : Step → Prop
  | .plain (.removeFile id) => id ∉ h.uploads
  | .plain (.removeModule id) => id ∉ h.modules
  | .plain (.setEnabled id _) => id ∉ h.modules
  | _ => True

instance (h : History) : (step : Step) → Decidable (step.Avoids h)
  | .plain (.removeFile id) => inferInstanceAs (Decidable (id ∉ h.uploads))
  | .plain (.removeModule id) => inferInstanceAs (Decidable (id ∉ h.modules))
  | .plain (.setEnabled id _) => inferInstanceAs (Decidable (id ∉ h.modules))
  | .plain (.addFiles _) | .plain (.addModule ..) | .plain (.updateSymbol ..) | .plain (.suggestColors _)
  | .plain (.applyTheme _) | .removeFile _ | .removeModule _ | .setEnabled .. => .isTrue trivial

end Session

namespace Command

def newUploads : Command → Nat
  | addFiles files => files.length
  | _ => 0

def newModules : Command → Nat
  | addModule name code _ => if Text.isBlankText name || Text.isBlankText code then 0 else 1
  | _ => 0

end Command

/-- The id of a custom module that was made with an id of the supply. -/
def MapModule.customId (id : String) : String := "custom_" ++ id

namespace Session

open Function

variable {ids : Nat → String} {session : Session}

theorem uploads_addFiles (ids : Nat → String) (session : Session) (files : List NewFile) :
    (session.addFiles ids files).settings.uploads.map (·.id) =
        session.settings.uploads.map (·.id) ++ (List.range' session.drawn files.length).map ids ∧
      (session.addFiles ids files).settings.customModules = session.settings.customModules ∧
      (session.addFiles ids files).drawn = session.drawn + files.length := by
  induction files generalizing session with
  | nil => exact ⟨(List.append_nil _).symm, rfl, rfl⟩
  | cons file rest ih =>
    obtain ⟨huploads, hmodules, hdrawn⟩ := ih ⟨session.settings.addFile (ids session.drawn) file, session.drawn + 1⟩
    refine ⟨huploads.trans ?_, hmodules, hdrawn.trans ?_⟩
    · simp [Settings.addFile, List.range'_succ]
    · simp only [List.length_cons]
      omega

theorem created (ids : Nat → String) (session : Session) (command : Command) :
    ((after ids session command).settings.uploads.drop session.settings.uploads.length).map (·.id) =
        (List.range' session.drawn command.newUploads).map ids ∧
      ((after ids session command).settings.customModules.drop session.settings.customModules.length).map (·.id) =
        (List.range' session.drawn command.newModules).map (MapModule.customId ∘ ids) ∧
      (after ids session command).drawn = session.drawn + command.newUploads + command.newModules := by
  have hnone (s : Settings) (hu : s.uploads.length ≤ session.settings.uploads.length)
      (hm : s.customModules.length ≤ session.settings.customModules.length) :
      (s.uploads.drop session.settings.uploads.length).map (·.id) = [] ∧
        (s.customModules.drop session.settings.customModules.length).map (·.id) = [] := by
    rw [List.drop_eq_nil_of_le hu, List.drop_eq_nil_of_le hm]
    exact ⟨rfl, rfl⟩
  have hsame := hnone session.settings le_rfl le_rfl
  cases command with
  | addFiles files =>
    obtain ⟨huploads, hmodules, hdrawn⟩ := uploads_addFiles ids session files
    refine ⟨?_, ?_, hdrawn⟩
    · change ((session.addFiles ids files).settings.uploads.drop _).map _ = _
      have hlength : session.settings.uploads.length = (session.settings.uploads.map (·.id)).length := by
        rw [List.length_map]
      rw [List.map_drop, huploads, hlength, List.drop_left]
      rfl
    · change ((session.addFiles ids files).settings.customModules.drop _).map _ = _
      rw [hmodules]
      exact hsame.2
  | removeFile id =>
    obtain ⟨hu, hm⟩ := hnone (session.settings.removeFile id) (List.length_filter_le _ _) le_rfl
    exact ⟨hu, hm, rfl⟩
  | addModule name code description =>
    rw [after_addModule]
    simp only [Command.newModules]
    split
    · exact ⟨hsame.1, hsame.2, rfl⟩
    · refine ⟨hsame.1, ?_, rfl⟩
      simp [Settings.addModule, Settings.newModule, MapModule.customId]
  | removeModule id =>
    obtain ⟨hu, hm⟩ := hnone (session.settings.removeModule id) le_rfl (List.length_filter_le _ _)
    exact ⟨hu, hm, rfl⟩
  | setEnabled id enabled => exact ⟨hsame.1, hsame.2, rfl⟩
  | updateSymbol type changes =>
    rcases after_updateSymbol ids session type changes with he | ⟨_, _, -, -, he⟩
    all_goals
      rw [he]
      exact ⟨hsame.1, hsame.2, rfl⟩
  | suggestColors suggestions => exact ⟨hsame.1, hsame.2, rfl⟩
  | applyTheme theme => exact ⟨hsame.1, hsame.2, rfl⟩

/-- Distinct ids that a supply has given before some draw. -/
def Drawn (supply : Nat → String) (bound : Nat) (created : List String) : Prop :=
  created.Nodup ∧ ∀ id ∈ created, ∃ n < bound, id = supply n

theorem Drawn.append {supply : Nat → String} (hsupply : Injective supply) {bound later : Nat}
    {created : List String} (h : Drawn supply bound created) (count : Nat) (hlater : bound + count ≤ later) :
    Drawn supply later (created ++ (List.range' bound count).map supply) := by
  constructor
  · refine List.nodup_append'.2 ⟨h.1, (List.nodup_range' ..).map hsupply, ?_⟩
    intro id hin hnew
    obtain ⟨n, hn, rfl⟩ := h.2 id hin
    obtain ⟨m, hm, he⟩ := List.mem_map.1 hnew
    have hbound := (List.mem_range'_1.1 hm).1
    rw [hsupply he] at hbound
    omega
  · intro id hin
    rcases List.mem_append.1 hin with hold | hnew
    · obtain ⟨n, hn, he⟩ := h.2 id hold
      exact ⟨n, by omega, he⟩
    · obtain ⟨m, hm, he⟩ := List.mem_map.1 hnew
      have hbound := (List.mem_range'_1.1 hm).2
      exact ⟨m, by omega, he.symm⟩

namespace History

/-- Created ids are distinct. -/
structure Distinct (ids : Nat → String) (h : History) : Prop where
  uploads : Drawn ids h.session.drawn h.uploads
  modules : Drawn (MapModule.customId ∘ ids) h.session.drawn h.modules

theorem uploads_extend (ids : Nat → String) (h : History) (command : Command) :
    (h.extend (after ids h.session command)).uploads =
      h.uploads ++ (List.range' h.session.drawn command.newUploads).map ids :=
  congrArg (h.uploads ++ ·) (created ids h.session command).1

theorem modules_extend (ids : Nat → String) (h : History) (command : Command) :
    (h.extend (after ids h.session command)).modules =
      h.modules ++ (List.range' h.session.drawn command.newModules).map (MapModule.customId ∘ ids) :=
  congrArg (h.modules ++ ·) (created ids h.session command).2.1

theorem customId_injective : Injective MapModule.customId := by
  intro id other h
  simpa [MapModule.customId] using h

theorem Distinct.next {h : History} (hd : h.Distinct ids) (hids : Injective ids) (step : Step) :
    (h.next ids step).Distinct ids := by
  unfold History.next
  cases h.command? step with
  | none => exact hd
  | some command =>
    have hdrawn := (created ids h.session command).2.2
    constructor
    · rw [uploads_extend]
      exact hd.uploads.append hids _ (hdrawn ▸ by omega)
    · rw [modules_extend]
      exact hd.modules.append (customId_injective.comp hids) _ (hdrawn ▸ by omega)

theorem reach_distinct (hids : Injective ids) (steps : List Step) : (reach ids steps).Distinct ids := by
  induction steps using List.reverseRecOn with
  | nil =>
    have hnone (P : String → Prop) : ∀ id ∈ [], P id := fun _ h => absurd h List.not_mem_nil
    exact ⟨⟨List.nodup_nil, hnone _⟩, List.nodup_nil, hnone _⟩
  | append_singleton steps step ih =>
    rw [reach_concat]
    exact ih.next hids step

theorem next_prefix (ids : Nat → String) (h : History) (step : Step) :
    h.uploads <+: (h.next ids step).uploads ∧ h.modules <+: (h.next ids step).modules := by
  unfold History.next
  cases h.command? step with
  | none => exact ⟨List.prefix_rfl, List.prefix_rfl⟩
  | some command => exact ⟨List.prefix_append _ _, List.prefix_append _ _⟩

theorem reach_prefix (ids : Nat → String) {earlier steps : List Step} (hp : earlier <+: steps) :
    (reach ids earlier).uploads <+: (reach ids steps).uploads ∧
      (reach ids earlier).modules <+: (reach ids steps).modules := by
  obtain ⟨rest, rfl⟩ := hp
  induction rest using List.reverseRecOn with
  | nil =>
    rw [List.append_nil]
    exact ⟨List.prefix_rfl, List.prefix_rfl⟩
  | append_singleton rest step ih =>
    have hnext := next_prefix ids (reach ids (earlier ++ rest)) step
    rw [← List.append_assoc, reach_concat]
    exact ⟨ih.1.trans hnext.1, ih.2.trans hnext.2⟩

end History

end Session

end CaveMap
