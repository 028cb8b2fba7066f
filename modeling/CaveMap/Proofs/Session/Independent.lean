import CaveMap.Proofs.Session.Invariant
import CaveMap.Proofs.Session.Uploading

namespace CaveMap

namespace Settings

/-- The parts that commands change, and all the rest. -/
inductive Part
  | theme
  | modules
  | uploads
  | symbols
  | others
  deriving DecidableEq

/-- What a part of the settings is made of. -/
def Part.Contents : Part → Type
  | theme => Value × Value × Value × Value
  | modules => List MapModule × List Value
  | uploads => List Upload
  | symbols => SymbolTable
  | others => Settings

def rest (s : Settings) : Settings :=
  { s with
    colorScheme := .null
    mapBgColor := .null
    mapFgColor := .null
    surveyColor := .null
    customModules := []
    enabledModules := []
    uploads := []
    symbols := ∅ }

def part (s : Settings) : (p : Part) → p.Contents
  | .theme => (s.colorScheme, s.mapBgColor, s.mapFgColor, s.surveyColor)
  | .modules => (s.customModules, s.enabledModules)
  | .uploads => s.uploads
  | .symbols => s.symbols
  | .others => s.rest

theorem ext_part {s t : Settings} (h : ∀ p, s.part p = t.part p) : s = t := by
  have htheme : (_, _, _, _) = (_, _, _, _) := h .theme
  have hmodules : (_, _) = (_, _) := h .modules
  have huploads : s.uploads = t.uploads := h .uploads
  have hsymbols : s.symbols = t.symbols := h .symbols
  have hothers : s.rest = t.rest := h .others
  cases s
  cases t
  simp only [rest, mk.injEq, true_and, and_true] at hothers
  simp only [Prod.mk.injEq] at htheme hmodules
  obtain ⟨rfl, rfl, rfl, rfl⟩ := htheme
  obtain ⟨rfl, rfl⟩ := hmodules
  subst huploads
  subst hsymbols
  simp only [mk.injEq, true_and, and_true]
  exact hothers

end Settings

namespace Command

/-- The parts of the settings that a command concerns: it looks at no other one, and changes no other one. -/
def parts : Command → List Settings.Part
  | applyTheme _ => [.theme]
  | addModule .. => [.modules]
  | removeModule _ => [.modules]
  | setEnabled .. => [.modules]
  | addFiles _ => [.uploads, .symbols]
  | removeFile _ => [.uploads]
  | updateSymbol .. => [.symbols]
  | suggestColors _ => [.symbols]

/-- Commands that concern no part in common. -/
def Independent (c d : Command) : Prop := ∀ p ∈ c.parts, p ∉ d.parts

instance (c d : Command) : Decidable (c.Independent d) := inferInstanceAs (Decidable (∀ p ∈ c.parts, p ∉ d.parts))

theorem Independent.symm {c d : Command} (h : c.Independent d) : d.Independent c := by
  intro p hd hc
  exact h p hc hd

end Command

namespace Session

open Settings

variable {ids : Nat → String} {command : Command}

def outcome (ids : Nat → String) (session : Session) (command : Command) : Logged Command.Fault Unit :=
  ⟨(session.run ids command).result.map fun _ => (), (session.run ids command).events⟩

/-- A command leaves the parts alone that it does not concern. -/
theorem part_after (ids : Nat → String) (session : Session) {p : Part} (hp : p ∉ command.parts) :
    (after ids session command).settings.part p = session.settings.part p := by
  cases command with
  | addFiles files =>
    have hfiles : (after ids session (.addFiles files)).settings = _ :=
      addFiles_eq ids session.settings session.drawn files
    rw [hfiles]
    cases p with
    | uploads => exact absurd (.head _) hp
    | symbols => exact absurd (.tail _ (.head _)) hp
    | _ => rfl
  | removeFile id =>
    cases p with
    | uploads => exact absurd (.head _) hp
    | _ => rfl
  | addModule name code description =>
    rw [after_addModule]
    split
    · rfl
    · cases p with
      | modules => exact absurd (.head _) hp
      | _ => rfl
  | removeModule id =>
    cases p with
    | modules => exact absurd (.head _) hp
    | _ => rfl
  | setEnabled id enabled =>
    cases p with
    | modules => exact absurd (.head _) hp
    | _ => rfl
  | updateSymbol type changes =>
    rcases after_updateSymbol ids session type changes with he | ⟨_, revised, -, -, he⟩
    · rw [he]
    · rw [he]
      cases p with
      | symbols => exact absurd (.head _) hp
      | _ => rfl
  | suggestColors suggestions =>
    cases p with
    | symbols => exact absurd (.head _) hp
    | _ => rfl
  | applyTheme theme =>
    cases p with
    | theme => exact absurd (.head _) hp
    | _ => rfl

theorem updateSymbol_congr (ids : Nat → String) (drawn : Nat) {s t : Settings} (h : s.symbols = t.symbols)
    (type : String) (changes : OverrideChanges) :
    outcome ids ⟨s, drawn⟩ (.updateSymbol type changes) = outcome ids ⟨t, drawn⟩ (.updateSymbol type changes) ∧
      (after ids ⟨s, drawn⟩ (.updateSymbol type changes)).settings.symbols =
        (after ids ⟨t, drawn⟩ (.updateSymbol type changes)).settings.symbols := by
  simp only [outcome, after, run, h]
  cases t.symbols.get? type with
  | none => exact ⟨rfl, h⟩
  | some override =>
    dsimp only
    split
    · exact ⟨rfl, h⟩
    · cases override.revise changes with
      | error fault => exact ⟨rfl, h⟩
      | ok revised => exact ⟨rfl, rfl⟩

/-- A command does the same to settings that agree in the parts that it concerns. -/
theorem after_congr (ids : Nat → String) (drawn : Nat) {s t : Settings} (h : ∀ p ∈ command.parts, s.part p = t.part p) :
    outcome ids ⟨s, drawn⟩ command = outcome ids ⟨t, drawn⟩ command ∧
      ∀ p ∈ command.parts,
        (after ids ⟨s, drawn⟩ command).settings.part p = (after ids ⟨t, drawn⟩ command).settings.part p := by
  cases command with
  | addFiles files =>
    have huploads : s.uploads = t.uploads := h .uploads (.head _)
    have hsymbols : s.symbols = t.symbols := h .symbols (.tail _ (.head _))
    constructor
    · simp only [outcome, run, fileEvents_congr hsymbols]
      rfl
    · have hfiles (s : Settings) : (after ids ⟨s, drawn⟩ (.addFiles files)).settings = _ :=
        addFiles_eq ids s drawn files
      intro p hp
      rw [hfiles, hfiles, huploads, hsymbols]
      rcases List.mem_pair.1 hp with rfl | rfl
      · rfl
      · rfl
  | removeFile id =>
    have huploads : s.uploads = t.uploads := h .uploads (.head _)
    refine ⟨rfl, ?_⟩
    intro p hp
    obtain rfl := List.mem_singleton.1 hp
    exact congrArg (List.filter fun u => u.id ≠ id) huploads
  | addModule name code description =>
    constructor
    · simp only [outcome, run]
      cases Text.isBlankText name <;> cases Text.isBlankText code <;> rfl
    · intro p hp
      obtain rfl := List.mem_singleton.1 hp
      obtain ⟨hcustom, henabled⟩ := Prod.mk.inj (h .modules hp)
      rw [after_addModule, after_addModule]
      split
      · exact h .modules hp
      · simp only [part, addModule, hcustom, henabled]
        rfl
  | removeModule id =>
    refine ⟨rfl, ?_⟩
    intro p hp
    obtain rfl := List.mem_singleton.1 hp
    obtain ⟨hcustom, henabled⟩ := Prod.mk.inj (h .modules hp)
    change (List.filter _ _, withoutId _ id) = (List.filter _ _, withoutId _ id)
    rw [hcustom, henabled]
  | setEnabled id enabled =>
    refine ⟨rfl, ?_⟩
    intro p hp
    obtain rfl := List.mem_singleton.1 hp
    obtain ⟨hcustom, henabled⟩ := Prod.mk.inj (h .modules hp)
    change (s.customModules, withoutId _ id ++ _) = (t.customModules, withoutId _ id ++ _)
    rw [hcustom, henabled]
  | updateSymbol type changes =>
    have hsymbols : s.symbols = t.symbols := h .symbols (.head _)
    obtain ⟨houtcome, hupdated⟩ := updateSymbol_congr ids drawn hsymbols type changes
    refine ⟨houtcome, ?_⟩
    intro p hp
    obtain rfl := List.mem_singleton.1 hp
    exact hupdated
  | suggestColors suggestions =>
    have hsymbols : s.symbols = t.symbols := h .symbols (.head _)
    constructor
    · simp only [outcome, run, hsymbols]
      rfl
    · intro p hp
      obtain rfl := List.mem_singleton.1 hp
      exact congrArg (suggestions.foldl recolor) hsymbols
  | applyTheme theme =>
    refine ⟨rfl, ?_⟩
    intro p hp
    obtain rfl := List.mem_singleton.1 hp
    rfl

end Session

namespace Settings

/-- The settings after a command that draws its ids from a place of a supply. -/
def after (ids : Nat → String) (drawn : Nat) (s : Settings) (command : Command) : Settings :=
  (Session.after ids ⟨s, drawn⟩ command).settings

def outcome (ids : Nat → String) (drawn : Nat) (s : Settings) (command : Command) : Logged Command.Fault Unit :=
  Session.outcome ids ⟨s, drawn⟩ command

variable {ids ids' : Nat → String} {drawn drawn' : Nat} {s : Settings} {c d : Command}

theorem part_after {p : Part} (hp : p ∉ c.parts) : (s.after ids drawn c).part p = s.part p :=
  Session.part_after ids ⟨s, drawn⟩ hp

/-- A command does the same where an independent one has been before. -/
theorem after_independent (h : c.Independent d) :
    (s.after ids' drawn' d).outcome ids drawn c = s.outcome ids drawn c ∧
      ∀ p ∈ c.parts, ((s.after ids' drawn' d).after ids drawn c).part p = (s.after ids drawn c).part p := by
  apply Session.after_congr
  intro p hp
  exact part_after (h p hp)

theorem after_comm (h : c.Independent d) :
    (s.after ids drawn c).after ids' drawn' d = (s.after ids' drawn' d).after ids drawn c := by
  apply ext_part
  intro p
  -- At most one of the commands concerns the part: it does there what it does alone, and the other nothing.
  by_cases hc : p ∈ c.parts
  · calc ((s.after ids drawn c).after ids' drawn' d).part p = (s.after ids drawn c).part p := part_after (h p hc)
      _ = ((s.after ids' drawn' d).after ids drawn c).part p := ((after_independent h).2 p hc).symm
  · by_cases hd : p ∈ d.parts
    · calc ((s.after ids drawn c).after ids' drawn' d).part p
          = (s.after ids' drawn' d).part p := (after_independent h.symm).2 p hd
        _ = ((s.after ids' drawn' d).after ids drawn c).part p := (part_after hc).symm
    · calc ((s.after ids drawn c).after ids' drawn' d).part p = (s.after ids drawn c).part p := part_after hd
        _ = s.part p := part_after hc
        _ = (s.after ids' drawn' d).part p := (part_after hd).symm
        _ = ((s.after ids' drawn' d).after ids drawn c).part p := (part_after hc).symm

/-- A command, done or refused, changes the parts that it concerns and nothing else. Two commands without a common part
give the same settings in either order, and either is done or refused as if it came alone. -/
theorem independent_commands_commute (ids ids' : Nat → String) (drawn drawn' : Nat) (s : Settings) (c d : Command) :
    (∀ p ∉ c.parts, (s.after ids drawn c).part p = s.part p) ∧
      (c.Independent d →
        (s.after ids drawn c).after ids' drawn' d = (s.after ids' drawn' d).after ids drawn c ∧
          (s.after ids' drawn' d).outcome ids drawn c = s.outcome ids drawn c ∧
          (s.after ids drawn c).outcome ids' drawn' d = s.outcome ids' drawn' d) := by
  constructor
  · intro p hp
    exact part_after hp
  · intro h
    exact ⟨after_comm h, (after_independent h).1, (after_independent h.symm).1⟩

/-- A drawing and a module that draw the same id from their supplies. -/
theorem independent_commands_commute_shared_id :
    (Command.addFiles [⟨"plan.th2", "line wall\npoint 1 2 bat", none⟩]).Independent (.addModule "Walls" "% walls" "") ∧
      (default.after Text.decimalText 7 (.addFiles [⟨"plan.th2", "line wall\npoint 1 2 bat", none⟩])).after
          Text.decimalText 7 (.addModule "Walls" "% walls" "") =
        (default.after Text.decimalText 7 (.addModule "Walls" "% walls" "")).after Text.decimalText 7
          (.addFiles [⟨"plan.th2", "line wall\npoint 1 2 bat", none⟩]) := by
  have h : (Command.addFiles [⟨"plan.th2", "line wall\npoint 1 2 bat", none⟩]).Independent
      (.addModule "Walls" "% walls" "") := by decide
  exact ⟨h, ((independent_commands_commute _ _ 7 7 default _ _).2 h).1⟩

end Settings

end CaveMap
