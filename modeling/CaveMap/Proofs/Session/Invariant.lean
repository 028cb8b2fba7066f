import CaveMap.Proofs.Drawing
import CaveMap.Proofs.Text.Strip

namespace CaveMap

open Drawing

namespace Session

/-- A refused command leaves everything as it was. -/
def after (ids : Nat → String) (session : Session) (command : Command) : Session :=
  match (session.run ids command).result with
  | .ok next => next
  | .error _ => session

def reach (ids : Nat → String) (commands : List Command) : Session :=
  commands.foldl (after ids) start

theorem reach_concat (ids : Nat → String) (commands : List Command) (command : Command) :
    reach ids (commands ++ [command]) = after ids (reach ids commands) command := by
  rw [reach, List.foldl_append]
  rfl

theorem after_addModule (ids : Nat → String) (session : Session) (name code description : String) :
    after ids session (.addModule name code description) =
      if Text.isBlankText name || Text.isBlankText code then session
      else
        ⟨session.settings.addModule
          (Settings.newModule ("custom_" ++ ids session.drawn) name code description), session.drawn + 1⟩ := by
  simp only [after, run]
  cases Text.isBlankText name with
  | true => rfl
  | false => cases Text.isBlankText code <;> rfl

theorem after_updateSymbol (ids : Nat → String) (session : Session) (type : String)
    (changes : OverrideChanges) :
    after ids session (.updateSymbol type changes) = session ∨
      ∃ override revised, session.settings.symbols.get? type = some override ∧
        override.revise changes = .ok revised ∧
        after ids session (.updateSymbol type changes) =
          { session with settings :=
            { session.settings with symbols := session.settings.symbols.insert type revised } } := by
  simp only [after, run]
  cases hget : session.settings.symbols.get? type with
  | none => exact .inl rfl
  | some override =>
    dsimp only
    split
    · next hknown =>
      split at hknown
      · cases hknown
      · next hnone =>
        cases hrevise : override.revise changes with
        | error fault =>
          rw [hrevise] at hknown
          cases hknown
        | ok revised =>
          rw [hrevise] at hknown
          cases hknown
          exact .inr ⟨override, revised, rfl, hrevise, rfl⟩
    · exact .inl rfl

end Session

/-- Whether a command leaves the types of overrides alone. -/
def Command.keepsTypes : Command → Prop
  | .updateSymbol _ changes => changes.type = none
  | _ => True

namespace Settings

/-- Each override stands under its own type, which is no empty text. -/
def KeyedByType (symbols : SymbolTable) : Prop :=
  ∀ key override, (key, override) ∈ symbols.entries → key ≠ "" ∧ override.type = key

/-- Every symbol type of an uploaded drawing has an override. -/
def CoversDrawings (symbols : SymbolTable) (uploads : List Upload) : Prop :=
  ∀ u ∈ uploads, u.kind = .drawing → ∀ type ∈ (scan u.content).keys, type ∈ symbols.keys

structure Sound (s : Settings) : Prop where
  enabled : ∃ ids : List String, ids.Nodup ∧ s.enabledModules = ids.map .text
  keys : s.symbols.keys.Nodup
  overrides : KeyedByType s.symbols
  categories : ∀ key override, (key, override) ∈ s.symbols.entries →
    override.category.name ∈ ["point", "line", "area"]
  kinds : ∀ u ∈ s.uploads, u.kind = FileKind.ofFileName u.fileName
  drawings : CoversDrawings s.symbols s.uploads
  modules : ∀ m ∈ s.customModules, Text.isBlankText m.displayName = false ∧
    Text.strip m.displayName = m.displayName ∧ Text.isBlankText m.code = false

theorem categories_of_table (symbols : SymbolTable) (key : String) (override : SymbolOverride)
    (_ : (key, override) ∈ symbols.entries) : override.category.name ∈ ["point", "line", "area"] := by
  cases override.category <;> decide

theorem KeyedByType.insert {symbols : SymbolTable} (h : KeyedByType symbols) {key : String}
    {override : SymbolOverride} (hne : key ≠ "") (ht : override.type = key) :
    KeyedByType (symbols.insert key override) := by
  intro k o hin
  rcases Table.mem_put hin with he | hold
  · cases he
    exact ⟨hne, ht⟩
  · exact h k o hold

theorem KeyedByType.fill {symbols : SymbolTable} (h : KeyedByType symbols)
    {entries : List (String × SymbolOverride)}
    (he : ∀ key override, (key, override) ∈ entries → key ≠ "" ∧ override.type = key) :
    KeyedByType (symbols.fill entries) := by
  intro k o hin
  rcases Table.mem_entries_fill hin with hold | hnew
  · exact h k o hold
  · exact he k o hnew

theorem CoversDrawings.mono {symbols symbols' : SymbolTable} {uploads : List Upload}
    (h : CoversDrawings symbols uploads) (hp : symbols.keys <+: symbols'.keys) :
    CoversDrawings symbols' uploads :=
  fun u hu hk type ht => hp.subset (h u hu hk type ht)

def DistinctTexts (items : List Value) : Prop := ∃ ids : List String, ids.Nodup ∧ items = ids.map .text

theorem withoutId_texts (ids : List String) (id : String) :
    withoutId (ids.map .text) id = (ids.filter (· ≠ id)).map .text := by
  rw [withoutId, List.filter_map]
  congr 1
  exact List.filter_congr fun other _ => by simp

namespace DistinctTexts

variable {items : List Value}

theorem distinct_append (h : DistinctTexts items) (id : String) :
    DistinctTexts (Value.distinct (items ++ [.text id])) := by
  obtain ⟨ids, hids, rfl⟩ := h
  rw [Value.distinct_append_singleton, Value.distinct_texts hids, Value.any_text_equals]
  by_cases hin : id ∈ ids
  · exact ⟨ids, hids, by rw [if_pos (by simpa using hin)]⟩
  · refine ⟨ids ++ [id], List.nodup_append'.2 ⟨hids, List.nodup_singleton id, ?_⟩, ?_⟩
    · exact List.disjoint_singleton.2 hin
    · rw [if_neg (by simpa using hin), List.map_append, List.map_singleton]

theorem withoutId (h : DistinctTexts items) (id : String) : DistinctTexts (withoutId items id) := by
  obtain ⟨ids, hids, rfl⟩ := h
  exact ⟨ids.filter (· ≠ id), hids.filter _, withoutId_texts ids id⟩

theorem moved (h : DistinctTexts items) (id : String) (enabled : Bool) :
    DistinctTexts (Settings.withoutId items id ++ if enabled then [.text id] else []) := by
  obtain ⟨ids, hids, rfl⟩ := h
  rw [withoutId_texts]
  cases enabled with
  | false => exact ⟨ids.filter (· ≠ id), hids.filter _, List.append_nil _⟩
  | true =>
    refine ⟨ids.filter (· ≠ id) ++ [id], List.nodup_append'.2 ⟨hids.filter _, List.nodup_singleton id, ?_⟩, ?_⟩
    · exact List.disjoint_singleton.2 fun hin => by simpa using (List.mem_filter.1 hin).2
    · rw [List.map_append]
      rfl

end DistinctTexts

theorem Sound.default : Sound Settings.default where
  enabled := ⟨[], List.nodup_nil, rfl⟩
  keys := List.nodup_nil
  overrides _ _ h := absurd h List.not_mem_nil
  categories := categories_of_table _
  kinds _ h := absurd h List.not_mem_nil
  drawings _ h := absurd h List.not_mem_nil
  modules _ h := absurd h List.not_mem_nil

theorem Sound.withSymbols {s : Settings} (h : s.Sound) {symbols : SymbolTable}
    (ho : KeyedByType symbols) (hp : s.symbols.keys <+: symbols.keys) :
    Sound { s with symbols } where
  enabled := h.enabled
  keys := symbols.nodup
  overrides := ho
  categories := categories_of_table _
  kinds := h.kinds
  drawings := h.drawings.mono hp
  modules := h.modules

theorem Sound.addFile {s : Settings} (h : s.Sound) (id : String) (file : NewFile) :
    (s.addFile id file).Sound ∧ s.symbols.keys <+: (s.addFile id file).symbols.keys := by
  let symbols := (s.addFile id file).symbols
  have hprefix : s.symbols.keys <+: symbols.keys := by
    change _ <+: (if _ then _ else _ : SymbolTable).keys
    split
    · exact Table.keys_prefix_fill _ _
    · exact List.prefix_rfl
  have hkeyed : KeyedByType symbols := by
    change KeyedByType (if _ then _ else _)
    split
    · exact h.overrides.fill fun key override hin => scan_entry hin
    · exact h.overrides
  have hs := h.withSymbols hkeyed hprefix
  refine ⟨⟨hs.enabled, hs.keys, hs.overrides, hs.categories, ?_, ?_, hs.modules⟩, hprefix⟩
  · intro u hu
    rcases List.mem_append.1 hu with hold | hnew
    · exact h.kinds u hold
    · rw [List.mem_singleton.1 hnew]
  · intro u hu hk type ht
    rcases List.mem_append.1 hu with hold | hnew
    · exact hs.drawings u hold hk type ht
    · rw [List.mem_singleton] at hnew
      subst hnew
      change type ∈ (if _ then _ else _ : SymbolTable).keys
      rw [if_pos hk]
      exact Table.mem_keys_fill ht

theorem Sound.removeFile {s : Settings} (h : s.Sound) (id : String) : (s.removeFile id).Sound where
  enabled := h.enabled
  keys := h.keys
  overrides := h.overrides
  categories := h.categories
  kinds u hu := h.kinds u (List.mem_filter.1 hu).1
  drawings u hu := h.drawings u (List.mem_filter.1 hu).1
  modules := h.modules

theorem Sound.addModule {s : Settings} (h : s.Sound) {id name code description : String}
    (hname : Text.isBlankText name = false) (hcode : Text.isBlankText code = false) :
    (s.addModule (newModule id name code description)).Sound where
  enabled := DistinctTexts.distinct_append h.enabled id
  keys := h.keys
  overrides := h.overrides
  categories := h.categories
  kinds := h.kinds
  drawings := h.drawings
  modules := by
    intro m hm
    rcases List.mem_append.1 hm with hold | hnew
    · exact h.modules m hold
    · rw [List.mem_singleton.1 hnew]
      exact ⟨Text.isBlankText_strip hname, Text.strip_strip name, hcode⟩

theorem Sound.removeModule {s : Settings} (h : s.Sound) (id : String) : (s.removeModule id).Sound where
  enabled := DistinctTexts.withoutId h.enabled id
  keys := h.keys
  overrides := h.overrides
  categories := h.categories
  kinds := h.kinds
  drawings := h.drawings
  modules m hm := h.modules m (List.mem_filter.1 hm).1

theorem Sound.setEnabled {s : Settings} (h : s.Sound) (id : String) (enabled : Bool) :
    (s.setEnabled id enabled).Sound where
  enabled := DistinctTexts.moved h.enabled id enabled
  keys := h.keys
  overrides := h.overrides
  categories := h.categories
  kinds := h.kinds
  drawings := h.drawings
  modules := h.modules

theorem Sound.applyTheme {s : Settings} (h : s.Sound) (theme : Theme) : (s.applyTheme theme).Sound where
  enabled := h.enabled
  keys := h.keys
  overrides := h.overrides
  categories := h.categories
  kinds := h.kinds
  drawings := h.drawings
  modules := h.modules

theorem recolor_keyed {symbols : SymbolTable} (h : KeyedByType symbols) (suggestion : Suggestion) :
    KeyedByType (recolor symbols suggestion) ∧ symbols.keys <+: (recolor symbols suggestion).keys := by
  unfold recolor
  split
  · next type override hs =>
    refine ⟨?_, Table.keys_prefix_insert _ _ _⟩
    simp only [suggested?, Option.bind_eq_bind, Option.bind_eq_some_iff] at hs
    obtain ⟨key, -, color, -, old, hold, hs⟩ := hs
    split at hs
    · cases hs
    · cases hs
      obtain ⟨hne, ht⟩ := h _ _ (Table.mem_of_get? hold)
      exact h.insert hne ht
  · exact ⟨h, List.prefix_rfl⟩

theorem recolor_all_keyed {symbols : SymbolTable} (h : KeyedByType symbols)
    (suggestions : List Suggestion) :
    KeyedByType (suggestions.foldl recolor symbols) ∧
      symbols.keys <+: (suggestions.foldl recolor symbols).keys := by
  induction suggestions generalizing symbols with
  | nil => exact ⟨h, List.prefix_rfl⟩
  | cons first rest ih =>
    obtain ⟨hk, hp⟩ := recolor_keyed h first
    obtain ⟨hk', hp'⟩ := ih hk
    exact ⟨hk', hp.trans hp'⟩

theorem revise_type {override revised : SymbolOverride} {changes : OverrideChanges}
    (hc : changes.type = none) (h : override.revise changes = .ok revised) :
    revised.type = override.type := by
  unfold SymbolOverride.revise SymbolOverride.make at h
  rw [hc, Option.getD_none] at h
  split at h
  · cases h
  · split at h
    · cases h
      rfl
    · cases h

end Settings

namespace Session

open Settings

theorem addFiles_sound {session : Session} (h : session.settings.Sound) (ids : Nat → String)
    (files : List NewFile) :
    (session.addFiles ids files).settings.Sound ∧
      session.settings.symbols.keys <+: (session.addFiles ids files).settings.symbols.keys := by
  refine addFiles_induction (P := fun s => s.Sound ∧ session.settings.symbols.keys <+: s.symbols.keys)
    (fun s id file hs => ?_) ⟨h, List.prefix_rfl⟩ files
  obtain ⟨hsound, hkeys⟩ := hs.1.addFile id file
  exact ⟨hsound, hs.2.trans hkeys⟩

/-- One command keeps the invariant and the keys of the override table in their places. -/
theorem after_sound {session : Session} (h : session.settings.Sound) (ids : Nat → String)
    {command : Command} (hc : command.keepsTypes) :
    (after ids session command).settings.Sound ∧
      session.settings.symbols.keys <+: (after ids session command).settings.symbols.keys := by
  cases command with
  | addFiles files => exact addFiles_sound h ids files
  | removeFile id => exact ⟨h.removeFile id, List.prefix_rfl⟩
  | addModule name code description =>
    rw [after_addModule]
    split
    · exact ⟨h, List.prefix_rfl⟩
    · next hfilled =>
      rw [Bool.or_eq_true, not_or, Bool.not_eq_true, Bool.not_eq_true] at hfilled
      exact ⟨h.addModule hfilled.1 hfilled.2, List.prefix_rfl⟩
  | removeModule id => exact ⟨h.removeModule id, List.prefix_rfl⟩
  | setEnabled id enabled => exact ⟨h.setEnabled id enabled, List.prefix_rfl⟩
  | updateSymbol type changes =>
    rcases after_updateSymbol ids session type changes with he | ⟨override, revised, hget, hrevise, he⟩
    · rw [he]
      exact ⟨h, List.prefix_rfl⟩
    · obtain ⟨hne, ht⟩ := h.overrides _ _ (Table.mem_of_get? hget)
      have hp := Table.keys_prefix_insert session.settings.symbols type revised
      rw [he]
      exact ⟨h.withSymbols (h.overrides.insert hne ((revise_type hc hrevise).trans ht)) hp, hp⟩
  | suggestColors suggestions =>
    obtain ⟨hk, hp⟩ := recolor_all_keyed h.overrides suggestions
    exact ⟨h.withSymbols hk hp, hp⟩
  | applyTheme theme => exact ⟨h.applyTheme theme, List.prefix_rfl⟩

theorem reach_sound (ids : Nat → String) {commands : List Command}
    (hc : ∀ command ∈ commands, command.keepsTypes) : (reach ids commands).settings.Sound := by
  induction commands using List.reverseRecOn with
  | nil => exact Sound.default
  | append_singleton commands command ih =>
    rw [reach_concat]
    have hs := ih fun c hin => hc c (List.mem_append_left _ hin)
    exact (after_sound hs ids (hc command List.mem_concat_self)).1

/-- Every snapshot on the way is sound, and every step leaves the earlier keys at the front of the table. -/
theorem reach_sound_and_keys_extended (ids : Nat → String) (commands : List Command)
    (hc : ∀ command ∈ commands, command.keepsTypes) :
    (∀ earlier, earlier <+: commands → (reach ids earlier).settings.Sound) ∧
      ∀ earlier command, earlier ++ [command] <+: commands →
        (reach ids earlier).settings.symbols.keys <+:
          (reach ids (earlier ++ [command])).settings.symbols.keys := by
  have hsound (earlier : List Command) (hp : earlier <+: commands) :
      (reach ids earlier).settings.Sound :=
    reach_sound ids fun c hin => hc c (hp.subset hin)
  refine ⟨hsound, fun earlier command hp => ?_⟩
  rw [reach_concat]
  have hs := hsound earlier ((List.prefix_append _ _).trans hp)
  exact (after_sound hs ids (hc command (hp.subset List.mem_concat_self))).2

/-- A drawing is read, one of its symbols is hidden and recolored, and the drawing goes again. -/
theorem reach_sound_and_keys_extended_drawing :
    (∀ command ∈ [Command.addFiles [⟨"a.TH2", "line wall\npoint 1 2 station", none⟩],
        .updateSymbol "station" { visible := some false },
        .suggestColors [⟨some "wall", some "#aa0000"⟩], .removeFile "id0"], command.keepsTypes) ∧
      (reach (fun _ => "id0") [.addFiles [⟨"a.TH2", "line wall\npoint 1 2 station", none⟩],
        .updateSymbol "station" { visible := some false },
        .suggestColors [⟨some "wall", some "#aa0000"⟩], .removeFile "id0"]).settings.Sound := by
  have hc : ∀ command ∈ [Command.addFiles [⟨"a.TH2", "line wall\npoint 1 2 station", none⟩],
      .updateSymbol "station" { visible := some false },
      .suggestColors [⟨some "wall", some "#aa0000"⟩], .removeFile "id0"], command.keepsTypes := by
    simp [Command.keepsTypes]
  exact ⟨hc, (reach_sound_and_keys_extended (fun _ => "id0") _ hc).1 _ List.prefix_rfl⟩

end Session

end CaveMap
