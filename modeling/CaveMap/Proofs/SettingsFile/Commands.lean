import CaveMap.Proofs.Session.Suggestions
import CaveMap.Proofs.SettingsFile.Reload
import CaveMap.Proofs.SettingsFile.Savable

namespace CaveMap

open SettingsFile

/-- The colors that come with a command. -/
def Command.colors : Command → List String
  | .updateSymbol _ changes => changes.color.join.toList
  | .suggestColors suggestions => (suggestions.filterMap (·.color)).filter (!·.isEmpty)
  | .applyTheme theme => [theme.bgColor, theme.fgColor, theme.surveyColor]
  | _ => []

namespace Settings

/-- All that an accepted document takes, colors apart. -/
structure Fit (s : Settings) : Prop where
  typed : s.Typed
  fields : ∀ field ∉ colorFields, ∃ w, field.check (s.get field) = .ok w
  modules : ∀ m ∈ s.customModules, Text.isBlankText m.displayName = false ∧ Text.isBlankText m.code = false
  keys : "" ∉ s.symbols.keys

variable {s t : Settings}

theorem check_color {field : Field} (hin : field ∈ colorFields) {t : String} (ht : isColorText t) :
    ∃ w, field.check (.text t) = .ok w := by
  have hcheck : (checkColor (.text t)).map Value.text = .ok (.text t) :=
    Check.map_eq_ok.2 ⟨t, checkColor_ok_iff.2 ⟨rfl, ht⟩, rfl⟩
  simp only [colorFields, List.mem_cons, List.not_mem_nil, or_false] at hin
  rcases hin with rfl | rfl | rfl <;> exact ⟨_, hcheck⟩

theorem Typed.colored_fields (hs : s.Typed) (h : ∀ field : Field, ∃ w, field.check (s.get field) = .ok w) :
    ∀ field ∈ colorFields, ∃ t, s.get field = .text t ∧ isColorText t := by
  intro field hin
  obtain ⟨w, hw⟩ := h field
  have hloaded : field.kind.loaded (s.get field) = s.get field := by
    revert hin
    cases field <;> first | exact fun _ => rfl | exact fun hin => absurd hin (by decide)
  have heq : w = s.get field := (Field.check_eq (hs.scalars field).takes hw).trans hloaded
  exact heq ▸ checked_color hin hw

theorem Typed.colored_iff (hs : s.Typed) : s.Colored ↔ ∀ v ∈ s.colors, ∃ t, checkColor v = .ok t := by
  constructor
  · intro h v hv
    obtain ⟨t, rfl, ht⟩ := h.mem_colors hv
    exact ⟨t, checkColor_ok_iff.2 ⟨rfl, ht⟩⟩
  · intro h
    have hcolor {t : String} (ht : .text t ∈ s.colors) : isColorText t := by
      obtain ⟨t', ht'⟩ := h _ ht
      obtain ⟨htext, hcolor⟩ := checkColor_ok_iff.1 ht'
      cases htext
      exact hcolor
    refine ⟨fun field hin => ?_, fun key override hin t ht => hcolor (List.mem_append_right _ ?_)⟩
    · have hkind : field.kind = .text := by
        revert hin
        cases field <;> decide
      have hholds := hs.scalars field
      rw [hkind] at hholds
      obtain ⟨t, ht⟩ := hholds
      exact ⟨t, ht, hcolor (List.mem_append_left _ (ht ▸ List.mem_map_of_mem hin))⟩
    · exact List.mem_filterMap.2 ⟨(key, override), hin, by rw [ht]; rfl⟩

theorem Fit.admissible_iff (h : s.Fit) : s.Admissible ↔ s.Colored := by
  refine ⟨fun ha => ⟨h.typed.colored_fields ha.fields, ha.overrides⟩,
    fun hc => ⟨fun field => ?_, h.modules, h.keys, hc.overrides⟩⟩
  by_cases hin : field ∈ colorFields
  · obtain ⟨t, ht, hcolor⟩ := hc.fields field hin
    rw [ht]
    exact check_color hin hcolor
  · exact h.fields field hin

theorem Admissible.fit (h : s.Admissible) (hs : s.Typed) : s.Fit :=
  ⟨hs, fun field _ => h.fields field, h.modules, h.keys⟩

theorem Fit.of_get (h : s.Fit) (hget : t.get = s.get) (henabled : DistinctTexts t.enabledModules)
    (hmodules : ∀ m ∈ t.customModules, Text.isBlankText m.displayName = false ∧ Text.isBlankText m.code = false)
    (hkeys : "" ∉ t.symbols.keys) : t.Fit :=
  ⟨⟨fun field => hget ▸ h.typed.scalars field, henabled⟩, fun field => hget ▸ h.fields field, hmodules, hkeys⟩

theorem Fit.addFile (h : s.Fit) (id : String) (file : NewFile) : (s.addFile id file).Fit := by
  refine h.of_get rfl h.typed.enabled h.modules ?_
  change "" ∉ (if _ then _ else _ : SymbolTable).keys
  split
  · intro hin
    obtain ⟨⟨key, override⟩, hentry, hkey⟩ := List.mem_map.1 hin
    obtain rfl : key = "" := hkey
    rcases Table.mem_entries_fill hentry with hold | hnew
    · exact h.keys (List.mem_map_of_mem hold)
    · exact (Drawing.scan_entry hnew).1 rfl
  · exact h.keys

theorem Fit.addModule (h : s.Fit) {id name code description : String} (hname : Text.isBlankText name = false)
    (hcode : Text.isBlankText code = false) : (s.addModule (newModule id name code description)).Fit := by
  refine h.of_get rfl (DistinctTexts.distinct_append h.typed.enabled id) (fun m hm => ?_) h.keys
  rcases List.mem_append.1 hm with hold | hnew
  · exact h.modules m hold
  · rw [List.mem_singleton.1 hnew]
    exact ⟨Text.isBlankText_strip hname, hcode⟩

theorem Fit.removeModule (h : s.Fit) (id : String) : (s.removeModule id).Fit :=
  h.of_get rfl (DistinctTexts.withoutId h.typed.enabled id) (fun m hm => h.modules m (List.mem_filter.1 hm).1)
    h.keys

theorem Fit.applyTheme (h : s.Fit) (theme : Theme) : (s.applyTheme theme).Fit := by
  refine ⟨⟨fun field => ?_, h.typed.enabled⟩, fun field hnot => ?_, h.modules, h.keys⟩
  · cases field with
    | colorScheme | mapBgColor | mapFgColor | surveyColor => exact ⟨_, rfl⟩
    | _ => exact h.typed.scalars _
  · cases field with
    | colorScheme => exact ⟨_, rfl⟩
    | mapBgColor | mapFgColor | surveyColor => exact absurd (by decide) hnot
    | _ => exact h.fields _ (by decide)

theorem colored_recolor {symbols : SymbolTable} (h : ColoredOverrides symbols) {suggestion : Suggestion}
    (hc : ∀ t, suggestion.color = some t → t ≠ "" → isColorText t) :
    ColoredOverrides (recolor symbols suggestion) := by
  unfold recolor
  split
  · next type override hs =>
    simp only [suggested?, Option.bind_eq_bind, Option.bind_eq_some_iff] at hs
    obtain ⟨key, -, color, hcolor, old, hold, hs⟩ := hs
    split at hs
    · cases hs
    · next hfilled =>
      cases hs
      refine h.insert type fun t ht => ?_
      cases ht
      exact hc color hcolor (by simp_all)
  · exact h

theorem colored_recolor_all {symbols : SymbolTable} (h : ColoredOverrides symbols) {suggestions : List Suggestion}
    (hc : ∀ suggestion ∈ suggestions, ∀ t, suggestion.color = some t → t ≠ "" → isColorText t) :
    ColoredOverrides (suggestions.foldl recolor symbols) := by
  induction suggestions generalizing symbols with
  | nil => exact h
  | cons first rest ih =>
    exact ih (colored_recolor h (hc first List.mem_cons_self)) fun s hin => hc s (List.mem_cons_of_mem _ hin)

theorem revise_color {override revised : SymbolOverride} {changes : OverrideChanges}
    (h : override.revise changes = .ok revised) : revised.color = changes.color.getD override.color := by
  unfold SymbolOverride.revise SymbolOverride.make at h
  split at h
  · cases h
  · split at h
    · cases h
      rfl
    · cases h

end Settings

namespace Session

open Settings

variable {session : Session}

theorem fit_addFiles (h : session.settings.Fit) (ids : Nat → String) (files : List NewFile) :
    (session.addFiles ids files).settings.Fit :=
  addFiles_induction (fun _ id file hs => hs.addFile id file) h files

/-- No command spoils anything in the document but colors. -/
theorem fit_after (h : session.settings.Fit) (ids : Nat → String) (command : Command) :
    (after ids session command).settings.Fit := by
  cases command with
  | addFiles files => exact fit_addFiles h ids files
  | removeFile id => exact h.of_get rfl h.typed.enabled h.modules h.keys
  | addModule name code description =>
    rw [after_addModule]
    split
    · exact h
    · next hfilled =>
      rw [Bool.or_eq_true, not_or, Bool.not_eq_true, Bool.not_eq_true] at hfilled
      exact h.addModule hfilled.1 hfilled.2
  | removeModule id => exact h.removeModule id
  | setEnabled id enabled =>
    exact h.of_get rfl (DistinctTexts.moved h.typed.enabled id enabled) h.modules h.keys
  | updateSymbol type changes =>
    rcases after_updateSymbol ids session type changes with he | ⟨override, revised, hget, -, he⟩
    · rw [he]
      exact h
    · rw [he]
      refine h.of_get rfl h.typed.enabled h.modules ?_
      exact Table.keys_insert_of_mem (Table.mem_keys_of_get? hget) ▸ h.keys
  | suggestColors suggestions =>
    refine h.of_get rfl h.typed.enabled h.modules ?_
    exact recolor_all_keys session.settings.symbols suggestions ▸ h.keys
  | applyTheme theme => exact h.applyTheme theme

theorem colored_after (h : session.settings.Colored) (ids : Nat → String) {command : Command}
    (hc : ∀ t ∈ command.colors, isColorText t) : (after ids session command).settings.Colored := by
  cases command with
  | addFiles files => exact h.addFiles ids files
  | updateSymbol type changes =>
    rcases after_updateSymbol ids session type changes with he | ⟨override, revised, hget, hrevise, he⟩
    · rw [he]
      exact h
    · rw [he]
      refine ⟨h.fields, h.overrides.insert type fun t ht => ?_⟩
      rw [revise_color hrevise] at ht
      cases hcolor : changes.color with
      | none =>
        rw [hcolor, Option.getD_none] at ht
        exact h.overrides type override (Table.mem_of_get? hget) t ht
      | some color =>
        rw [hcolor, Option.getD_some] at ht
        exact hc t (by simp [Command.colors, hcolor, ht])
  | suggestColors suggestions =>
    refine ⟨h.fields, colored_recolor_all h.overrides fun suggestion hin t ht hne => hc t ?_⟩
    simp only [Command.colors, List.mem_filter, List.mem_filterMap]
    exact ⟨⟨suggestion, hin, ht⟩, by simpa using hne⟩
  | addModule name code description =>
    rw [after_addModule]
    split <;> exact ⟨h.fields, h.overrides⟩
  | applyTheme theme => exact h.applyTheme (by simpa [Command.colors] using hc)
  | _ => exact ⟨h.fields, h.overrides⟩

/-- Any number of commands, each with colors that a document may hold. -/
theorem document_accepted_reached (hs : session.settings.Typed) {directory : List String} {base : Option Path}
    (ha : ∃ draft, checkDocument (document directory base session.settings) = .ok draft) (ids : Nat → String)
    {commands : List Command} (hc : ∀ command ∈ commands, ∀ t ∈ command.colors, isColorText t)
    (directory' : List String) (base' : Option Path) :
    ∃ draft, checkDocument (document directory' base' (commands.foldl (after ids) session).settings) = .ok draft := by
  have hadmissible := (accepted_document_iff hs directory base).1 ha
  have hreached : ∀ session' : Session, session'.settings.Fit → session'.settings.Colored →
      (commands.foldl (after ids) session').settings.Fit ∧
        (commands.foldl (after ids) session').settings.Colored := by
    clear hs ha hadmissible
    induction commands with
    | nil => exact fun _ hfit ho => ⟨hfit, ho⟩
    | cons command rest ih =>
      intro session' hfit ho
      exact ih (fun c hin => hc c (List.mem_cons_of_mem _ hin)) _ (fit_after hfit ids command)
        (colored_after ho ids (hc command List.mem_cons_self))
  have hfit := hadmissible.fit hs
  obtain ⟨hfit, ho⟩ := hreached session hfit (hfit.admissible_iff.1 hadmissible)
  exact (accepted_document_iff hfit.typed directory' base').2 (hfit.admissible_iff.2 ho)

/-- After a command that succeeds, the document of the new snapshot is accepted exactly when its colors are; so it
is whenever the colors that come with the command are. -/
theorem document_accepted_after {session next : Session} {ids : Nat → String} {command : Command}
    {directory : List String} {base : Option Path} (hs : session.settings.Typed)
    (ha : ∃ draft, checkDocument (document directory base session.settings) = .ok draft)
    (hrun : (session.run ids command).result = .ok next) :
    (∀ directory' base', (∃ draft, checkDocument (document directory' base' next.settings) = .ok draft) ↔
      ∀ v ∈ next.settings.colors, ∃ t, checkColor v = .ok t) ∧
    ((∀ t ∈ command.colors, checkColor (.text t) = .ok t) → ∀ directory' base',
      ∃ draft, checkDocument (document directory' base' next.settings) = .ok draft) := by
  have hadmissible := (accepted_document_iff hs directory base).1 ha
  have hnext : after ids session command = next := by
    unfold after
    rw [hrun]
  have hbefore := hadmissible.fit hs
  have hfit : next.settings.Fit := hnext ▸ fit_after hbefore ids command
  have hcolor (t : String) : checkColor (.text t) = .ok t ↔ isColorText t := by
    rw [checkColor_ok_iff, checkText_text, and_iff_right rfl]
  simp only [hcolor, accepted_document_iff hfit.typed, ← hfit.typed.colored_iff]
  refine ⟨fun _ _ => hfit.admissible_iff, fun hc _ _ => hfit.admissible_iff.2 ?_⟩
  exact hnext ▸ colored_after (hbefore.admissible_iff.1 hadmissible) ids hc

theorem accepted_decorated : ∃ draft, checkDocument (document [] none decorated) = .ok draft :=
  Except.exists_ok (by decide +kernel)

def recoloring (color : String) : Command := .updateSymbol "stalactite" { color := some (some color) }

def recolored (color : String) : Session :=
  { settings :=
      { decorated with
        symbols := decorated.symbols.insert "stalactite"
          { type := "stalactite", category := .point, color := some color } } }

theorem run_recoloring (color : String) :
    (run (fun _ => "") { settings := decorated } (recoloring color)).result = .ok (recolored color) := rfl

theorem document_accepted_after_recolored :
    (run (fun _ => "") { settings := decorated } (recoloring "#AA0000")).result = .ok (recolored "#AA0000") ∧
      ∀ directory base, ∃ draft,
        checkDocument (document directory base (recolored "#AA0000").settings) = .ok draft := by
  have hcolors : ∀ t ∈ (recoloring "#AA0000").colors, checkColor (.text t) = .ok t := by
    have hlist : (recoloring "#AA0000").colors = ["#AA0000"] := rfl
    rw [hlist]
    simp only [List.forall_mem_singleton]
    decide +kernel
  have hrun := run_recoloring "#AA0000"
  have htyped : (Session.mk decorated 0).settings.Typed := typed_decorated
  have haccepted : ∃ draft, checkDocument (document [] none (Session.mk decorated 0).settings) = .ok draft :=
    accepted_decorated
  exact ⟨hrun, (document_accepted_after htyped haccepted hrun).2 hcolors⟩

/-- The document is accepted before a symbol is given a color by its name, and is not any more afterwards. -/
theorem document_refused_after_named_color :
    decorated.Typed ∧ (decorated.customModules.map (·.id)).Nodup ∧
      (∃ draft, checkDocument (document [] none decorated) = .ok draft) ∧
      (run (fun _ => "") { settings := decorated } (recoloring "red")).result = .ok (recolored "red") ∧
      ¬ ∃ draft, checkDocument (document [] none (recolored "red").settings) = .ok draft := by
  refine ⟨typed_decorated, recorded_decorated.ids, accepted_decorated, run_recoloring "red", ?_⟩
  rintro ⟨draft, hdraft⟩
  have hrefused : (checkDocument (document [] none (recolored "red").settings)).toOption.isNone := by
    decide +kernel
  rw [hdraft] at hrefused
  cases hrefused

end Session

end CaveMap
