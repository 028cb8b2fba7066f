import CaveMap.Proofs.Document.Exports
import CaveMap.Proofs.Number.Exact
import CaveMap.Proofs.SettingsFile.Saved
import CaveMap.Proofs.SettingsFile.Typed

namespace CaveMap

namespace Value

theorem eq_of_equalItems_texts {names others : List String}
    (h : equalItems (names.map text) (others.map text)) : names = others := by
  induction names generalizing others with
  | nil =>
    cases others with
    | nil => rfl
    | cons => simp [equalItems] at h
  | cons name rest ih =>
    cases others with
    | nil => simp [equalItems] at h
    | cons other more =>
      have hboth : name = other ∧ equalItems (rest.map text) (more.map text) := by
        simpa [equalItems] using h
      rw [hboth.1, ih hboth.2]

end Value

namespace FieldKind

/-- The values of a kind, any number among the numbers. -/
def Suits : FieldKind → Value → Prop
  | number, v => v.IsNumber
  | kind, v => kind.Holds v

variable {kind : FieldKind} {v w : Value}

theorem eq_of_equals (hkind : kind ≠ number) (hv : kind.Suits v) (hw : kind.Suits w) (h : v.equals w) :
    v = w := by
  cases kind with
  | text =>
    obtain ⟨s, rfl⟩ := hv
    exact (Value.text_equals_iff.1 h).symm
  | flag =>
    obtain ⟨b, rfl⟩ := hv
    obtain ⟨c, rfl⟩ := hw
    cases b <;> cases c <;> simp_all [Value.equals, Value.integer?]
  | number => exact absurd rfl hkind
  | count =>
    obtain ⟨i, rfl⟩ := hv
    obtain ⟨j, rfl⟩ := hw
    have hij : i = j := by simpa [Value.equals, Value.integer?] using h
    rw [hij]
  | choices =>
    obtain ⟨names, rfl⟩ := hv
    obtain ⟨others, rfl⟩ := hw
    have hitems : Value.equalItems (names.map .text) (others.map .text) := by simpa [Value.equals] using h
    rw [Value.eq_of_equalItems_texts hitems]

end FieldKind

namespace Table

variable {α : Type} {a b : Table α}

theorem perm_of_equals [DecidableEq α] (h : a.equals (· = ·) b) : a.entries.Perm b.entries := by
  have hboth : a.size = b.size ∧ ∀ entry ∈ a.entries, (b.get? entry.1).any (entry.2 = ·) := by
    simpa [equals] using h
  obtain ⟨hsize, hall⟩ := hboth
  have hnodup : a.entries.Nodup := a.nodup.of_map _
  have hsubset : a.entries ⊆ b.entries := by
    intro entry hin
    obtain ⟨value, hget, hvalue⟩ := Option.any_eq_true _ _ |>.1 (hall entry hin)
    rw [← of_decide_eq_true hvalue] at hget
    exact mem_of_get? hget
  exact (List.subperm_of_subset hnodup hsubset).perm_of_length_le (Nat.le_of_eq hsize.symm)

theorem eq_of_perm (h : a.entries.Perm b.entries) (hk : a.keys = b.keys) : a = b := by
  have hinj : ∀ entry ∈ b.entries, ∀ other ∈ b.entries, entry.1 = other.1 → entry = other :=
    fun entry he other ho => List.inj_on_of_nodup_map b.nodup he ho
  refine ext_entries (List.ext_getElem h.length_eq fun i hi hi' => ?_)
  refine hinj _ (h.subset (List.getElem_mem hi)) _ (List.getElem_mem hi') ?_
  have hkey : a.keys[i]? = b.keys[i]? := by rw [hk]
  simpa [keys, hi, hi'] using hkey

end Table

namespace Settings

/-- Fields that hold values of their kinds, and enabled ids that are texts. -/
structure Declared (s : Settings) : Prop where
  scalars : ∀ field : Field, field.kind.Suits (s.get field)
  enabled : ∃ ids : List String, s.enabledModules = ids.map .text

/-- Equality by meaning; a value that both settings hold equals itself, even if it is a NaN. -/
structure Equal (s t : Settings) : Prop where
  scalars : ∀ field, s.get field = t.get field ∨ (s.get field).equals (t.get field)
  lists : s.equalsInLists t

variable {s t : Settings}

theorem Equal.of_equals (h : s.equals t) : s.Equal t := by
  have hboth := Bool.and_eq_true_iff.1 h
  exact ⟨fun field => .inr (List.all_eq_true.1 hboth.1 field field.mem_all), hboth.2⟩

/-- What equal settings share: everything but the kinds of numbers and the order of the overrides. -/
structure Shares (s t : Settings) : Prop where
  scalars : ∀ field : Field, field.kind ≠ .number → s.get field = t.get field
  numbers : ∀ field : Field, field.kind = .number → (s.get field).plain = (t.get field).plain
  written : ∀ field : Field, (s.get field).isWritable = (t.get field).isWritable
  uploads : s.uploads = t.uploads
  enabled : s.enabledModules = t.enabledModules
  customModules : s.customModules = t.customModules
  symbols : s.symbols.entries.Perm t.symbols.entries

theorem Equal.shares (h : s.Equal t) (hs : s.Declared) (ht : t.Declared) : s.Shares t := by
  have hlists := h.lists
  simp only [equalsInLists, Bool.and_eq_true, decide_eq_true_eq] at hlists
  obtain ⟨⟨⟨huploads, henabled⟩, hcustom⟩, hsymbols⟩ := hlists
  refine ⟨fun field hkind => ?_, fun field hkind => ?_, fun field => ?_, huploads, ?_, hcustom,
    Table.perm_of_equals hsymbols⟩
  · rcases h.scalars field with he | he
    · exact he
    · exact FieldKind.eq_of_equals hkind (hs.scalars field) (ht.scalars field) he
  · rcases h.scalars field with he | he
    · rw [he]
    · have hv := hs.scalars field
      have hw := ht.scalars field
      rw [hkind] at hv hw
      exact Value.plain_of_equals hv hw he
  · rcases h.scalars field with he | he
    · rw [he]
    · have hv := hs.scalars field
      have hw := ht.scalars field
      by_cases hkind : field.kind = .number
      · rw [hkind] at hv hw
        exact Value.isWritable_of_equals hv hw he
      · rw [FieldKind.eq_of_equals hkind hv hw he]
  · obtain ⟨ids, hids⟩ := hs.enabled
    obtain ⟨others, hothers⟩ := ht.enabled
    rw [hids, hothers] at henabled ⊢
    rw [Value.eq_of_equalItems_texts henabled]

def restated (s t : Settings) : Settings :=
  { s with
    scale := t.scale
    legendWidth := t.legendWidth
    headerX := t.headerX
    headerY := t.headerY
    logoWidth := t.logoWidth
    caveNameFontSize := t.caveNameFontSize
    borderThickness := t.borderThickness
    stationLabelSize := t.stationLabelSize
    rotation := t.rotation
    overlap := t.overlap
    scaleBarLength := t.scaleBarLength
    symbols := t.symbols }

theorem Shares.restated_eq (h : s.Shares t) : s.restated t = t := by
  refine ext_get (fun field => ?_) h.uploads h.enabled h.customModules rfl
  by_cases hkind : field.kind = .number
  · cases field <;> first | rfl | exact absurd hkind (by decide)
  · have hsame : (s.restated t).get field = s.get field := by
      cases field <;> first | rfl | exact absurd rfl hkind
    rw [hsame, h.scalars field hkind]

end Settings

/-- The directives of the overrides, those of each type as one group. -/
def Symbol.directiveGroups (table : SymbolTable) (default : Value) : List (List String) :=
  table.entries.map fun (key, override) => directives key override default

def Visible.withDirectives (v : Visible) (directives : List String) : Visible := { v with directives }

namespace Layout

variable {s t : Settings}

/-- Equal settings show the same but for the order of the groups of directives. -/
theorem visible_of_shares (h : s.Shares t) :
    visible t = (visible s).withDirectives (Symbol.directiveGroups t.symbols s.defaultSymbolSet).flatten := by
  have hplain (field : Field) (hkind : field.kind = .number) : (t.get field).plain = (s.get field).plain :=
    (h.numbers field hkind).symm
  have hlogo : t.logoWidth.plain = s.logoWidth.plain := hplain .logoWidth rfl
  have hlabel : t.stationLabelSize.plain = s.stationLabelSize.plain := hplain .stationLabelSize rfl
  rw [← h.restated_eq]
  apply Visible.ext
  case scale => exact hplain .scale rfl
  case directives => exact List.flatMap_def
  case rotation => exact hplain .rotation rfl
  case overlap => exact hplain .overlap rfl
  case scaleBar => exact hplain .scaleBarLength rfl
  case headerX => exact hplain .headerX rfl
  case headerY => exact hplain .headerY rfl
  case legendWidth => exact hplain .legendWidth rfl
  case fontSize => exact hplain .caveNameFontSize rfl
  case border => exact hplain .borderThickness rfl
  case logo =>
    simp only [visible, Settings.restated, hlogo]
    rfl
  case stationLabels =>
    simp only [visible, Settings.restated, hlabel]
    rfl
  all_goals rfl

theorem pasted_of_declared (hs : s.Declared) : ∀ field ∈ pastedFields, ∃ text, s.get field = .text text := by
  intro field hin
  have hkind : field.kind = .text := by
    revert hin
    cases field <;> decide
  have hsuits := hs.scalars field
  rw [hkind] at hsuits
  exact hsuits

theorem writable_of_shares (h : s.Shares t) : Writable s ↔ Writable t := by
  have hset : s.defaultSymbolSet = t.defaultSymbolSet := h.scalars .defaultSymbolSet (by decide)
  have hlogo : s.logoPath = t.logoPath := h.scalars .logoPath (by decide)
  have hlabels : s.debugStationNames = t.debugStationNames := h.scalars .debugStationNames (by decide)
  simp only [Writable, effectiveSet, writtenFields, hset, hlogo, hlabels, h.written]

theorem generate_of_shares (hs : s.Declared) (ht : t.Declared) (h : s.Shares t)
    (hkeys : s.symbols.keys = t.symbols.keys) : generate s = generate t := by
  have hsymbols : s.symbols = t.symbols := Table.eq_of_perm h.symbols hkeys
  have hvisible : visible t = visible s := by
    rw [visible_of_shares h, ← hsymbols, Symbol.directiveGroups, ← List.flatMap_def]
    rfl
  have hsections : sections s = sections t := by
    rw [sections_eq (pasted_of_declared hs), sections_eq (pasted_of_declared ht), hvisible]
    exact if_congr (writable_of_shares h) rfl rfl
  have hmodules : enabledModules s = enabledModules t := by
    rw [← h.restated_eq]
    rfl
  unfold generate
  rw [hsections, hmodules]

end Layout

theorem Config.generate_of_shares {s t : Settings} (h : s.Shares t) (name : String) :
    generate s name = generate t name := by
  rw [← h.restated_eq]
  exact generate_congr (t := s) (s := s.restated t) rfl rfl rfl rfl name

namespace Layout

/-- Equal settings have the same config documents, and layout documents that differ in the order of the groups of
directives at most, one group for each type in the order of the table; or neither has a layout document, for a number
that is too long to be written. -/
theorem documents_of_equal {s t : Settings} (hs : s.Declared) (ht : t.Declared) (h : s.Equal t) :
    (∀ name, Config.generate s name = Config.generate t name) ∧
      (s.symbols.keys = t.symbols.keys → generate s = generate t) ∧
      (Writable s → ∃ (v : Visible) (groups groups' : List (List String)), groups.Perm groups' ∧
        groups = Symbol.directiveGroups s.symbols s.defaultSymbolSet ∧
        groups' = Symbol.directiveGroups t.symbols t.defaultSymbolSet ∧
        (generate s).result = .ok (v.withDirectives groups.flatten).text ∧
        (generate t).result = .ok (v.withDirectives groups'.flatten).text) ∧
      (¬ Writable s → (generate s).result = .error .longInteger ∧ (generate t).result = .error .longInteger) := by
  have hshares := h.shares hs ht
  have hwritable := writable_of_shares hshares
  refine ⟨Config.generate_of_shares hshares, generate_of_shares hs ht hshares,
    fun hw => ⟨visible s, _, _, ?_, rfl, rfl, ?_, ?_⟩, fun hw => ⟨?_, ?_⟩⟩
  · have hset : s.defaultSymbolSet = t.defaultSymbolSet := hshares.scalars .defaultSymbolSet (by decide)
    rw [hset]
    exact hshares.symbols.map _
  · rw [generate_eq_visible (pasted_of_declared hs) hw, Symbol.directiveGroups, ← List.flatMap_def]
    rfl
  · have hset : t.defaultSymbolSet = s.defaultSymbolSet := (hshares.scalars .defaultSymbolSet (by decide)).symm
    rw [generate_eq_visible (pasted_of_declared ht) (hwritable.1 hw), visible_of_shares hshares, hset]
  · exact generate_of_not_writable (pasted_of_declared hs) hw
  · exact generate_of_not_writable (pasted_of_declared ht) (mt hwritable.2 hw)

def withoutLines (scale : Value) (types : List String) : Settings :=
  { Settings.default with
    scale
    symbols := .ofList (types.map fun type => (type, { type, category := .line, visible := false })) }

theorem declared_withoutLines (scale : Value) (hscale : scale.IsNumber) (types : List String) :
    (withoutLines scale types).Declared where
  scalars field := by
    cases field with
    | scale => exact hscale
    | exportTypes => exact ⟨["map"], rfl⟩
    | legendWidth | headerX | headerY | logoWidth | caveNameFontSize | borderThickness | stationLabelSize | rotation
    | overlap | scaleBarLength => trivial
    | _ => exact ⟨_, rfl⟩
  enabled := ⟨[], rfl⟩

theorem equals_withoutLines : (withoutLines (.int 100) ["wall", "pit"]).equals
    (withoutLines (.float (.ofInt 100)) ["pit", "wall"]) := by
  decide +kernel

/-- The scale is an integer or a floating-point number, and the table is in either order. -/
theorem documents_of_equal_withoutLines :
    (withoutLines (.int 100) ["wall", "pit"]).Equal (withoutLines (.float (.ofInt 100)) ["pit", "wall"]) ∧
      ∃ (v : Visible) (groups groups' : List (List String)), groups.Perm groups' ∧
        (generate (withoutLines (.int 100) ["wall", "pit"])).result = .ok (v.withDirectives groups.flatten).text ∧
        (generate (withoutLines (.float (.ofInt 100)) ["pit", "wall"])).result =
          .ok (v.withDirectives groups'.flatten).text := by
  have hequal := Settings.Equal.of_equals equals_withoutLines
  obtain ⟨-, -, hdocuments, -⟩ := documents_of_equal
    (declared_withoutLines (.int 100) trivial _) (declared_withoutLines (.float (.ofInt 100)) trivial _) hequal
  obtain ⟨v, groups, groups', hperm, -, -, htext, htext'⟩ := hdocuments (by decide +kernel)
  exact ⟨hequal, v, groups, groups', hperm, htext, htext'⟩

/-- Equal settings whose layout documents are not the same. -/
theorem documents_differ_in_order :
    (withoutLines (.int 100) ["wall", "pit"]).Declared ∧ (withoutLines (.int 100) ["pit", "wall"]).Declared ∧
      (withoutLines (.int 100) ["wall", "pit"]).equals (withoutLines (.int 100) ["pit", "wall"]) ∧
      (generate (withoutLines (.int 100) ["wall", "pit"])).result.toOption ≠
        (generate (withoutLines (.int 100) ["pit", "wall"])).result.toOption :=
  ⟨declared_withoutLines (.int 100) trivial _, declared_withoutLines (.int 100) trivial _, by decide +kernel,
    by decide +kernel⟩

end Layout

end CaveMap
