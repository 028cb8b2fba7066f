import CaveMap.Proofs.SettingsFile.Accepted
import CaveMap.Proofs.Value

namespace CaveMap

namespace Value

theorem entry?_cons (k value : Value) (rest : List (Value × Value)) (key : String) :
    entry? ((k, value) :: rest) key = if k.equals (text key) then some value else entry? rest key := by
  unfold entry?
  simp only [List.find?_cons]
  cases k.equals (text key) <;> rfl

theorem entry?_insertEntry (key other : String) (value : Value) (entries : List (Value × Value)) :
    entry? (insertEntry (text key) value entries) other =
      if key = other then some value else entry? entries other := by
  induction entries with
  | nil =>
    rw [insertEntry, entry?_cons, equals_text]
    simp only [decide_eq_true_eq]
  | cons first rest ih =>
    obtain ⟨k, v⟩ := first
    rw [insertEntry]
    by_cases hk : k.equals (text key)
    · rw [if_pos hk, entry?_cons, entry?_cons, equals_text_iff.1 hk, equals_text]
      by_cases ho : key = other <;> simp [ho]
    · rw [if_neg hk, entry?_cons, entry?_cons, ih]
      by_cases ho : key = other
      · rw [← ho, if_pos rfl, if_neg hk, if_pos rfl]
      · rw [if_neg ho, if_neg ho]

theorem mem_keys_insertEntry {key : String} {value k : Value} {entries : List (Value × Value)}
    (h : k ∈ (insertEntry (text key) value entries).map (·.1)) : k = text key ∨ k ∈ entries.map (·.1) := by
  induction entries with
  | nil => exact .inl (List.mem_singleton.1 h)
  | cons first rest ih =>
    obtain ⟨k', v⟩ := first
    rw [insertEntry] at h
    split at h
    · exact .inr h
    · rcases List.mem_cons.1 h with rfl | hin
      · exact .inr List.mem_cons_self
      · exact (ih hin).imp_right (List.mem_cons_of_mem _)

end Value

theorem Field.key_injective {field other : Field} (h : field.key = other.key) : field = other :=
  List.inj_on_of_nodup_map nodup_keys field.mem_all other.mem_all h

namespace SettingsFile

open Check

variable {entries : Entries} {key other : String} {absent value : Value} {change : Value → Value}

/-- The entries with the value of a key changed; `absent` stands for the value of a key that is not there. -/
def amended (key : String) (absent : Value) (change : Value → Value) (entries : Entries) : Entries :=
  Value.insertEntry (.text key) (change (entryOr entries key absent)) entries

def onEntries (change : Entries → Entries) : Value → Value
  | .map entries => .map (change entries)
  | value => value

def appended (texts : List String) (value : Value) : Value := .list (value.items?.getD [] ++ texts.map .text)

theorem entry?_amended : Value.entry? (amended key absent change entries) key =
    some (change (entryOr entries key absent)) := by
  rw [amended, Value.entry?_insertEntry, if_pos rfl]

theorem entry?_amended_of_ne (h : other ≠ key) :
    Value.entry? (amended key absent change entries) other = Value.entry? entries other := by
  rw [amended, Value.entry?_insertEntry, if_neg h.symm]

theorem entryOr_amended :
    entryOr (amended key absent change entries) key value = change (entryOr entries key absent) := by
  rw [entryOr, entry?_amended, Option.getD_some]

theorem entryOr_amended_of_ne (h : other ≠ key) :
    entryOr (amended key absent change entries) other value = entryOr entries other value := by
  rw [entryOr, entryOr, entry?_amended_of_ne h]

theorem fieldOr_amended_of_ne {α : Type} {default : α} {check : Value → Check α} (h : other ≠ key) :
    fieldOr (amended key absent change entries) other default check = fieldOr entries other default check := by
  rw [fieldOr, fieldOr, entry?_amended_of_ne h]

theorem KnownKeys.amended {known : List String} (h : KnownKeys known entries) (hkey : key ∈ known) :
    KnownKeys known (amended key absent change entries) := by
  intro k hk
  rcases Value.mem_keys_insertEntry hk with rfl | hin
  · exact ⟨key, hkey, rfl⟩
  · exact h k hin

/-- The keys of the parts of a document, its version apart. -/
def partKeys : List String := ["theme"] ++ Section.all.map Section.key ++ ["modules", "symbols", "sources"]

theorem versionKey_amended (hkey : key ∈ partKeys) :
    versionKey (amended key absent change entries) = versionKey entries := by
  have hne : "schema" ≠ key := by
    rintro rfl
    exact absurd hkey (by decide)
  unfold versionKey
  rw [entry?_amended_of_ne hne]

theorem versionKey_ne (hkey : key ∈ partKeys) (entries : Entries) : versionKey entries ≠ key := by
  unfold versionKey
  rintro rfl
  split at hkey <;> exact absurd hkey (by decide)

theorem knownKeys_amended (h : KnownKeys (documentKeys entries) entries) (hkey : key ∈ partKeys) :
    KnownKeys (documentKeys (amended key absent change entries)) (amended key absent change entries) := by
  have hkeys : documentKeys (amended key absent change entries) = documentKeys entries := by
    rw [documentKeys, versionKey_amended hkey, documentKeys]
  rw [hkeys]
  exact h.amended (List.mem_cons_of_mem _ hkey)

theorem version_amended (hkey : key ∈ partKeys) :
    fieldOr (amended key absent change entries) (versionKey (amended key absent change entries)) () checkVersion =
      fieldOr entries (versionKey entries) () checkVersion := by
  rw [versionKey_amended hkey, fieldOr_amended_of_ne (versionKey_ne hkey entries)]

theorem Section.key_injective {part other : Section} (h : part.key = other.key) : part = other := by
  cases part <;> cases other <;> first | rfl | exact absurd h (by decide)

theorem Section.key_mem_partKeys (part : Section) : part.key ∈ partKeys := by
  cases part <;> decide

def withTheme (id : String) : Entries → Entries := amended "theme" .null fun _ => .text id

/-- Another value for a field in its section. -/
def withField (part : Section) (field : Field) (value : Value) : Entries → Entries :=
  amended part.key (.map []) (onEntries (amended field.key .null fun _ => value))

def withEnabled (ids : List String) : Entries → Entries :=
  amended "modules" (.map []) (onEntries (amended "enabled" (.list []) (appended ids)))

def withSources (sources : List String) : Entries → Entries :=
  amended "sources" (.list []) (appended sources)

variable {draft : Draft}

theorem Accepts.withTheme (h : Accepts entries draft) {id : String} (hid : id ∈ Theme.ids) :
    Accepts (withTheme id entries) { draft with theme := some id } where
  keys := knownKeys_amended h.keys (by decide)
  version := (version_amended (by decide)).trans h.version
  theme := by
    have hcheck : checkTheme (.text id) = .ok id := by
      have hcontains : Theme.ids.contains id := by simpa using hid
      simp only [checkTheme, checkText, bind, Except.bind, pure, Except.pure, hcontains, if_true]
    exact (optionalField_eq_ok entry?_amended Value.noConfusion).2 ⟨id, hcheck, rfl⟩
  sections part := by
    have hne : part.key ≠ "theme" := by cases part <;> decide
    rw [SettingsFile.withTheme, entryOr_amended_of_ne hne]
    exact h.sections part
  modules := by
    rw [SettingsFile.withTheme, entryOr_amended_of_ne (by decide)]
    exact h.modules
  symbols := by
    rw [SettingsFile.withTheme, entryOr_amended_of_ne (by decide)]
    exact h.symbols
  sources := by
    rw [SettingsFile.withTheme, entryOr_amended_of_ne (by decide)]
    exact h.sources
  entries := h.entries

theorem SectionGives.withField {part : Section} {field : Field} {scalars : Field → Option Value} {w : Value}
    {section' : Value} (h : SectionGives part section' scalars) (hin : field ∈ part.fields) (hvalue : value ≠ .null)
    (hcheck : field.check value = .ok w) :
    SectionGives part (onEntries (amended field.key .null fun _ => value) section')
      (Function.update scalars field (some w)) := by
  obtain ⟨fields, rfl, hkeys, hall⟩ := h
  refine ⟨_, rfl, hkeys.amended (List.mem_map_of_mem hin), fun f hf => ?_⟩
  by_cases he : f = field
  · subst he
    rw [Function.update_self]
    exact (optionalField_eq_ok entry?_amended hvalue).2 ⟨w, hcheck, rfl⟩
  · rw [Function.update_of_ne he, optionalField, fieldOr_amended_of_ne (mt Field.key_injective he)]
    exact hall f hf

theorem Accepts.withField (h : Accepts entries draft) {part : Section} {field : Field} {w : Value}
    (hin : field ∈ part.fields) (hvalue : value ≠ .null) (hcheck : field.check value = .ok w) :
    Accepts (withField part field value entries)
      { draft with scalars := Function.update draft.scalars field (some w) } where
  keys := knownKeys_amended h.keys (Section.key_mem_partKeys part)
  version := (version_amended (Section.key_mem_partKeys part)).trans h.version
  theme := by
    have hne : "theme" ≠ part.key := by cases part <;> decide
    rw [SettingsFile.withField, optionalField, fieldOr_amended_of_ne hne]
    exact h.theme
  sections other := by
    by_cases he : other = part
    · subst he
      rw [SettingsFile.withField, entryOr_amended]
      exact (h.sections other).withField hin hvalue hcheck
    · rw [SettingsFile.withField, entryOr_amended_of_ne (mt Section.key_injective he)]
      refine (h.sections other).congr fun f hf => Function.update_of_ne ?_ _ _
      rintro rfl
      exact he (Section.eq_of_mem_fields hf hin)
  modules := by
    have hne : "modules" ≠ part.key := by cases part <;> decide
    rw [SettingsFile.withField, entryOr_amended_of_ne hne]
    exact h.modules
  symbols := by
    have hne : "symbols" ≠ part.key := by cases part <;> decide
    rw [SettingsFile.withField, entryOr_amended_of_ne hne]
    exact h.symbols
  sources := by
    have hne : "sources" ≠ part.key := by cases part <;> decide
    rw [SettingsFile.withField, entryOr_amended_of_ne hne]
    exact h.sources
  entries := h.entries

theorem checkItems_appended {value : Value} {values : List String} (h : checkItems checkText value = .ok values)
    (texts : List String) : checkItems checkText (appended texts value) = .ok (values ++ texts) := by
  have hlist (items : List Value) (hitems : checkItems checkText (.list items) = .ok values) :
      checkItems checkText (.list (items ++ texts.map .text)) = .ok (values ++ texts) := by
    have hall := gather_eq_ok.1 (checkItems_ok_iff.1 hitems)
    refine checkItems_ok_iff.2 (gather_eq_ok.2 ?_)
    rw [List.map_append, List.map_append, hall, List.map_map]
    rfl
  cases value with
  | list items => exact hlist items h
  | set items => exact hlist items h
  | _ => cases h

theorem Accepts.withEnabled (h : Accepts entries draft) (ids : List String) :
    Accepts (withEnabled ids entries) { draft with enabledModules := draft.enabledModules ++ ids } where
  keys := knownKeys_amended h.keys (by decide)
  version := (version_amended (by decide)).trans h.version
  theme := by
    rw [SettingsFile.withEnabled, optionalField, fieldOr_amended_of_ne (by decide)]
    exact h.theme
  sections part := by
    have hne : part.key ≠ "modules" := by cases part <;> decide
    rw [SettingsFile.withEnabled, entryOr_amended_of_ne hne]
    exact h.sections part
  modules := by
    obtain ⟨modules, he, hkeys, henabled, hcustoms⟩ := checkModules_ok_iff.1 h.modules
    rw [SettingsFile.withEnabled, entryOr_amended, he]
    refine checkModules_ok_iff.2 ⟨_, rfl, hkeys.amended (by decide), ?_, ?_⟩
    · rw [entryOr_amended]
      exact checkItems_appended henabled ids
    · rw [entryOr_amended_of_ne (by decide)]
      exact hcustoms
  symbols := by
    rw [SettingsFile.withEnabled, entryOr_amended_of_ne (by decide)]
    exact h.symbols
  sources := by
    rw [SettingsFile.withEnabled, entryOr_amended_of_ne (by decide)]
    exact h.sources
  entries := h.entries

theorem Accepts.withSources (h : Accepts entries draft) (sources : List String) :
    Accepts (withSources sources entries) { draft with sources := draft.sources ++ sources } where
  keys := knownKeys_amended h.keys (by decide)
  version := (version_amended (by decide)).trans h.version
  theme := by
    rw [SettingsFile.withSources, optionalField, fieldOr_amended_of_ne (by decide)]
    exact h.theme
  sections part := by
    have hne : part.key ≠ "sources" := by cases part <;> decide
    rw [SettingsFile.withSources, entryOr_amended_of_ne hne]
    exact h.sections part
  modules := by
    rw [SettingsFile.withSources, entryOr_amended_of_ne (by decide)]
    exact h.modules
  symbols := by
    rw [SettingsFile.withSources, entryOr_amended_of_ne (by decide)]
    exact h.symbols
  sources := by
    rw [SettingsFile.withSources, entryOr_amended]
    exact checkItems_appended h.sources sources
  entries := h.entries

end SettingsFile

end CaveMap
