import CaveMap.Proofs.SettingsFile.Typed
import CaveMap.Proofs.Table
import CaveMap.SettingsFile.Schema

namespace CaveMap

namespace Section

theorem eq_of_mem_fields {part other : Section} {field : Field} (h : field ∈ part.fields)
    (h' : field ∈ other.fields) : part = other := by
  have hdisjoint : ∀ p ∈ all, ∀ q ∈ all, p ≠ q → ∀ f ∈ p.fields, f ∉ q.fields := by decide
  have hall : ∀ p : Section, p ∈ all := fun p => by cases p <;> decide
  by_contra hne
  exact hdisjoint part (hall part) other (hall other) hne field h h'

theorem mem_all (part : Section) : part ∈ all := by
  cases part <;> decide

end Section

theorem Field.mem_some_section (field : Field) : ∃ part : Section, field ∈ part.fields := by
  obtain ⟨part, -, hin⟩ := List.mem_flatMap.1 field.mem_all
  exact ⟨part, hin⟩

theorem Table.mem_of_mem_ofList {α : Type} {entries : List (String × α)} {entry : String × α}
    (h : entry ∈ (ofList entries).entries) : entry ∈ entries := by
  induction entries using List.reverseRecOn with
  | nil => exact absurd h List.not_mem_nil
  | append_singleton front last ih =>
    rw [ofList, List.foldl_append] at h
    rcases mem_put h with he | hold
    · exact List.mem_append_right _ (List.mem_singleton.2 he)
    · exact List.mem_append_left _ (ih hold)

namespace SettingsFile

open Check

variable {α β : Type}

def KnownKeys (known : List String) (entries : Entries) : Prop :=
  ∀ key ∈ entries.map (·.1), ∃ s ∈ known, key = .text s

theorem knownKeys_of_names {known : List String} (names : List String) {entries : Entries}
    (h : entries.map (·.1) = names.map .text) (hnames : names ⊆ known) : KnownKeys known entries := by
  intro key hkey
  rw [h] at hkey
  obtain ⟨name, hname, rfl⟩ := List.mem_map.1 hkey
  exact ⟨name, hnames hname, rfl⟩

theorem KnownKeys.append {known : List String} {front back : Entries} (hf : KnownKeys known front)
    (hb : KnownKeys known back) : KnownKeys known (front ++ back) := by
  intro key hkey
  rw [List.map_append] at hkey
  exact (List.mem_append.1 hkey).elim (hf key) (hb key)

theorem checkKey_eq_ok {known : List String} {key : Value} :
    checkKey known key = .ok () ↔ ∃ s ∈ known, key = .text s := by
  cases key with
  | text s =>
    by_cases h : s ∈ known <;>
      simp [checkKey, h, complain, Check.within, Except.mapError, pure, Except.pure]
  | _ => simp [checkKey, complain, Check.within, Except.mapError, throw, throwThe, MonadExceptOf.throw]

theorem gather_map_ok_iff [Inhabited α] {items : List β} {check : β → Check α} {values : List α} :
    Check.gather (items.map check) = .ok values ↔
      ∃ value : β → α, values = items.map value ∧ ∀ b ∈ items, check b = .ok (value b) := by
  constructor
  · intro h
    have hall : ∀ b ∈ items, ∃ a, check b = .ok a := by
      intro b hb
      have hin : check b ∈ values.map Except.ok := gather_eq_ok.1 h ▸ List.mem_map_of_mem hb
      obtain ⟨a, -, ha⟩ := List.mem_map.1 hin
      exact ⟨a, ha.symm⟩
    let value (b : β) : α := (check b).toOption.getD default
    have hvalue : ∀ b a, check b = .ok a → a = value b := by
      intro b a ha
      simp [value, ha, Except.toOption]
    refine ⟨value, gather_map_eq h fun b _ a ha => hvalue b a ha, fun b hb => ?_⟩
    obtain ⟨a, ha⟩ := hall b hb
    rw [ha, hvalue b a ha]
  · rintro ⟨value, rfl, hall⟩
    rw [gather_eq_ok, List.map_map]
    exact List.map_congr_left hall

theorem gather_isOk_iff {items : List β} {check : β → Check α} :
    (∃ values, Check.gather (items.map check) = .ok values) ↔ ∀ b ∈ items, ∃ a, check b = .ok a := by
  simp only [gather_eq_ok]
  induction items with
  | nil => exact ⟨fun _ => by simp, fun _ => ⟨[], rfl⟩⟩
  | cons b rest ih =>
    rw [List.forall_mem_cons, ← ih]
    constructor
    · rintro ⟨values, h⟩
      cases values with
      | nil => simp at h
      | cons a tail =>
        rw [List.map_cons, List.map_cons, List.cons.injEq] at h
        exact ⟨⟨a, h.1⟩, tail, h.2⟩
    · rintro ⟨⟨a, ha⟩, tail, htail⟩
      exact ⟨a :: tail, by rw [List.map_cons, List.map_cons, ha, htail]⟩

theorem closed_ok_iff {known : List String} {entries : Entries} {result : Check α} {a : α} :
    closed known entries result = .ok a ↔ KnownKeys known entries ∧ result = .ok a := by
  have hkeys : (∃ units, Check.gather (entries.map fun x => checkKey known x.1) = .ok units) ↔
      KnownKeys known entries := by
    simp only [gather_map_ok_iff, KnownKeys, List.forall_mem_map, ← checkKey_eq_ok]
    exact ⟨fun ⟨_, _, _, h⟩ => h, fun h => ⟨_, fun _ => (), rfl, h⟩⟩
  rw [← hkeys]
  constructor
  · intro h
    obtain ⟨_, units, -, hunits, -⟩ := also_eq_ok.1 h
    exact ⟨⟨units, hunits⟩, closed_eq_ok h⟩
  · rintro ⟨⟨units, hunits⟩, hresult⟩
    exact also_eq_ok.2 ⟨fun _ => a, units, map_eq_ok.2 ⟨a, hresult, rfl⟩, hunits, rfl⟩

theorem checkRecord_eq_ok {name : String} {value : Value} {entries : Entries} :
    checkRecord name value = .ok entries ↔ value = .map entries := by
  cases value <;> simp [checkRecord, complain, pure, Except.pure, throw, throwThe, MonadExceptOf.throw]

def entryOr (entries : Entries) (key : String) (absent : Value) : Value :=
  (Value.entry? entries key).getD absent

theorem fieldOr_ok_iff {entries : Entries} {key : String} {default a : α} {check : Value → Check α}
    {absent : Value} (h : check absent = .ok default) :
    fieldOr entries key default check = .ok a ↔ check (entryOr entries key absent) = .ok a := by
  rw [entryOr]
  cases he : Value.entry? entries key with
  | none => rw [fieldOr_absent he, Option.getD_none, h]
  | some value => exact fieldOr_eq_ok he

theorem optionalField_ok_iff {entries : Entries} {key : String} {check : Value → Check α} {a : Option α} :
    optionalField entries key check = .ok a ↔
      (entryOr entries key .null = .null ∧ a = none) ∨
        ∃ b, entryOr entries key .null ≠ .null ∧ check (entryOr entries key .null) = .ok b ∧ a = some b := by
  rw [entryOr]
  cases he : Value.entry? entries key with
  | none =>
    rw [optionalField, fieldOr_absent he]
    simp [eq_comm]
  | some value =>
    by_cases hnull : value = .null
    · subst hnull
      rw [optionalField, fieldOr_eq_ok he]
      simp [pure, Except.pure, eq_comm]
    · rw [optionalField_eq_ok he hnull]
      simp [hnull, eq_comm]

theorem optionalField_some {entries : Entries} {key : String} {check : Value → Check α} {b : α}
    (h : optionalField entries key check = .ok (some b)) : ∃ value, check value = .ok b := by
  rcases optionalField_ok_iff.1 h with ⟨-, hnone⟩ | ⟨a, -, ha, hsome⟩
  · cases hnone
  · cases hsome
    exact ⟨_, ha⟩

/-- What a section gives to its fields. -/
def SectionGives (part : Section) (value : Value) (scalars : Field → Option Value) : Prop :=
  ∃ entries, value = .map entries ∧ KnownKeys (part.fields.map Field.key) entries ∧
    ∀ field ∈ part.fields, optionalField entries field.key field.check = .ok (scalars field)

theorem checkSection_ok_iff {part : Section} {value : Value} {values : List (Field × Option Value)} :
    checkSection part value = .ok values ↔
      ∃ scalars, values = part.fields.map (fun field => (field, scalars field)) ∧
        SectionGives part value scalars := by
  have : Inhabited Field := ⟨.caveName⟩
  unfold checkSection
  constructor
  · intro h
    obtain ⟨entries, hrecord, hclosed⟩ := bind_eq_ok.1 h
    obtain ⟨hkeys, hvalues⟩ := closed_ok_iff.1 hclosed
    obtain ⟨pair, rfl, hall⟩ := gather_map_ok_iff.1 hvalues
    have hpair : ∀ field ∈ part.fields, pair field = (field, (pair field).2) ∧
        optionalField entries field.key field.check = .ok (pair field).2 := by
      intro field hin
      obtain ⟨a, ha, he⟩ := map_eq_ok.1 (hall field hin)
      rw [← he]
      exact ⟨rfl, ha⟩
    refine ⟨fun field => (pair field).2, List.map_congr_left fun field hin => (hpair field hin).1, entries,
      checkRecord_eq_ok.1 hrecord, hkeys, fun field hin => (hpair field hin).2⟩
  · rintro ⟨scalars, rfl, entries, rfl, hkeys, hall⟩
    refine bind_eq_ok.2 ⟨entries, rfl, closed_ok_iff.2 ⟨hkeys, gather_map_ok_iff.2 ⟨_, rfl, ?_⟩⟩⟩
    exact fun field hin => map_eq_ok.2 ⟨_, hall field hin, rfl⟩

theorem givenValue_eq (scalars : Field → Option Value) {sections : List (List (Field × Option Value))}
    {field : Field} (hall : ∀ entries ∈ sections, ∀ entry ∈ entries, entry.2 = scalars entry.1)
    (hgiven : scalars field ≠ none → ∃ entries ∈ sections, field ∈ entries.map (·.1)) :
    givenValue sections field = scalars field := by
  unfold givenValue
  cases hfind : sections.flatten.find? fun entry => entry.1 = field with
  | some entry =>
    obtain ⟨entries, hentries, hentry⟩ := List.mem_flatten.1 (List.mem_of_find?_eq_some hfind)
    have hfield : entry.1 = field := by simpa using List.find?_some hfind
    rw [Option.bind_some, hall entries hentries entry hentry, hfield]
  | none =>
    by_contra hne
    obtain ⟨entries, hentries, hin⟩ := hgiven (Ne.symm hne)
    obtain ⟨entry, hentry, hfield⟩ := List.mem_map.1 hin
    have hnot := List.find?_eq_none.1 hfind entry (List.mem_flatten.2 ⟨entries, hentries, hentry⟩)
    simp [hfield] at hnot

/-- Values that are read for the fields of a section, and those that are not. -/
structure Collected (part : Section) (values : List (Field × Option Value)) (scalars : Field → Option Value) :
    Prop where
  agree : ∀ entry ∈ values, entry.1 ∈ part.fields ∧ entry.2 = scalars entry.1
  given : ∀ field ∈ part.fields, scalars field ≠ none → field ∈ values.map (·.1)

theorem SectionGives.congr {part : Section} {value : Value} {scalars other : Field → Option Value}
    (h : SectionGives part value scalars) (he : ∀ field ∈ part.fields, other field = scalars field) :
    SectionGives part value other := by
  obtain ⟨entries, hvalue, hkeys, hall⟩ := h
  exact ⟨entries, hvalue, hkeys, fun field hin => (he field hin).symm ▸ hall field hin⟩

theorem sectionGives_nil {part : Section} {scalars : Field → Option Value} :
    SectionGives part (.map []) scalars ↔ ∀ field ∈ part.fields, scalars field = none := by
  have habsent (field : Field) : optionalField [] field.key field.check = .ok none := rfl
  constructor
  · rintro ⟨entries, he, -, hall⟩ field hin
    cases he
    exact (Except.ok.inj ((habsent field).symm.trans (hall field hin))).symm
  · intro h
    exact ⟨[], rfl, by simp [KnownKeys], fun field hin => by rw [h field hin, habsent]⟩

theorem collected_map (part : Section) (scalars : Field → Option Value) :
    Collected part (part.fields.map fun field => (field, scalars field)) scalars where
  agree := by simp
  given field hin _ := List.mem_map.2 ⟨_, List.mem_map_of_mem hin, rfl⟩

theorem collected_nil {part : Section} {scalars : Field → Option Value}
    (h : ∀ field ∈ part.fields, scalars field = none) : Collected part [] scalars where
  agree := by simp
  given field hin hne := absurd (h field hin) hne

theorem fieldOr_section {entries : Entries} {part : Section} {values : List (Field × Option Value)}
    (h : fieldOr entries part.key [] (checkSection part) = .ok values) :
    ∃ scalars, SectionGives part (entryOr entries part.key (.map [])) scalars ∧
      Collected part values scalars := by
  rw [entryOr]
  cases he : Value.entry? entries part.key with
  | none =>
    rw [fieldOr_absent he] at h
    cases h
    exact ⟨fun _ => none, sectionGives_nil.2 fun _ _ => rfl, collected_nil fun _ _ => rfl⟩
  | some value =>
    obtain ⟨scalars, rfl, hgives⟩ := checkSection_ok_iff.1 ((fieldOr_eq_ok he).1 h)
    exact ⟨scalars, hgives, collected_map part scalars⟩

theorem SectionGives.fieldOr {entries : Entries} {part : Section} {scalars : Field → Option Value}
    (h : SectionGives part (entryOr entries part.key (.map [])) scalars) :
    ∃ values, fieldOr entries part.key [] (checkSection part) = .ok values ∧
      Collected part values scalars := by
  rw [entryOr] at h
  cases he : Value.entry? entries part.key with
  | none =>
    rw [he] at h
    exact ⟨[], fieldOr_absent he, collected_nil (sectionGives_nil.1 h)⟩
  | some value =>
    rw [he] at h
    exact ⟨_, (fieldOr_eq_ok he).2 (checkSection_ok_iff.2 ⟨scalars, rfl, h⟩), collected_map part scalars⟩

theorem checkSections_ok_iff {entries : Entries} {scalars : Field → Option Value} :
    (∃ sections, checkSections entries = .ok sections ∧ givenValue sections = scalars) ↔
      ∀ part : Section, SectionGives part (entryOr entries part.key (.map [])) scalars := by
  choose home hhome using Field.mem_some_section
  constructor
  · rintro ⟨sections, hsections, rfl⟩ part
    obtain ⟨values, rfl, hall⟩ := gather_map_ok_iff.1 hsections
    choose found hgives hcollected using fun part => fieldOr_section (hall part part.mem_all)
    have hgiven : givenValue (Section.all.map values) = fun field => found (home field) field := by
      funext field
      refine givenValue_eq (fun f => found (home f) f) (fun entries hentries entry hentry => ?_) fun hne => ?_
      · obtain ⟨other, -, rfl⟩ := List.mem_map.1 hentries
        obtain ⟨hin, hvalue⟩ := (hcollected other).agree entry hentry
        rw [hvalue, Section.eq_of_mem_fields hin (hhome entry.1)]
      · exact ⟨_, List.mem_map_of_mem (home field).mem_all, (hcollected _).given field (hhome field) hne⟩
    rw [hgiven]
    refine (hgives part).congr fun field hin => ?_
    rw [Section.eq_of_mem_fields (hhome field) hin]
  · intro h
    choose values hvalues hcollected using fun part => (h part).fieldOr
    refine ⟨Section.all.map values, gather_map_ok_iff.2 ⟨values, rfl, fun part _ => hvalues part⟩, ?_⟩
    funext field
    refine givenValue_eq scalars (fun entries hentries entry hentry => ?_) fun hne => ?_
    · obtain ⟨part, -, rfl⟩ := List.mem_map.1 hentries
      exact ((hcollected part).agree entry hentry).2
    · exact ⟨_, List.mem_map_of_mem (home field).mem_all, (hcollected _).given field (hhome field) hne⟩

theorem checkItems_nil (check : Value → Check α) : checkItems check (.list []) = .ok [] := rfl

theorem checkItems_ok_iff {check : Value → Check α} {items : List Value} {values : List α} :
    checkItems check (.list items) = .ok values ↔ Check.gather (items.map check) = .ok values := by
  have hplaces (start : Nat) :
      ((items.zipIdx start).map fun x => (check x.1).within (.index x.2)) = values.map .ok ↔
        items.map check = values.map .ok := by
    induction items generalizing start values with
    | nil => simp
    | cons item rest ih =>
      cases values with
      | nil => simp
      | cons a tail =>
        rw [List.zipIdx_cons, List.map_cons, List.map_cons, List.map_cons, List.cons.injEq, List.cons.injEq,
          within_eq_ok, ih]
  rw [gather_eq_ok, ← hplaces 0, ← gather_eq_ok]
  rfl

theorem checkModules_ok_iff {value : Value} {enabled : List String} {customs : List CustomEntry} :
    checkModules value = .ok (enabled, customs) ↔
      ∃ entries, value = .map entries ∧ KnownKeys ["enabled", "custom"] entries ∧
        checkItems checkText (entryOr entries "enabled" (.list [])) = .ok enabled ∧
        checkItems checkCustomEntry (entryOr entries "custom" (.list [])) = .ok customs := by
  unfold checkModules
  constructor
  · intro h
    obtain ⟨entries, hrecord, hclosed⟩ := bind_eq_ok.1 h
    obtain ⟨hkeys, hlists⟩ := closed_ok_iff.1 hclosed
    obtain ⟨_, _, h1, hcustoms, he⟩ := also_eq_ok.1 hlists
    obtain ⟨_, henabled, rfl⟩ := map_eq_ok.1 h1
    cases he
    exact ⟨entries, checkRecord_eq_ok.1 hrecord, hkeys, (fieldOr_ok_iff (checkItems_nil _)).1 henabled,
      (fieldOr_ok_iff (checkItems_nil _)).1 hcustoms⟩
  · rintro ⟨entries, rfl, hkeys, henabled, hcustoms⟩
    refine bind_eq_ok.2 ⟨entries, rfl, closed_ok_iff.2 ⟨hkeys, also_eq_ok.2 ⟨Prod.mk enabled, customs, ?_, ?_, rfl⟩⟩⟩
    · exact map_eq_ok.2 ⟨enabled, (fieldOr_ok_iff (checkItems_nil _)).2 henabled, rfl⟩
    · exact (fieldOr_ok_iff (checkItems_nil _)).2 hcustoms

theorem checkFilled_ok_iff {key t : String} {value : Value} :
    checkFilled key value = .ok t ↔ checkText value = .ok t ∧ Text.isBlankText t = false := by
  unfold checkFilled
  rw [bind_eq_ok]
  constructor
  · rintro ⟨s, hs, h⟩
    split at h
    · cases h
    · next hfilled =>
      cases h
      exact ⟨hs, by simpa using hfilled⟩
  · rintro ⟨ht, hfilled⟩
    exact ⟨t, ht, by rw [if_neg (by simp [hfilled])]; rfl⟩

theorem checkColor_ok_iff {t : String} {value : Value} :
    checkColor value = .ok t ↔ checkText value = .ok t ∧ isColorText t := by
  unfold checkColor
  rw [bind_eq_ok]
  constructor
  · rintro ⟨s, hs, h⟩
    split at h
    · next hcolor =>
      cases h
      exact ⟨hs, hcolor⟩
    · cases h
  · rintro ⟨ht, hcolor⟩
    exact ⟨t, ht, if_pos hcolor⟩

theorem checkSymbolEntry_color {value : Value} {entry : SymbolEntry} (h : checkSymbolEntry value = .ok entry)
    {t : String} (ht : entry.color = some t) : isColorText t := by
  obtain ⟨entries, -, hclosed⟩ := bind_eq_ok.1 h
  obtain ⟨_, set, h4, -, rfl⟩ := also_eq_ok.1 (closed_eq_ok hclosed)
  obtain ⟨_, color, h3, hcolor, rfl⟩ := also_eq_ok.1 h4
  obtain ⟨_, visible, h2, -, rfl⟩ := also_eq_ok.1 h3
  obtain ⟨_, category, h1, -, rfl⟩ := also_eq_ok.1 h2
  obtain ⟨type, -, rfl⟩ := map_eq_ok.1 h1
  obtain rfl : color = some t := ht
  obtain ⟨_, hvalue⟩ := optionalField_some hcolor
  exact (checkColor_ok_iff.1 hvalue).2

theorem checkSymbols_color {value : Value} {table : Table SymbolEntry} (h : checkSymbols value = .ok table)
    {key t : String} {entry : SymbolEntry} (hin : (key, entry) ∈ table.entries)
    (ht : entry.color = some t) : isColorText t := by
  unfold checkSymbols at h
  split at h
  · obtain ⟨items, hitems, rfl⟩ := map_eq_ok.1 h
    have hitem : (Except.ok (key, entry) : Check _) ∈ items.map Except.ok :=
      List.mem_map_of_mem (Table.mem_of_mem_ofList hin)
    rw [← gather_eq_ok.1 hitems] at hitem
    obtain ⟨x, -, hx⟩ := List.mem_map.1 hitem
    obtain ⟨_, found, hkey, hentry, he⟩ := also_eq_ok.1 hx
    obtain ⟨_, -, rfl⟩ := map_eq_ok.1 hkey
    cases he
    exact checkSymbolEntry_color (within_eq_ok.1 hentry) ht
  · cases h

def documentKeys (entries : Entries) : List String :=
  [versionKey entries, "theme"] ++ Section.all.map Section.key ++ ["modules", "symbols", "sources"]

/-- What it takes for entries to be accepted as a draft. -/
structure Accepts (entries : Entries) (draft : Draft) : Prop where
  keys : KnownKeys (documentKeys entries) entries
  version : fieldOr entries (versionKey entries) () checkVersion = .ok ()
  theme : optionalField entries "theme" checkTheme = .ok draft.theme
  sections : ∀ part : Section, SectionGives part (entryOr entries part.key (.map [])) draft.scalars
  modules : checkModules (entryOr entries "modules" (.map [])) =
    .ok (draft.enabledModules, draft.customModules)
  symbols : checkSymbols (entryOr entries "symbols" (.map [])) = .ok draft.symbols
  sources : checkItems checkText (entryOr entries "sources" (.list [])) = .ok draft.sources
  entries : ∀ key entry, (key, entry) ∈ draft.symbols.entries → symbolFault? key entry = none

theorem checkParts_ok_iff {entries : Entries} {draft : Draft} :
    checkParts entries = .ok draft ∧
        (∀ key entry, (key, entry) ∈ draft.symbols.entries → symbolFault? key entry = none) ↔
      Accepts entries draft := by
  have hmodules : checkModules (.map []) = .ok ([], []) := rfl
  have hsymbols : checkSymbols (.map []) = .ok ∅ := rfl
  constructor
  · rintro ⟨h, hentries⟩
    obtain ⟨hkeys, hdraft⟩ := closed_ok_iff.1 h
    obtain ⟨_, sources, h6, hsources, rfl⟩ := also_eq_ok.1 hdraft
    obtain ⟨_, symbols, h5, hsym, rfl⟩ := also_eq_ok.1 h6
    obtain ⟨_, modules, h4, hmod, rfl⟩ := also_eq_ok.1 h5
    obtain ⟨_, sections, h3, hsections, rfl⟩ := also_eq_ok.1 h4
    obtain ⟨_, theme, h2, htheme, rfl⟩ := also_eq_ok.1 h3
    obtain ⟨_, hversion, rfl⟩ := map_eq_ok.1 h2
    exact ⟨hkeys, hversion, htheme, checkSections_ok_iff.1 ⟨sections, hsections, rfl⟩,
      (fieldOr_ok_iff hmodules).1 hmod, (fieldOr_ok_iff hsymbols).1 hsym,
      (fieldOr_ok_iff (checkItems_nil _)).1 hsources, hentries⟩
  · intro h
    obtain ⟨sections, hsections, hscalars⟩ := checkSections_ok_iff.2 h.sections
    have hdraft : draftOf draft.theme sections (draft.enabledModules, draft.customModules) draft.symbols
        draft.sources = draft := by
      rw [draftOf, hscalars]
    refine ⟨closed_ok_iff.2 ⟨h.keys, ?_⟩, h.entries⟩
    rw [h.version, h.theme, hsections, (fieldOr_ok_iff hmodules).2 h.modules,
      (fieldOr_ok_iff hsymbols).2 h.symbols, (fieldOr_ok_iff (checkItems_nil _)).2 h.sources]
    exact congrArg Except.ok hdraft

theorem symbolFault?_eq_none_iff {table : Table SymbolEntry} :
    (table.entries.findSome? fun (key, entry) => symbolFault? key entry) = none ↔
      ∀ key entry, (key, entry) ∈ table.entries → symbolFault? key entry = none := by
  rw [List.findSome?_eq_none_iff]
  constructor
  · intro h key entry hin
    exact h (key, entry) hin
  · intro h x hin
    exact h x.1 x.2 hin

/-- A document is accepted when each of its parts is. -/
theorem checkDocument_ok_iff {value : Value} {draft : Draft} :
    checkDocument value = .ok draft ↔ ∃ entries, value = .map entries ∧ Accepts entries draft := by
  unfold checkDocument
  simp only [bind_eq_ok, checkRecord_eq_ok, ← checkParts_ok_iff, ← symbolFault?_eq_none_iff]
  constructor
  · rintro ⟨entries, hvalue, found, hparts, h⟩
    split at h
    · cases h
    · next hnone =>
      cases h
      exact ⟨entries, hvalue, hparts, hnone⟩
  · rintro ⟨entries, hvalue, hparts, hnone⟩
    exact ⟨entries, hvalue, draft, hparts, by rw [hnone]; rfl⟩

theorem Accepts.checked {entries : Entries} {draft : Draft} (h : Accepts entries draft) {field : Field}
    {value : Value} (hgiven : draft.scalars field = some value) : ∃ v, field.check v = .ok value := by
  obtain ⟨part, hin⟩ := field.mem_some_section
  obtain ⟨_, -, -, hall⟩ := h.sections part
  have hfield := hall field hin
  rw [hgiven] at hfield
  exact optionalField_some hfield

end SettingsFile

end CaveMap
