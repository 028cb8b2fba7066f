import CaveMap.Proofs.SettingsFile.Failures
import CaveMap.Proofs.SettingsFile.Precedence
import CaveMap.Proofs.Text.Runs

namespace CaveMap.SettingsFile

/-- The identifier of an entry at its place: the given one, else one of the runs of letters and digits in the
lower-cased name or, where there are none, of the place. -/
inductive Identifies (entry : CustomEntry) (index : Nat) : String → Prop
  | given {id : String} (given : entry.id = some id) (ne_empty : id ≠ "") : Identifies entry index id
  | named {runs : List (List Char)} (absent : entry.id.getD "" = "") (ne_nil : runs ≠ [])
      (found : Text.Runs isSlugChar (Text.lower entry.name.toList) runs) :
      Identifies entry index ("custom_" ++ String.intercalate "_" (runs.map String.ofList))
  | placed (absent : entry.id.getD "" = "") (found : Text.Runs isSlugChar (Text.lower entry.name.toList) []) :
      Identifies entry index ("custom_" ++ Text.decimalText index)

def Identified (entries : List CustomEntry) (ids : List String) : Prop :=
  List.Forall₂ (fun (entry, index) id => Identifies entry index id) entries.zipIdx ids

variable {entry : CustomEntry} {index : Nat} {id : String}

theorem toList_slug {name : String} {runs : List (List Char)}
    (h : Text.Runs isSlugChar (Text.lower name.toList) runs) : (slug name).toList = ['_'].intercalate runs := by
  rw [slug, String.toList_ofList, Text.stripOf_collapse h (by decide)]

theorem slug_eq {name : String} {runs : List (List Char)} (h : Text.Runs isSlugChar (Text.lower name.toList) runs) :
    slug name = String.intercalate "_" (runs.map String.ofList) := by
  have hid : String.toList ∘ String.ofList = id := funext fun _ => String.toList_ofList
  rw [← String.toList_inj, toList_slug h, String.toList_intercalate, List.map_map, hid, List.map_id]
  rfl

theorem isEmpty_slug {name : String} {runs : List (List Char)}
    (h : Text.Runs isSlugChar (Text.lower name.toList) runs) : (slug name).isEmpty ↔ runs = [] := by
  rw [String.isEmpty_iff, ← String.toList_eq_nil_iff, toList_slug h]
  exact Text.intercalate_eq_nil_iff fun run hrun => (h.inside_of_mem run hrun).1

theorem derivedId_named {name : String} {runs : List (List Char)}
    (h : Text.Runs isSlugChar (Text.lower name.toList) runs) (hne : runs ≠ []) (index : Nat) :
    derivedId name index = "custom_" ++ String.intercalate "_" (runs.map String.ofList) := by
  rw [derivedId, if_neg (mt (isEmpty_slug h).1 hne), slug_eq h]

theorem derivedId_placed {name : String} (h : Text.Runs isSlugChar (Text.lower name.toList) []) (index : Nat) :
    derivedId name index = "custom_" ++ Text.decimalText index := by
  rw [derivedId, if_pos ((isEmpty_slug h).2 rfl)]

theorem effectiveId_given (h : entry.id = some id) (hne : id ≠ "") : effectiveId entry index = id := by
  simp only [effectiveId, h]
  rw [if_neg (mt String.isEmpty_iff.1 hne)]

theorem effectiveId_absent (h : entry.id.getD "" = "") : effectiveId entry index = derivedId entry.name index := by
  unfold effectiveId
  split
  · rfl
  · next id hid =>
    rw [hid, Option.getD_some] at h
    rw [if_pos (String.isEmpty_iff.2 h)]

theorem identifies_effectiveId (entry : CustomEntry) (index : Nat) :
    Identifies entry index (effectiveId entry index) := by
  by_cases habsent : entry.id.getD "" = ""
  · rw [effectiveId_absent habsent]
    obtain ⟨runs, hruns⟩ := Text.exists_runs isSlugChar (Text.lower entry.name.toList)
    by_cases hnil : runs = []
    · subst hnil
      rw [derivedId_placed hruns]
      exact .placed habsent hruns
    · rw [derivedId_named hruns hnil]
      exact .named habsent hnil hruns
  · cases hid : entry.id with
    | none => exact absurd (by rw [hid]; rfl) habsent
    | some id =>
      rw [hid, Option.getD_some] at habsent
      rw [effectiveId_given hid habsent]
      exact .given hid habsent

theorem identifies_iff : Identifies entry index id ↔ id = effectiveId entry index := by
  constructor
  · intro h
    cases h with
    | given hid hne => exact (effectiveId_given hid hne).symm
    | named habsent hne hruns => rw [effectiveId_absent habsent, derivedId_named hruns hne]
    | placed habsent hruns => rw [effectiveId_absent habsent, derivedId_placed hruns]
  · rintro rfl
    exact identifies_effectiveId entry index

theorem Identifies.ne_empty (h : Identifies entry index id) : id ≠ "" := by
  cases h with
  | given _ hne => exact hne
  | named => exact fun he => by simpa using congrArg String.toList he
  | placed => exact fun he => by simpa using congrArg String.toList he

def effectiveIds (entries : List CustomEntry) : List String :=
  entries.zipIdx.map fun (entry, index) => effectiveId entry index

theorem identified_iff {entries : List CustomEntry} {ids : List String} :
    Identified entries ids ↔ ids = effectiveIds entries := by
  unfold Identified effectiveIds
  simp only [identifies_iff]
  rw [eq_comm, ← List.forall₂_eq_eq_eq, List.forall₂_map_left_iff]
  simp only [eq_comm]

/-- The first text in the list that stands further in front already. -/
def Repeats (ids : List String) (id : String) : Prop :=
  ∃ front back, ids = front ++ id :: back ∧ front.Nodup ∧ id ∈ front

theorem firstRepeated?_eq_some {seen ids : List String} :
    firstRepeated? seen ids = some id ↔ ∃ front back, ids = front ++ id :: back ∧
      (front.Nodup ∧ ∀ earlier ∈ front, earlier ∉ seen) ∧ (id ∈ front ∨ id ∈ seen) := by
  -- For any texts seen so far: each text that is passed joins them.
  induction ids generalizing seen with
  | nil => simp [firstRepeated?]
  | cons first rest ih =>
    rw [firstRepeated?]
    split
    · next hseen =>
      rw [List.contains_iff_mem] at hseen
      constructor
      · intro h
        cases h
        exact ⟨[], rest, rfl, by simp, .inr hseen⟩
      · rintro ⟨front, back, he, ⟨-, hfront⟩, -⟩
        cases front with
        | nil => cases he; rfl
        | cons head front =>
          cases he
          exact absurd hseen (hfront first List.mem_cons_self)
    · next hseen =>
      rw [List.contains_iff_mem] at hseen
      rw [ih]
      constructor
      · rintro ⟨front, back, rfl, ⟨hnodup, hfront⟩, hid⟩
        have hfirst : first ∉ front := fun hin => hfront first hin List.mem_cons_self
        refine ⟨first :: front, back, rfl, ⟨List.nodup_cons.2 ⟨hfirst, hnodup⟩, ?_⟩, ?_⟩
        · exact List.forall_mem_cons.2 ⟨hseen, fun earlier hin => mt (List.mem_cons_of_mem first) (hfront earlier hin)⟩
        · simpa only [List.mem_cons, or_left_comm, or_assoc] using hid
      · rintro ⟨front, back, he, ⟨hnodup, hfront⟩, hid⟩
        cases front with
        | nil =>
          cases he
          exact absurd (hid.resolve_left List.not_mem_nil) hseen
        | cons head front =>
          cases he
          obtain ⟨hfirst, hnodup⟩ := List.nodup_cons.1 hnodup
          refine ⟨front, back, rfl, ⟨hnodup, fun earlier hin => ?_⟩, ?_⟩
          · rw [List.mem_cons, not_or]
            exact ⟨ne_of_mem_of_not_mem hin hfirst, hfront earlier (List.mem_cons_of_mem first hin)⟩
          · simpa only [List.mem_cons, or_left_comm, or_assoc] using hid

theorem repeats_iff {ids : List String} : Repeats ids id ↔ firstRepeated? [] ids = some id := by
  rw [firstRepeated?_eq_some]
  simp [Repeats]

theorem exists_repeats_iff {ids : List String} : (∃ id, Repeats ids id) ↔ ¬ ids.Nodup := by
  simp only [repeats_iff]
  cases h : firstRepeated? [] ids with
  | none => simpa using (firstRepeated?_eq_none_iff.1 h).1
  | some id =>
    refine ⟨fun _ hnodup => ?_, fun _ => ⟨id, rfl⟩⟩
    rw [firstRepeated?_eq_none hnodup (by simp)] at h
    cases h

structure Makes (listed : List String) (s : Settings) (entry : CustomEntry) (m : MapModule) : Prop where
  ne_empty : m.id ≠ ""
  displayName : m.displayName = Text.strip entry.name
  code : m.code = entry.code
  description : m.description = entry.description
  enabled : s.isEnabled m.id ↔ entry.enabled ∨ m.id ∈ listed

/-- Settings with the modules of a draft, which go by these identifiers. -/
structure Furnishes (draft : Draft) (effective : List String) (s : Settings) : Prop where
  ids : s.customModules.map (·.id) = effective
  modules : List.Forall₂ (Makes draft.enabledModules s) draft.customModules s.customModules

namespace Draft

variable {draft : Draft} {s : Settings}

theorem ids_modules (draft : Draft) : draft.modules.map (·.id) = effectiveIds draft.customModules := by
  rw [modules, List.map_map]
  rfl

theorem getElem?_effectiveIds {entries : List CustomEntry} (h : entries[index]? = some entry) :
    (effectiveIds entries)[index]? = some (effectiveId entry index) := by
  simp [effectiveIds, h]

theorem mem_enables : id ∈ draft.enables ↔ id ∈ draft.enabledModules ∨
    ∃ entry index, draft.customModules[index]? = some entry ∧ entry.enabled ∧ effectiveId entry index = id := by
  simp only [enables, List.mem_append, List.mem_map, List.mem_filter, List.mem_zipIdx_iff_getElem?, Prod.exists,
    and_assoc]

/-- No other entry can enable a module than its own, if identifiers are distinct. -/
theorem effectiveId_mem_enables (hids : (effectiveIds draft.customModules).Nodup)
    (h : draft.customModules[index]? = some entry) :
    effectiveId entry index ∈ draft.enables ↔ entry.enabled ∨ effectiveId entry index ∈ draft.enabledModules := by
  rw [mem_enables, or_comm]
  refine or_congr_left ⟨?_, fun henabled => ⟨entry, index, h, henabled, rfl⟩⟩
  rintro ⟨other, place, hother, henabled, he⟩
  have hplace := getElem?_effectiveIds hother
  rw [he, ← getElem?_effectiveIds h] at hplace
  obtain ⟨hlt, -⟩ := List.getElem?_eq_some_iff.1 (getElem?_effectiveIds h)
  obtain rfl : index = place := (List.getElem?_inj hlt hids).1 hplace.symm
  rw [h, Option.some.injEq] at hother
  exact hother ▸ henabled

theorem Composed.furnishes {document : Value} {files : List NewFile} (h : draft.Composed document files s)
    (hids : (effectiveIds draft.customModules).Nodup) : Furnishes draft (effectiveIds draft.customModules) s := by
  refine ⟨by rw [h.customModules, ids_modules], ?_⟩
  rw [h.customModules, modules, List.forall₂_map_right_iff]
  nth_rewrite 1 [← List.zipIdx_map_fst 0 draft.customModules]
  rw [List.forall₂_map_left_iff, List.forall₂_same]
  rintro ⟨entry, index⟩ hin
  refine ⟨(identifies_effectiveId entry index).ne_empty, rfl, rfl, rfl, ?_⟩
  rw [Settings.isEnabled_iff, h.enabledModules, List.mem_map_of_injective fun _ _ => Value.text.inj, List.mem_eraseDups]
  exact effectiveId_mem_enables hids (List.mem_zipIdx_iff_getElem?.1 hin)

end Draft

theorem Accepts.settings_eq_duplicate {entries : Entries} {draft : Draft} (h : Accepts entries draft) :
    draft.settings = .error (.duplicateModule id) ↔ Repeats (effectiveIds draft.customModules) id := by
  obtain ⟨base, hbase⟩ := h.revise_ok
  obtain ⟨themed, hthemed⟩ := h.themed_ok base
  rw [repeats_iff, ← Draft.ids_modules, Draft.settings, hbase]
  cases firstRepeated? [] (draft.modules.map (·.id)) <;>
    simp [bind, Except.bind, Except.mapError, hthemed, throw, throwThe, MonadExceptOf.throw, pure, Except.pure]

theorem readSource_ne_draft {tree : FileTree} {base : Path} {source : String} {fault : DraftFault} :
    readSource tree base source ≠ .error (.draft fault) := by
  simp only [readSource]
  cases tree.readText (base.join (Path.ofString source)) "utf-8" with
  | ok content => simp [pure, Except.pure]
  | error cause => cases cause <;> simp [throw, throwThe, MonadExceptOf.throw]

variable {draft : Draft} {tree : FileTree} {base : Path} {ids : Nat → String}

theorem build_eq_draft {fault : DraftFault} :
    (draft.build tree base ids).result = .error (.draft fault) ↔ draft.settings = .error fault := by
  unfold Draft.build
  simp [Logged.bind_eq_error, Logged.ofExcept, Except.mapError_eq_error, Except.mapM_eq_error, readSource_ne_draft]

theorem build_eq_source {fault : SourceFault} {s : Settings} (hs : draft.settings = .ok s)
    (h : draft.sources.mapM (readSource tree base) = .error fault) :
    (draft.build tree base ids).result = .error fault := by
  unfold Draft.build
  rw [hs, h]
  rfl

/-- An accepted document is refused for a repeated identifier exactly if two of its modules go by the same one, and
then for the first one that does. Otherwise only a source file can stand in the way of settings that have the modules of
the document, in their order. -/
theorem build_modules {document : Value} {draft : Draft} (hd : checkDocument document = .ok draft) (tree : FileTree)
    (base : Path) (ids : Nat → String) :
    ∃ effective : List String, (∀ other, Identified draft.customModules other ↔ other = effective) ∧
      (∀ id, (draft.build tree base ids).result = .error (.draft (.duplicateModule id)) ↔ Repeats effective id) ∧
      (∀ id, (SourceFault.draft (.duplicateModule id)).message = "Duplicate custom module id '" ++ id ++ "'") ∧
      ((∃ id, Repeats effective id) ↔ ¬ effective.Nodup) ∧
      (effective.Nodup → match draft.sources.mapM (readSource tree base) with
        | .ok _ => ∃ s, (draft.build tree base ids).result = .ok s ∧ Furnishes draft effective s
        | .error fault => (draft.build tree base ids).result = .error fault) := by
  obtain ⟨entries, rfl, haccepts⟩ := checkDocument_ok_iff.1 hd
  refine ⟨effectiveIds draft.customModules, fun _ => identified_iff, fun id => ?_, fun _ => rfl, exists_repeats_iff,
    fun hnodup => ?_⟩
  · rw [build_eq_draft, haccepts.settings_eq_duplicate]
  · rw [← Draft.ids_modules] at hnodup
    cases hfiles : draft.sources.mapM (readSource tree base) with
    | ok files =>
      obtain ⟨⟨s, hs, hcomposed⟩, -⟩ := build_composed hd hfiles hnodup ids ids
      exact ⟨s, hs, hcomposed.furnishes (Draft.ids_modules draft ▸ hnodup)⟩
    | error fault =>
      obtain ⟨start, hstart⟩ := haccepts.settings_ok (firstRepeated?_eq_none hnodup (by simp))
      exact build_eq_source hstart hfiles

def clashingSheet : Value :=
  .map [(.text "modules", .map [(.text "custom", .list [
    .map [(.text "name", .text " Deep, DEEP pits!"), (.text "code", .text "# pits")],
    .map [(.text "id", .text "custom_2"), (.text "name", .text "Walls"), (.text "code", .text "# walls")],
    .map [(.text "id", .text ""), (.text "name", .text "..."), (.text "code", .text "# dots")]])])]

theorem build_modules_clashingSheet :
    ∃ draft, checkDocument clashingSheet = .ok draft ∧
      Identified draft.customModules ["custom_deep_deep_pits", "custom_2", "custom_2"] ∧
      (draft.build { entries := [], working := [] } (.ofString ".") fun _ => "").result =
        .error (.draft (.duplicateModule "custom_2")) := by
  have hok : (checkDocument clashingSheet).toOption.any fun draft =>
      decide (effectiveIds draft.customModules = ["custom_deep_deep_pits", "custom_2", "custom_2"]) := by
    decide +kernel
  cases hd : checkDocument clashingSheet with
  | error =>
    rw [hd] at hok
    cases hok
  | ok draft =>
    rw [hd] at hok
    have hids : Identified draft.customModules _ := identified_iff.2 (of_decide_eq_true hok).symm
    obtain ⟨effective, hidentified, hrepeats, -⟩ :=
      build_modules hd { entries := [], working := [] } (.ofString ".") fun _ => ""
    rw [hidentified] at hids
    refine ⟨draft, rfl, (hidentified _).2 hids, (hrepeats "custom_2").2 ?_⟩
    exact ⟨["custom_deep_deep_pits", "custom_2"], [], hids.symm, by decide, by decide⟩

end CaveMap.SettingsFile
