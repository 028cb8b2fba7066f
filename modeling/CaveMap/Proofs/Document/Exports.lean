import CaveMap.Document.Config
import CaveMap.Proofs.Document.Bracketed
import CaveMap.Proofs.Value

namespace CaveMap

open Brackets Text

namespace Config

def wordsBehind (mark : String) : List String → List String
  | first :: word :: rest => if first = mark then word :: wordsBehind mark rest else wordsBehind mark (word :: rest)
  | _ => []

/-- The layouts that an export asks for; other lines ask for none. -/
def exportedLayouts (line : String) : List String :=
  match (words line.toList).map String.ofList with
  | "export" :: rest => wordsBehind "-layout" rest
  | _ => []

variable {s : Settings}

theorem exportedLayouts_other (head : String) (h : IsWord head.toList) (hne : head ≠ "export") (rest : String) :
    exportedLayouts (head ++ " " ++ rest) = [] := by
  have hwords : (words (head ++ " " ++ rest).toList).map String.ofList = head :: wordsOf rest :=
    wordsOf_append h rest
  unfold exportedLayouts
  rw [hwords]
  split
  · next he => exact absurd (List.cons.inj he).1 hne
  · rfl

theorem exportedLayouts_task {kind : Value} {task : String} (h : task? s kind = some task) :
    IsLine task ∧ ∀ name ∈ exportedLayouts task, name = Layout.name ∨ name = s.paperSize.layoutName := by
  unfold task? at h
  split at h
  · cases h
    unfold mapTask
    cases s.paperSize <;> decide
  · cases h
    have hnone : exportedLayouts modelTask = [] := by decide
    exact ⟨by decide, by simp [hnone]⟩
  · cases h

theorem tasks_eq {kinds : List Value} (h : ∀ kind ∈ kinds, kind.isKey) :
    tasks s kinds = ⟨.ok (kinds.filterMap (task? s)),
      (kinds.filter fun kind => (task? s kind).isNone).map .exportSkipped⟩ := by
  induction kinds with
  | nil => rfl
  | cons kind rest ih =>
    rw [List.forall_mem_cons] at h
    rw [tasks, if_pos h.1, ih h.2, List.filterMap_cons, List.filter_cons]
    cases task? s kind with
    | none => rfl
    | some task =>
      simp only [bind, Logged.andThen, pure, List.append_nil]
      rfl

theorem generate_eq (hselect : s.selectName.isWritable) (h : ∀ kind ∈ s.exportTypes, kind.isKey)
    (layoutName : String) :
    generate s layoutName =
      ⟨.ok (render s s.selectName.shown layoutName (s.exportTypes.filterMap (task? s))),
        (s.exportTypes.filter fun kind => (task? s kind).isNone).map .exportSkipped⟩ := by
  unfold generate Value.shown?
  rw [if_pos hselect, tasks_eq h]
  simp only [bind, Logged.andThen, pure, List.append_nil]

def blocks (s : Settings) (layoutName : String) (tasks : List String) : List (List String) :=
  [["encoding utf-8"], (sources s).map ("source " ++ ·), ["select " ++ s.selectName.shown], ["input " ++ layoutName]] ++
    if tasks.isEmpty then [] else [tasks]

theorem block_ne_nil {layoutName : String} {tasks block : List String} (hb : block ∈ blocks s layoutName tasks) :
    block ≠ [] := by
  have hsources : sources s ≠ [] := by
    unfold sources
    dsimp only
    split
    · simp
    · next h => simpa using h
  have hblocks : ∀ block ∈ blocks s layoutName tasks, block ≠ [] := by
    simp only [blocks, List.forall_mem_append, List.forall_mem_cons, List.not_mem_nil, false_imp_iff, implies_true,
      and_true]
    refine ⟨⟨by simp, by simpa using hsources, by simp, by simp⟩, ?_⟩
    split
    · simp
    · next h => simpa using h
  exact hblocks block hb

theorem render_eq (s : Settings) (layoutName : String) (tasks : List String) :
    render s s.selectName.shown layoutName tasks =
      String.intercalate "\n" (spaced (blocks s layoutName tasks)) ++ "\n" := by
  rw [← intercalate_blocks fun _ => block_ne_nil, render, blocks, List.map_append]
  cases tasks <;> rfl

/-- Texts of a config document within one line, a select name that can be written and export kinds that can be
looked up. -/
structure OneLined (s : Settings) : Prop where
  written : s.selectName.isWritable
  select : IsLine s.selectName.shown
  sources : ∀ u ∈ s.uploads, IsLine u.fileName
  exports : ∀ kind ∈ s.exportTypes, kind.isKey

theorem mem_blocks {layoutName line : String} {tasks block : List String} (hb : block ∈ blocks s layoutName tasks)
    (hl : line ∈ block) : line = "encoding utf-8" ∨ (∃ name ∈ sources s, line = "source " ++ name) ∨
      line = "select " ++ s.selectName.shown ∨ line = "input " ++ layoutName ∨ line ∈ tasks := by
  rw [blocks, List.mem_append] at hb
  rcases hb with hb | hb
  · simp only [List.mem_cons, List.not_mem_nil, or_false] at hb
    rcases hb with rfl | rfl | rfl | rfl
    · exact .inl (List.mem_singleton.1 hl)
    · obtain ⟨name, hname, rfl⟩ := List.mem_map.1 hl
      exact .inr (.inl ⟨name, hname, rfl⟩)
    · exact .inr (.inr (.inl (List.mem_singleton.1 hl)))
    · exact .inr (.inr (.inr (.inl (List.mem_singleton.1 hl))))
  · split at hb
    · exact absurd hb List.not_mem_nil
    · rw [List.mem_singleton.1 hb] at hl
      exact .inr (.inr (.inr (.inr hl)))

theorem isLine_source (h : ∀ u ∈ s.sourceFiles, IsLine u.fileName) {name : String} (hn : name ∈ sources s) :
    IsLine name := by
  unfold sources at hn
  dsimp only at hn
  split at hn
  · rw [List.mem_singleton.1 hn]
    decide
  · obtain ⟨u, hu, rfl⟩ := List.mem_map.1 hn
    exact h u hu

theorem isLine_spaced_blocks (hselect : IsLine s.selectName.shown)
    (hsources : ∀ u ∈ s.sourceFiles, IsLine u.fileName) {layoutName : String} (hn : IsLine layoutName)
    {tasks : List String} (htasks : ∀ task ∈ tasks, IsLine task) :
    ∀ line ∈ spaced (blocks s layoutName tasks), IsLine line := by
  intro line hin
  rcases mem_spaced hin with rfl | ⟨block, hb, hl⟩
  · decide
  · rcases mem_blocks hb hl with rfl | ⟨name, hname, rfl⟩ | rfl | rfl | hl
    · decide
    · exact IsLine.append (by decide) (isLine_source hsources hname)
    · exact IsLine.append (by decide) hselect
    · exact IsLine.append (by decide) hn
    · exact htasks line hl

theorem linesOf_generate (h : OneLined s) {layoutName : String} (hn : IsLine layoutName) :
    ∃ config tasks, (generate s layoutName).result = .ok config ∧
      linesOf config = spaced (blocks s layoutName tasks) ++ [""] ∧
      ∀ task ∈ tasks, ∃ kind, task? s kind = some task := by
  let tasks := s.exportTypes.filterMap (task? s)
  have htask : ∀ task ∈ tasks, ∃ kind, task? s kind = some task := by
    intro task hin
    obtain ⟨kind, -, hkind⟩ := List.mem_filterMap.1 hin
    exact ⟨kind, hkind⟩
  have hresult : (generate s layoutName).result = .ok (render s s.selectName.shown layoutName tasks) := by
    rw [generate_eq h.written h.exports]
  have hsources : ∀ u ∈ s.sourceFiles, IsLine u.fileName := fun u hu => h.sources u (List.mem_filter.1 hu).1
  have hline : ∀ line ∈ spaced (blocks s layoutName tasks), IsLine line := by
    refine isLine_spaced_blocks h.select hsources hn fun task hin => ?_
    obtain ⟨kind, hkind⟩ := htask task hin
    exact (exportedLayouts_task hkind).1
  have hne : spaced (blocks s layoutName tasks) ≠ [] :=
    spaced_ne_nil (List.cons_ne_nil _ _) fun _ => block_ne_nil
  exact ⟨_, tasks, hresult, by rw [render_eq, linesOf_ended, linesOf_joined hline hne], htask⟩

theorem exportedLayouts_generate (h : OneLined s) {layoutName : String} (hn : IsLine layoutName) :
    ∃ config, (generate s layoutName).result = .ok config ∧
      ∀ line ∈ linesOf config, ∀ name ∈ exportedLayouts line, name = Layout.name ∨ name = s.paperSize.layoutName := by
  obtain ⟨config, tasks, hresult, hlines, htask⟩ := linesOf_generate h hn
  have hnone : exportedLayouts "" = [] ∧ exportedLayouts "encoding utf-8" = [] := by decide
  refine ⟨config, hresult, fun line hin => ?_⟩
  rw [hlines, List.mem_append, List.mem_singleton] at hin
  rcases hin with hin | rfl
  · rcases mem_spaced hin with rfl | ⟨block, hb, hl⟩
    · simp [hnone]
    · rcases mem_blocks hb hl with rfl | ⟨name, -, rfl⟩ | rfl | rfl | hl
      · simp [hnone]
      · have hsource : exportedLayouts ("source " ++ name) = [] :=
          exportedLayouts_other "source" (by decide) (by decide) name
        simp [hsource]
      · have hselect : exportedLayouts ("select " ++ s.selectName.shown) = [] :=
          exportedLayouts_other "select" (by decide) (by decide) _
        simp [hselect]
      · have hinput : exportedLayouts ("input " ++ layoutName) = [] :=
          exportedLayouts_other "input" (by decide) (by decide) layoutName
        simp [hinput]
      · obtain ⟨kind, hkind⟩ := htask line hl
        exact (exportedLayouts_task hkind).2
  · simp [hnone]

theorem select_mem_generate (h : OneLined s) {layoutName : String} (hn : IsLine layoutName) :
    ∃ config, (generate s layoutName).result = .ok config ∧ "select " ++ s.selectName.shown ∈ linesOf config := by
  obtain ⟨config, tasks, hresult, hlines, -⟩ := linesOf_generate h hn
  have hblock : ["select " ++ s.selectName.shown] ∈ blocks s layoutName tasks := by simp [blocks]
  have hin := mem_spaced_of_mem hblock (List.mem_singleton_self _)
  exact ⟨config, hresult, hlines ▸ List.mem_append_left _ hin⟩

end Config

namespace Layout

variable {s : Settings}

theorem moduleOpenings_eq (h : ∀ m ∈ enabledModules s, ∀ o ∈ openingsOf m.code, o = .code) :
    moduleOpenings s = List.replicate (moduleOpenings s).length .code := by
  refine List.eq_replicate_iff.2 ⟨rfl, fun o ho => ?_⟩
  obtain ⟨m, hm, hin⟩ := List.mem_flatMap.1 ho
  exact h m hm o hin

/-- A layout document is well bracketed when each of its modules is, and an export asks for layouts that it
opens. It opens two layouts, and code blocks in the first of them only, if no module opens a layout. -/
theorem documents_fit (hs : s.OneLined) (hc : Config.OneLined s)
    (hcode : ∀ m ∈ enabledModules s, ∃ opened, scan .layout (linesOf m.code) = some (.layout, opened)) :
    ∃ text opened, (generate s).result = .ok text ∧ scan .outside (linesOf text) = some (.outside, opened) ∧
      (∃ own, opened = .layout name :: List.replicate own .code ++
        (enabledModules s).flatMap (fun m => openingsOf m.code) ++ [.layout s.paperSize.layoutName]) ∧
      ((∀ m ∈ enabledModules s, ∀ o ∈ openingsOf m.code, o = .code) →
        ∃ codes, opened = .layout name :: List.replicate codes .code ++ [.layout s.paperSize.layoutName]) ∧
      ∀ layoutName, IsLine layoutName → ∃ config, (Config.generate s layoutName).result = .ok config ∧
        ∀ line ∈ linesOf config, ∀ asked ∈ Config.exportedLayouts line, .layout asked ∈ opened := by
  obtain ⟨text, htext, hscan⟩ := generate_leads hs hcode
  refine ⟨text, _, htext, hscan, ⟨_, rfl⟩, fun hmodules => ?_, fun layoutName hname => ?_⟩
  · refine ⟨(visible s).ownBlocks + (moduleOpenings s).length, ?_⟩
    rw [moduleOpenings_eq hmodules, List.replicate_add, List.length_replicate]
    simp only [List.cons_append, List.append_assoc]
  · obtain ⟨config, hconfig, hlines⟩ := Config.exportedLayouts_generate hc hname
    refine ⟨config, hconfig, fun line hline asked hasked => ?_⟩
    rcases hlines line hline asked hasked with rfl | rfl <;> simp

def soleModule (code : String) : MapModule :=
  { id := "custom_1", displayName := "Module", description := "", code, isCustom := true }

def withModule (code : String) : Settings :=
  { Settings.default with
    customModules := [soleModule code]
    enabledModules := [.text "custom_1"] }

theorem oneLined_withModule (code : String) : (withModule code).OneLined ∧ Config.OneLined (withModule code) := by
  have hdefault := (Settings.legible_default (.text "")).oneLined
  refine ⟨⟨hdefault.texts, hdefault.numbers, hdefault.written, hdefault.keys, hdefault.sets⟩, ⟨rfl, ?_, ?_, ?_⟩⟩
  · change IsLine ""
    decide
  · exact fun u hu => absurd hu List.not_mem_nil
  · exact fun kind hkind => List.mem_singleton.1 hkind ▸ rfl

theorem enabledModules_withModule (code : String) : enabledModules (withModule code) = [soleModule code] := by
  have henabled (id : String) : (withModule code).isEnabled id = decide ("custom_1" = id) := by
    simp [Settings.isEnabled, withModule, Value.equals_text]
  have hbuiltins : MapModule.builtins.filter (fun m => decide ("custom_1" = m.id)) = [] :=
    List.filter_eq_nil_iff.2 (by decide)
  simp only [enabledModules, MapModule.enabled, henabled, List.filter_append, hbuiltins, List.nil_append]
  rfl

/-- A module with an empty code block of its own. -/
theorem documents_fit_empty_block :
    ∃ text opened, (generate (withModule "code metapost\nendcode")).result = .ok text ∧
      scan .outside (linesOf text) = some (.outside, opened) ∧
      ∃ codes, opened = .layout name :: List.replicate codes .code ++ [.layout "A4_Layout"] := by
  obtain ⟨hs, hc⟩ := oneLined_withModule "code metapost\nendcode"
  have hmodule : scan .layout (linesOf "code metapost\nendcode") = some (.layout, [.code]) := by decide
  have hopenings : openingsOf "code metapost\nendcode" = [.code] := by decide
  have hcode : ∀ m ∈ enabledModules (withModule "code metapost\nendcode"),
      (∃ opened, scan .layout (linesOf m.code) = some (.layout, opened)) ∧ ∀ o ∈ openingsOf m.code, o = .code := by
    rw [enabledModules_withModule, List.forall_mem_singleton]
    exact ⟨⟨_, hmodule⟩, by simp [soleModule, hopenings]⟩
  obtain ⟨text, opened, htext, hscan, -, htwo, -⟩ := documents_fit hs hc fun m hm => (hcode m hm).1
  exact ⟨text, opened, htext, hscan, htwo fun m hm => (hcode m hm).2⟩

def selecting (scrap : String) : Settings :=
  { Settings.default with selectName := .text scrap }

theorem oneLined_selecting {scrap : String} (h : IsLine scrap) :
    (selecting scrap).OneLined ∧ Config.OneLined (selecting scrap) :=
  ⟨(Settings.legible_default (.text scrap)).oneLined, rfl, h, fun _ hu => absurd hu List.not_mem_nil,
    fun _ hkind => List.mem_singleton.1 hkind ▸ rfl⟩

theorem enabledModules_selecting (scrap : String) : enabledModules (selecting scrap) = [] := by
  have henabled (id : String) : (selecting scrap).isEnabled id = false := by
    simp [Settings.isEnabled, selecting, Settings.default]
  simp [enabledModules, MapModule.enabled, henabled]

/-- A module that closes the layout and opens another one leads back into a layout; the document has three. A
select name may ask for a layout that is not there. -/
theorem unfitting_documents :
    ((withModule "endlayout\nlayout extra").OneLined ∧ Config.OneLined (withModule "endlayout\nlayout extra") ∧
      (∀ m ∈ enabledModules (withModule "endlayout\nlayout extra"),
        ∃ opened, scan .layout (linesOf m.code) = some (.layout, opened)) ∧
      ∃ text, (generate (withModule "endlayout\nlayout extra")).result = .ok text ∧
        scan .outside (linesOf text) = some (.outside,
          [.layout "custom_layout", .code, .code, .layout "extra", .layout "A4_Layout"])) ∧
    ((selecting "cave -layout extra").OneLined ∧ Config.OneLined (selecting "cave -layout extra") ∧
      enabledModules (selecting "cave -layout extra") = [] ∧
      ∃ text config opened, (generate (selecting "cave -layout extra")).result = .ok text ∧
        scan .outside (linesOf text) = some (.outside, opened) ∧
        (Config.generate (selecting "cave -layout extra") "map.thl").result = .ok config ∧
        ∃ line ∈ linesOf config, ∃ asked ∈ Config.wordsBehind "-layout" (wordsOf line), .layout asked ∉ opened) := by
  constructor
  · obtain ⟨hs, hc⟩ := oneLined_withModule "endlayout\nlayout extra"
    have hmodule : scan .layout (linesOf "endlayout\nlayout extra") = some (.layout, [.layout "extra"]) := by decide
    have hopenings : moduleOpenings (withModule "endlayout\nlayout extra") = [.layout "extra"] := by
      have hsole : openingsOf "endlayout\nlayout extra" = [.layout "extra"] := by decide
      rw [moduleOpenings, enabledModules_withModule, List.flatMap_singleton]
      exact hsole
    have hcode : ∀ m ∈ enabledModules (withModule "endlayout\nlayout extra"), Returns m.code := by
      rw [enabledModules_withModule, List.forall_mem_singleton]
      exact ⟨_, hmodule⟩
    obtain ⟨text, htext, hscan⟩ := generate_leads hs hcode
    rw [hopenings] at hscan
    exact ⟨hs, hc, hcode, text, htext, hscan⟩
  · obtain ⟨hs, hc⟩ := oneLined_selecting (show IsLine "cave -layout extra" by decide)
    have hnone := enabledModules_selecting "cave -layout extra"
    have hpage : (selecting "cave -layout extra").paperSize.layoutName = "A4_Layout" := rfl
    obtain ⟨text, htext, hscan⟩ := generate_leads hs (by simp [hnone])
    obtain ⟨config, hconfig, hline⟩ := Config.select_mem_generate hc (show IsLine "map.thl" by decide)
    refine ⟨hs, hc, hnone, text, config, _, htext, hscan, hconfig, _, hline, "extra", by decide, ?_⟩
    simp [moduleOpenings, hnone, hpage, name]

end Layout

end CaveMap
