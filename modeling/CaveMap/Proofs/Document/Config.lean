import CaveMap.Proofs.Document.Decoding
import CaveMap.Proofs.Document.Exports
import CaveMap.Proofs.Logged

namespace CaveMap.Config

open Text

def templates : List String := ["map", "model"]

/-- The name of an export kind that there is a template for. -/
def templated? (kind : Value) : Option String := kind.text?.filter (· ∈ templates)

/-- The requested exports that there is a template for. -/
def exported (s : Settings) : List String := s.exportTypes.filterMap templated?

def skipped (s : Settings) : List Value := s.exportTypes.filter fun kind => (templated? kind).isNone

def taskOf (s : Settings) (kind : String) : String := if kind = "map" then mapTask s else modelTask

variable {s t : Settings}

theorem task?_eq (s : Settings) (kind : Value) : task? s kind = (templated? kind).map (taskOf s) := by
  unfold task?
  split
  · rfl
  · rfl
  · next hmap hmodel =>
    cases kind with
    | text name =>
      have hname : name ∉ templates := by
        intro hin
        simp only [templates, List.mem_cons, List.not_mem_nil, or_false] at hin
        rcases hin with rfl | rfl
        · exact hmap rfl
        · exact hmodel rfl
      simp [templated?, Value.text?, Option.filter_some, hname]
    | _ => rfl

theorem mem_templates_of_mem_exported {kind : String} (h : kind ∈ exported s) : kind ∈ templates := by
  obtain ⟨value, -, hvalue⟩ := List.mem_filterMap.1 h
  exact of_decide_eq_true (Option.filter_eq_some_iff.1 hvalue).2

theorem isLine_taskOf (s : Settings) (kind : String) : IsLine (taskOf s kind) := by
  unfold taskOf
  split
  · unfold mapTask
    cases s.paperSize <;> decide
  · decide

theorem mapTask_inj (h : mapTask s = mapTask t) : s.paperSize = t.paperSize :=
  PaperSize.layoutName_inj (prefixed_inj (suffixed_inj (suffixed_inj h)))

theorem mapTask_congr (h : s.paperSize = t.paperSize) : mapTask s = mapTask t :=
  congrArg (fun page : PaperSize =>
    "export map -layout " ++ Layout.name ++ " -layout " ++ page.layoutName ++ " -o " ++ mapOutput) h

theorem mapTask_ne_modelTask (s : Settings) : mapTask s ≠ modelTask := by
  unfold mapTask
  cases s.paperSize <;> decide

theorem taskOf_inj {kind other : String} (hk : kind ∈ templates) (ho : other ∈ templates)
    (h : taskOf s kind = taskOf t other) : kind = other ∧ (kind = "map" → s.paperSize = t.paperSize) := by
  simp only [templates, List.mem_cons, List.not_mem_nil, or_false] at hk ho
  rcases hk with rfl | rfl <;> rcases ho with rfl | rfl
  · exact ⟨rfl, fun _ => mapTask_inj h⟩
  · exact absurd h (mapTask_ne_modelTask s)
  · exact absurd h.symm (mapTask_ne_modelTask t)
  · exact ⟨rfl, fun hmodel => absurd hmodel (by decide)⟩

theorem map_taskOf_inj {kinds others : List String} (hk : ∀ kind ∈ kinds, kind ∈ templates)
    (ho : ∀ other ∈ others, other ∈ templates) (h : kinds.map (taskOf s) = others.map (taskOf t)) :
    kinds = others ∧ ("map" ∈ kinds → s.paperSize = t.paperSize) := by
  induction kinds generalizing others with
  | nil => exact ⟨(List.map_eq_nil_iff.1 h.symm).symm, fun hin => absurd hin List.not_mem_nil⟩
  | cons kind kinds ih =>
    cases others with
    | nil => exact absurd (List.map_eq_nil_iff.1 h) (List.cons_ne_nil _ _)
    | cons other others =>
      rw [List.forall_mem_cons] at hk ho
      obtain ⟨hfirst, hrest⟩ := List.cons.inj h
      obtain ⟨rfl, hpage⟩ := taskOf_inj hk.1 ho.1 hfirst
      obtain ⟨rfl, hpages⟩ := ih hk.2 ho.2 hrest
      refine ⟨rfl, fun hin => ?_⟩
      rcases List.mem_cons.1 hin with hmap | hin
      · exact hpage hmap.symm
      · exact hpages hin

theorem map_taskOf_congr {kinds : List String} (h : "map" ∈ kinds → s.paperSize = t.paperSize) :
    kinds.map (taskOf s) = kinds.map (taskOf t) := by
  refine List.map_congr_left fun kind hin => ?_
  by_cases hmap : kind = "map"
  · rw [taskOf, taskOf, if_pos hmap, if_pos hmap, mapTask_congr (h (hmap ▸ hin))]
  · rw [taskOf, taskOf, if_neg hmap, if_neg hmap]

/-- The survey files in the order of their uploads; the name of the fallback when there are none. -/
def surveys (s : Settings) : List String :=
  match s.uploads.filter (·.kind = .source) with
  | [] => ["main.th"]
  | first :: rest => first.fileName :: rest.map (·.fileName)

theorem sources_eq (s : Settings) : sources s = surveys s := by
  unfold sources surveys Settings.sourceFiles
  cases s.uploads.filter (·.kind = .source) <;> rfl

variable {m n : String}

def followingLines (s : Settings) (layoutName : String) (tasks : List String) : List String :=
  ("select " ++ s.selectName.shown) :: "" :: ("input " ++ layoutName) :: if tasks.isEmpty then [] else "" :: tasks

theorem spaced_blocks (s : Settings) (layoutName : String) (tasks : List String) :
    spaced (blocks s layoutName tasks) =
      "encoding utf-8" :: "" :: ((sources s).map ("source " ++ ·) ++ "" :: followingLines s layoutName tasks) := by
  cases tasks <;> rfl

theorem followingLines_inj {tasks others : List String} (h : followingLines s m tasks = followingLines t n others) :
    s.selectName.shown = t.selectName.shown ∧ m = n ∧ tasks = others := by
  unfold followingLines at h
  obtain ⟨hselect, h⟩ := List.cons.inj h
  obtain ⟨hname, h⟩ := List.cons.inj (List.cons.inj h).2
  refine ⟨prefixed_inj hselect, prefixed_inj hname, ?_⟩
  cases tasks <;> cases others
  · rfl
  · exact absurd h.symm (List.cons_ne_nil _ _)
  · exact absurd h (List.cons_ne_nil _ _)
  · exact (List.cons.inj h).2

theorem empty_notMem_sourceLines (s : Settings) : "" ∉ (sources s).map ("source " ++ ·) := by
  intro hin
  obtain ⟨name, -, hname⟩ := List.mem_map.1 hin
  rw [← String.toList_inj, String.toList_append] at hname
  exact absurd hname (List.cons_ne_nil _ _)

structure Readable (s : Settings) : Prop where
  select : IsLine s.selectName.shown
  surveys : ∀ u ∈ s.uploads, u.kind = .source → IsLine u.fileName

theorem Readable.sources (h : Readable s) : ∀ u ∈ s.sourceFiles, IsLine u.fileName := by
  intro u hu
  obtain ⟨hin, hkind⟩ := List.mem_filter.1 hu
  exact h.surveys u hin (of_decide_eq_true hkind)

theorem render_inj (hs : Readable s) (ht : Readable t) (hm : IsLine m) (hn : IsLine n) {tasks others : List String}
    (htasks : ∀ task ∈ tasks, IsLine task) (hothers : ∀ task ∈ others, IsLine task)
    (h : render s s.selectName.shown m tasks = render t t.selectName.shown n others) :
    sources s = sources t ∧ s.selectName.shown = t.selectName.shown ∧ m = n ∧ tasks = others := by
  have hne (s : Settings) (name : String) (tasks : List String) : spaced (blocks s name tasks) ≠ [] :=
    spaced_ne_nil (List.cons_ne_nil _ _) fun _ => block_ne_nil
  rw [render_eq, render_eq] at h
  have hlines : spaced (blocks s m tasks) = spaced (blocks t n others) :=
    joined_inj (isLine_spaced_blocks hs.select hs.sources hm htasks)
      (isLine_spaced_blocks ht.select ht.sources hn hothers) (hne s m tasks) (hne t n others) (suffixed_inj h)
  rw [spaced_blocks, spaced_blocks, List.cons_inj_right, List.cons_inj_right] at hlines
  obtain ⟨hsources, hfollowing⟩ :=
    first_mark_inj (empty_notMem_sourceLines s) (empty_notMem_sourceLines t) hlines
  exact ⟨List.map_injective_iff.2 (fun _ _ => prefixed_inj) hsources, followingLines_inj hfollowing⟩

theorem generate_of_isKey (hselect : s.selectName.isWritable) (h : ∀ kind ∈ s.exportTypes, kind.isKey)
    (layoutName : String) :
    generate s layoutName =
      ⟨.ok (render s s.selectName.shown layoutName ((exported s).map (taskOf s))),
        (skipped s).map .exportSkipped⟩ := by
  have htask : task? s = fun kind => (templated? kind).map (taskOf s) := funext (task?_eq s)
  unfold exported skipped
  rw [generate_eq hselect h, htask, List.map_filterMap]
  simp only [Option.isNone_map]

theorem isKey_of_tasks {kinds : List Value} {lines : List String} (h : (tasks s kinds).result = .ok lines) :
    ∀ kind ∈ kinds, kind.isKey := by
  induction kinds generalizing lines with
  | nil => simp
  | cons kind rest ih =>
    unfold tasks at h
    split at h
    · next hkey =>
      refine List.forall_mem_cons.2 ⟨hkey, ?_⟩
      split at h
      · obtain ⟨_, hrest, -⟩ := Logged.bind_eq_ok.1 h
        exact ih hrest
      · obtain ⟨_, -, hrest⟩ := Logged.bind_eq_ok.1 h
        exact ih hrest
    · cases h

theorem conditions_of_generate {layoutName d : String} (h : (generate s layoutName).result = .ok d) :
    s.selectName.isWritable ∧ ∀ kind ∈ s.exportTypes, kind.isKey := by
  unfold generate Value.shown? at h
  split at h
  · cases h
  · next select hselect =>
    obtain ⟨_, htasks, -⟩ := Logged.bind_eq_ok.1 h
    exact ⟨(Option.ite_none_right_eq_some.1 hselect).1, isKey_of_tasks htasks⟩

/-- There is a config document exactly when the selection can be written and each export kind looked up; each
export without a template is reported, in their order. Two documents are the same exactly when they name the same
surveys, selection, layout file and exports with a template, and the same page if there is a map to export. -/
theorem generate_eq_iff (hs : Readable s) (ht : Readable t) (hm : IsLine m) (hn : IsLine n) :
    ((∃ d, (generate s m).result = .ok d) ↔
        s.selectName.isWritable ∧ ∀ kind ∈ s.exportTypes, kind.isKey) ∧
      ∀ d, (generate s m).result = .ok d →
        (generate s m).events = (skipped s).map .exportSkipped ∧
        (∀ kind : Value, (Log.Event.exportSkipped kind).level = .warning ∧
          (Log.Event.exportSkipped kind).message = "No export template for '" ++ kind.shown ++ "'; skipped") ∧
        ∀ e, (generate t n).result = .ok e →
          (d = e ↔ surveys s = surveys t ∧ s.selectName.shown = t.selectName.shown ∧ m = n ∧
            exported s = exported t ∧ ("map" ∈ exported s → s.paperSize = t.paperSize)) := by
  refine ⟨⟨fun ⟨d, hd⟩ => conditions_of_generate hd, fun h => ⟨_, by rw [generate_of_isKey h.1 h.2]⟩⟩,
    fun d hd => ?_⟩
  obtain ⟨hwritten, hkeys⟩ := conditions_of_generate hd
  have hgenerate := generate_of_isKey hwritten hkeys m
  refine ⟨by rw [hgenerate], fun kind => ⟨rfl, rfl⟩, fun e he => ?_⟩
  rw [← sources_eq, ← sources_eq]
  rw [hgenerate] at hd
  obtain ⟨hwritten', hkeys'⟩ := conditions_of_generate he
  rw [generate_of_isKey hwritten' hkeys' n] at he
  cases hd
  cases he
  constructor
  · intro h
    have hlines (s : Settings) : ∀ task ∈ (exported s).map (taskOf s), IsLine task :=
      List.forall_mem_map.2 fun kind _ => isLine_taskOf s kind
    obtain ⟨hsources, hselect, hname, htasks⟩ := render_inj hs ht hm hn (hlines s) (hlines t) h
    exact ⟨hsources, hselect, hname, map_taskOf_inj (fun _ => mem_templates_of_mem_exported)
      (fun _ => mem_templates_of_mem_exported) htasks⟩
  · rintro ⟨hsources, hselect, rfl, hkinds, hpage⟩
    rw [render, render, hsources, hselect, map_taskOf_congr hpage, hkinds]

/-- Settings with a survey under the name of the fallback, and an export without a template. -/
def surveyed : Settings :=
  { Settings.default with
    uploads := [{ id := "upload_1", fileName := fallbackSource, kind := .source }]
    exportTypes := [.text "map", .text "atlas"] }

/-- A survey that has the name of the fallback leaves the document as it is without a survey. -/
theorem generate_eq_iff_fallback :
    ∃ d, (generate surveyed "cave.th2").result = .ok d ∧ (generate Settings.default "cave.th2").result = .ok d ∧
      (generate surveyed "cave.th2").events = [.exportSkipped (.text "atlas")] := by
  have hline : IsLine "" ∧ IsLine fallbackSource ∧ IsLine "cave.th2" := by decide
  have hsurveyed : Readable surveyed := ⟨hline.1, fun u hu _ => List.mem_singleton.1 hu ▸ hline.2.1⟩
  have hdefault : Readable Settings.default := ⟨hline.1, fun u hu => absurd hu List.not_mem_nil⟩
  obtain ⟨hreaches, hsame⟩ := generate_eq_iff hsurveyed hdefault hline.2.2 hline.2.2
  obtain ⟨hothers, -⟩ := generate_eq_iff hdefault hsurveyed hline.2.2 hline.2.2
  obtain ⟨d, hd⟩ := hreaches.2 ⟨rfl, by decide⟩
  obtain ⟨e, he⟩ := hothers.2 ⟨rfl, by decide⟩
  obtain ⟨hevents, -, hsame⟩ := hsame d hd
  have hde : d = e := (hsame e he).2 ⟨rfl, rfl, rfl, rfl, fun _ => rfl⟩
  exact ⟨d, hd, hde ▸ he, hevents⟩

end CaveMap.Config
