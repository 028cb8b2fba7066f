import CaveMap.Proofs.Document.Legible
import CaveMap.Proofs.Text.Gaps

namespace CaveMap

open Text

namespace Layout

theorem isChain_indent {lines : List String} (h : lines.IsChain OneShown) : (indent lines).IsChain OneShown := by
  have hshown (line : String) (hne : line ≠ "") : (if line.isEmpty then "" else "  " ++ line) ≠ "" := by
    rw [if_neg (by simpa using hne)]
    simp [← String.toList_inj]
  rw [indent, List.isChain_map]
  exact h.imp fun line next hpair => Or.imp (hshown line) (hshown next) hpair

end Layout

namespace Visible

open Layout

variable {v : Visible}

theorem empty_not_mem_legendContent (v : Visible) : "" ∉ v.legendContent := by
  have hlogo : "" ∉ v.logoLines := by
    unfold logoLines
    split <;> simp [← String.toList_inj]
  have hexploration : "" ∉ v.explorationLines := by
    unfold explorationLines
    split <;> simp [← String.toList_inj]
  unfold legendContent teams
  simp only [List.mem_append, not_or]
  refine ⟨⟨⟨⟨by decide, hlogo⟩, by simp [← String.toList_inj]⟩, empty_not_mem_indent ?_⟩, by decide⟩
  simp only [List.mem_append, not_or]
  exact ⟨⟨by decide, hexploration⟩, by decide⟩

theorem getLast?_typesetting (v : Visible) : v.typesetting.getLast? = some "  endcode" := by
  rw [typesetting, indent, List.map_append]
  exact List.getLast?_concat

theorem isChain_typesetting (v : Visible) : v.typesetting.IsChain OneShown := by
  have hassignment (register content : String) : assignment register content ≠ "" := by
    simp [assignment, ← String.toList_inj]
  refine isChain_indent (isChain_between (isChain_of_empty_not_mem (by decide)) (isChain_indent ?_)
    (isChain_of_empty_not_mem (by decide)) (by decide) (by decide))
  refine isChain_between ?_ (isChain_indent (isChain_of_empty_not_mem v.empty_not_mem_legendContent)) ?_
    (by simp) (by simp)
  · simp [OneShown, hassignment]
  · simp [OneShown, ← String.toList_inj]

theorem compact_sections (hlines : ∀ block ∈ v.sections, ∀ line ∈ block, IsLine line) (hdirectives : "" ∉ v.directives)
    {block : List String} (hin : block ∈ v.sections) : Compact block ∨ block = v.codeLines := by
  have hlines := hlines block hin
  obtain ⟨hblock, hne⟩ := List.mem_filter.1 hin
  have hne : block ≠ [] := by simpa using hne
  have hshown (h : "" ∉ block) : Compact block ∨ block = v.codeLines := .inl (.of_not_mem hne hlines h)
  simp only [List.mem_cons, List.not_mem_nil, or_false] at hblock
  rcases hblock with rfl | rfl | rfl | rfl | rfl | rfl | rfl | rfl | rfl | rfl | rfl | rfl | rfl
  · exact hshown (by decide)
  · refine hshown ?_
    rw [opening, List.mem_cons, not_or]
    exact ⟨by decide, empty_not_mem_indent (by simp [← String.toList_inj])⟩
  · exact hshown (empty_not_mem_indent (by simp [← String.toList_inj]))
  · exact hshown (empty_not_mem_indent (by simp [← String.toList_inj]))
  · exact hshown (empty_not_mem_indent hdirectives)
  · exact hshown v.empty_not_mem_surveyLines
  · exact hshown (empty_not_mem_indent (by simp [← String.toList_inj]))
  · exact hshown (empty_not_mem_indent (by simp [← String.toList_inj]))
  · exact .inl ⟨hlines, rfl, by rw [getLast?_typesetting]; rfl, v.isChain_typesetting⟩
  · refine hshown ?_
    unfold debug
    split
    · exact List.not_mem_nil
    · exact empty_not_mem_indent (by simp [← String.toList_inj])
  · exact .inr rfl
  · exact hshown (by decide)
  · exact hshown (by simp [page, ← String.toList_inj])

theorem toList_text (v : Visible) :
    v.text.toList = emptyLine.intercalate (v.sections.map fun block => (String.intercalate "\n" block).toList) ++
      ['\n'] := by
  rw [text, render, String.toList_append, String.toList_intercalate, List.map_map]
  rfl

theorem toList_codeLines (v : Visible) : (String.intercalate "\n" v.codeLines).toList = v.code.toList := by
  unfold codeLines
  split
  · next h =>
    rw [List.isEmpty_iff.1 h, String.intercalate_nil]
    rfl
  · have hmap : (stretches (· = '\n') v.code.toList).map (String.toList ∘ String.ofList) =
        stretches (· = '\n') v.code.toList :=
      (List.map_congr_left fun _ _ => String.toList_ofList).trans (List.map_id _)
    rw [String.toList_intercalate, List.map_map, hmap]
    exact intercalate_stretches '\n' v.code.toList

theorem codeLines_eq_nil_iff : v.codeLines = [] ↔ v.code.toList = [] := by
  unfold codeLines
  split
  · next h => simpa using h
  · next h => simpa [stretches_ne_nil] using h

/-- A document has no gaps but those of the code in it. -/
theorem gapless_text_iff (hlines : ∀ block ∈ v.sections, ∀ line ∈ block, IsLine line) (hdirectives : "" ∉ v.directives)
    (hcode : v.code.toList ≠ [] → Firm v.code.toList) : Gapless v.text.toList ↔ Gapless v.code.toList := by
  have hblock {block : List String} (hin : block ∈ v.sections) :
      Firm (String.intercalate "\n" block).toList ∧
        (Gapless (String.intercalate "\n" block).toList ∨ block = v.codeLines) := by
    rcases compact_sections hlines hdirectives hin with hcompact | rfl
    · exact ⟨hcompact.firm.1, .inl hcompact.firm.2⟩
    · have hne : v.codeLines ≠ [] := by simpa using (List.mem_filter.1 hin).2
      rw [toList_codeLines]
      exact ⟨hcode (mt codeLines_eq_nil_iff.2 hne), .inr rfl⟩
  have hsections : v.sections ≠ [] := List.ne_nil_of_mem (List.mem_filter.2 ⟨List.mem_cons_self, rfl⟩)
  have hfirm : ∀ chars ∈ v.sections.map fun block => (String.intercalate "\n" block).toList, Firm chars :=
    List.forall_mem_map.2 fun block hin => (hblock hin).1
  rw [toList_text, gapless_blocks (by simpa using hsections) hfirm, List.forall_mem_map]
  constructor
  · intro hall
    by_cases hempty : v.code.toList = []
    · rw [hempty]
      decide
    · have hin : v.codeLines ∈ v.sections :=
        List.mem_filter.2 ⟨by simp, by simpa using mt codeLines_eq_nil_iff.1 hempty⟩
      rw [← toList_codeLines]
      exact hall _ hin
  · intro hgapless block hin
    rcases (hblock hin).2 with hown | rfl
    · exact hown
    · rwa [toList_codeLines]

end Visible

namespace Layout

variable {s : Settings}

theorem toList_code (s : Settings) : (visible s).code.toList =
    stripOf (· = '\n') (emptyLine.intercalate ((enabledModules s).map (·.code.toList))) := by
  rw [visible, String.toList_ofList, MapModule.joinedCode, String.toList_intercalate, List.map_map]
  rfl

/-- A layout document has no gaps but those of the joined code of the modules. -/
theorem gapless_visible_iff (h : s.Lined) : Gapless (visible s).text.toList ↔ Gapless (visible s).code.toList := by
  refine Visible.gapless_text_iff (isLine_sections h) (fun hin => ?_) fun hne => ?_
  · obtain ⟨entry, -, hline⟩ := List.mem_flatMap.1 hin
    exact Symbol.directives_ne_empty hline
  · rw [toList_code] at hne ⊢
    exact firm_stripOf hne

/-- Where no code of an enabled module has a gap, the layout document has one exactly where two codes meet in
a newline, or where a code has nothing to show between two others. Newlines before the first code with
something to show, and behind the last one, are no matter. -/
theorem generate_gapless_iff (h : s.Lined) (hcode : ∀ m ∈ enabledModules s, Gapless m.code.toList) :
    ∃ text, (generate s).result = .ok text ∧
      (Gapless text.toList ↔ List.IsChain Adjoins (trimmed ((enabledModules s).map (·.code.toList)))) := by
  refine ⟨_, generate_eq_visible h.pasted h.written, ?_⟩
  rw [gapless_visible_iff h, toList_code]
  exact gapless_stripOf_joined (by simpa using hcode)

def numbered (codes : List String) : List MapModule :=
  codes.zipIdx.map fun (code, n) =>
    { id := "custom_" ++ toString (n + 1), displayName := "Module", description := "", code, isCustom := true }

def withCodes (codes : List String) : Settings :=
  { Settings.default with
    customModules := numbered codes
    enabledModules := (numbered codes).map fun m => .text m.id }

theorem lined_withCodes (codes : List String) : (withCodes codes).Lined :=
  have hdefault := (Settings.legible_default (.text "")).oneLined.lined
  ⟨hdefault.pasted, hdefault.written, hdefault.shown, hdefault.keys, hdefault.sets⟩

/-- Newlines at the two ends of what the modules show, and modules that show nothing there. -/
theorem generate_gapless_ends :
    (withCodes ["\n", "\n\n% walls", "% pits\n", ""]).Lined ∧
      (∀ m ∈ enabledModules (withCodes ["\n", "\n\n% walls", "% pits\n", ""]), Gapless m.code.toList) ∧
      ∃ text, (generate (withCodes ["\n", "\n\n% walls", "% pits\n", ""])).result = .ok text ∧ Gapless text.toList := by
  have hcode : ∀ m ∈ enabledModules (withCodes ["\n", "\n\n% walls", "% pits\n", ""]), Gapless m.code.toList := by
    decide +kernel
  have hlined := lined_withCodes ["\n", "\n\n% walls", "% pits\n", ""]
  obtain ⟨text, htext, hiff⟩ := generate_gapless_iff hlined hcode
  exact ⟨hlined, hcode, text, htext, hiff.2 (by decide +kernel)⟩

/-- A newline at the end of a code that another one follows. -/
theorem gap_between_codes :
    (withCodes ["% walls\n", "% pits"]).Lined ∧
      (∀ m ∈ enabledModules (withCodes ["% walls\n", "% pits"]), Gapless m.code.toList) ∧
      ∃ text, (generate (withCodes ["% walls\n", "% pits"])).result = .ok text ∧ ¬ Gapless text.toList := by
  have hlined := lined_withCodes ["% walls\n", "% pits"]
  refine ⟨hlined, by decide +kernel, _, generate_eq_visible hlined.pasted hlined.written, ?_⟩
  rw [gapless_visible_iff hlined, toList_code]
  decide +kernel

end Layout

end CaveMap
