import CaveMap.Proofs.Text.Strip
import CaveMap.Proofs.Text.Words

namespace CaveMap.Text

variable {p : Char → Bool} {text : List Char} {runs : List (List Char)}

/-- The longest runs of characters of a class, in their order. -/
inductive Runs (p : Char → Bool) : List Char → List (List Char) → Prop
  | none {gap : List Char} (outside : ∀ c ∈ gap, p c = false) : Runs p gap []
  | run {gap run rest : List Char} {runs : List (List Char)} (outside : ∀ c ∈ gap, p c = false) (ne_nil : run ≠ [])
      (inside : ∀ c ∈ run, p c = true) (ends : rest.head?.all (!p ·)) (further : Runs p rest runs) :
      Runs p (gap ++ run ++ rest) (run :: runs)

theorem Runs.inside_of_mem (h : Runs p text runs) : ∀ run ∈ runs, run ≠ [] ∧ ∀ c ∈ run, p c = true := by
  induction h with
  | none => simp
  | run _ hne hinside _ _ ih => exact List.forall_mem_cons.2 ⟨⟨hne, hinside⟩, ih⟩

theorem pieces_cons {c : Char} (hc : p c) (rest : List Char) : pieces p (c :: rest) = pieces p rest :=
  pieces_append hc [] rest

theorem pieces_gap {gap : List Char} (h : ∀ c ∈ gap, p c) (rest : List Char) :
    pieces p (gap ++ rest) = pieces p rest := by
  induction gap with
  | nil => rfl
  | cons c gap ih =>
    rw [List.forall_mem_cons] at h
    rw [List.cons_append, pieces_cons h.1, ih h.2]

theorem pieces_run {run rest : List Char} (hne : run ≠ []) (h : ∀ c ∈ run, p c = false) (hends : rest.head?.all p) :
    pieces p (run ++ rest) = run :: pieces p rest := by
  have hrun : pieces p run = [run] := by
    rw [pieces, stretches_of_not_separates h]
    exact List.filter_cons_of_pos (by simpa using hne)
  cases rest with
  | nil =>
    rw [List.append_nil, hrun]
    rfl
  | cons c rest =>
    have hc : p c := by simpa using hends
    rw [pieces_append hc, hrun, pieces_cons hc, List.singleton_append]

theorem Runs.eq_pieces (h : Runs p text runs) : runs = pieces (!p ·) text := by
  induction h with
  | @none gap houtside =>
    rw [← List.append_nil gap, pieces_gap (by simpa using houtside)]
    rfl
  | run houtside hne hinside hends _ ih =>
    rw [List.append_assoc, pieces_gap (by simpa using houtside), pieces_run hne (by simpa using hinside) hends, ← ih]

theorem Runs.leading {run rest : List Char} (hne : run ≠ []) (hinside : ∀ c ∈ run, p c = true)
    (hends : rest.head?.all (!p ·)) (h : Runs p rest runs) : Runs p (run ++ rest) (run :: runs) :=
  @Runs.run p [] run rest runs (by simp) hne hinside hends h

theorem exists_runs (p : Char → Bool) (text : List Char) : ∃ runs, Runs p text runs := by
  induction text with
  | nil => exact ⟨[], .none (by simp)⟩
  | cons c rest ih =>
    obtain ⟨runs, hruns⟩ := ih
    cases hc : p c with
    | false =>
      cases hruns with
      | none houtside => exact ⟨[], .none (List.forall_mem_cons.2 ⟨hc, houtside⟩)⟩
      | run houtside hne hinside hends hfurther =>
        exact ⟨_, .run (List.forall_mem_cons.2 ⟨hc, houtside⟩) hne hinside hends hfurther⟩
    | true =>
      -- The character makes a run of its own, unless a run stands right behind it.
      by_cases hends : rest.head?.all (!p ·)
      · exact ⟨[c] :: runs, .leading (List.cons_ne_nil c []) (by simpa using hc) hends hruns⟩
      · cases hruns with
        | none houtside =>
          cases rest with
          | nil => exact absurd rfl hends
          | cons d rest => exact absurd (by simpa using houtside d List.mem_cons_self) hends
        | @run gap run rest runs houtside hne hinside hends' hfurther =>
          cases gap with
          | nil =>
            exact ⟨(c :: run) :: runs,
              .leading (List.cons_ne_nil c run) (List.forall_mem_cons.2 ⟨hc, hinside⟩) hends' hfurther⟩
          | cons d gap => exact absurd (by simpa using houtside d List.mem_cons_self) hends

variable {mark : Char}

theorem collapseFrom_run {run : List Char} (h : ∀ c ∈ run, p c = true) (hne : run ≠ []) (marked : Bool)
    (rest : List Char) :
    collapseFrom (!p ·) mark marked (run ++ rest) = run ++ collapseFrom (!p ·) mark false rest := by
  induction run generalizing marked with
  | nil => exact absurd rfl hne
  | cons c run ih =>
    rw [List.forall_mem_cons] at h
    rw [List.cons_append, collapseFrom, if_neg (by simp [h.1]), List.cons_append]
    cases run with
    | nil => rfl
    | cons d run => rw [ih h.2 (List.cons_ne_nil d run)]

theorem collapseFrom_gap {gap : List Char} (h : ∀ c ∈ gap, p c = false) (rest : List Char) :
    collapseFrom (!p ·) mark true (gap ++ rest) = collapseFrom (!p ·) mark true rest := by
  induction gap with
  | nil => rfl
  | cons c gap ih =>
    rw [List.forall_mem_cons] at h
    rw [List.cons_append, collapseFrom, if_pos (by simp [h.1]), if_pos rfl, ih h.2]

theorem collapseFrom_outside {c : Char} (h : p c = false) (rest : List Char) :
    collapseFrom (!p ·) mark false (c :: rest) = mark :: collapseFrom (!p ·) mark true (c :: rest) := by
  simp [collapseFrom, h]

theorem collapse_eq (p : Char → Bool) (mark : Char) (text : List Char) :
    collapse (!p ·) mark text = collapseFrom (!p ·) mark true text ∨
      collapse (!p ·) mark text = mark :: collapseFrom (!p ·) mark true text := by
  unfold collapse
  cases text with
  | nil => exact .inl rfl
  | cons c rest =>
    cases hc : p c with
    | false => exact .inr (collapseFrom_outside hc rest)
    | true => exact .inl (by simp [collapseFrom, hc])

/-- Behind a mark, the runs stand with one mark between two of them, and perhaps one at the end. -/
theorem collapseFrom_runs (mark : Char) (h : Runs p text runs) :
    ∃ trail, (∀ c ∈ trail, c = mark) ∧ collapseFrom (!p ·) mark true text = [mark].intercalate runs ++ trail := by
  induction h with
  | @none gap houtside =>
    refine ⟨[], by simp, ?_⟩
    rw [← List.append_nil gap, collapseFrom_gap houtside]
    rfl
  | @run gap run rest runs houtside hne hinside hends hfurther ih =>
    obtain ⟨trail, htrail, hrest⟩ := ih
    rw [List.append_assoc, collapseFrom_gap houtside, collapseFrom_run hinside hne]
    cases rest with
    | nil =>
      refine ⟨[], by simp, ?_⟩
      rw [hfurther.eq_pieces]
      change run ++ [] = [mark].intercalate [run] ++ []
      simp
    | cons c rest =>
      have hc : p c = false := by simpa using hends
      rw [collapseFrom_outside hc, hrest]
      cases runs with
      | nil => exact ⟨mark :: trail, List.forall_mem_cons.2 ⟨rfl, htrail⟩, by simp⟩
      | cons second more =>
        refine ⟨trail, htrail, ?_⟩
        rw [List.intercalate_cons_cons]
        simp

theorem intercalate_eq_nil_iff (h : ∀ run ∈ runs, run ≠ []) : [mark].intercalate runs = [] ↔ runs = [] := by
  cases runs with
  | nil => simp
  | cons run more =>
    have hne := h run List.mem_cons_self
    cases more <;> simp [List.intercalate_cons_cons, hne]

theorem head?_intercalate_all (h : ∀ run ∈ runs, run ≠ [] ∧ ∀ c ∈ run, p c = true) :
    ([mark].intercalate runs).head?.all p := by
  cases runs with
  | nil => rfl
  | cons run more =>
    obtain ⟨hne, hinside⟩ := h run List.mem_cons_self
    obtain ⟨c, rest, rfl⟩ := List.exists_cons_of_ne_nil hne
    have hc : p c := hinside c List.mem_cons_self
    cases more with
    | nil => simpa using hc
    | cons second more => simpa [List.intercalate_cons_cons] using hc

theorem getLast?_intercalate_all (h : ∀ run ∈ runs, run ≠ [] ∧ ∀ c ∈ run, p c = true) :
    ([mark].intercalate runs).getLast?.all p := by
  induction runs with
  | nil => rfl
  | cons run more ih =>
    cases more with
    | nil =>
      obtain ⟨hne, hinside⟩ := h run List.mem_cons_self
      rw [List.intercalate_singleton, List.getLast?_eq_some_getLast hne]
      exact hinside _ (List.getLast_mem hne)
    | cons second more =>
      have hmore : ∀ run ∈ second :: more, run ≠ [] := fun run hrun => (h run (List.mem_cons_of_mem _ hrun)).1
      have hne : [mark].intercalate (second :: more) ≠ [] := mt (intercalate_eq_nil_iff hmore).1 (List.cons_ne_nil _ _)
      rw [List.intercalate_cons_cons, List.getLast?_append_of_ne_nil _ hne]
      exact ih fun run hrun => h run (List.mem_cons_of_mem _ hrun)

/-- Stripped of the marks at its ends, the collapsed text is the runs with a mark between two of them. -/
theorem stripOf_collapse (h : Runs p text runs) (hmark : p mark = false) :
    stripOf (· = mark) (collapse (!p ·) mark text) = [mark].intercalate runs := by
  have hfree (run : List Char) (hrun : run ∈ runs) : run ≠ [] ∧ ∀ c ∈ run, (!decide (c = mark)) = true := by
    obtain ⟨hne, hinside⟩ := h.inside_of_mem run hrun
    refine ⟨hne, fun c hc => ?_⟩
    rw [Bool.not_eq_true', decide_eq_false_iff_not]
    rintro rfl
    rw [hinside c hc] at hmark
    exact absurd hmark.symm Bool.false_ne_true
  obtain ⟨trail, htrail, hbehind⟩ := collapseFrom_runs mark h
  have hframed : stripOf (· = mark) ([mark].intercalate runs ++ trail) = [mark].intercalate runs :=
    stripOf_append_right (List.all_eq_true.2 fun c hc => decide_eq_true (htrail c hc)) (head?_intercalate_all hfree)
      (getLast?_intercalate_all hfree)
  rcases collapse_eq p mark text with hc | hc
  · rw [hc, hbehind, hframed]
  · rw [hc, hbehind, ← List.singleton_append, stripOf_append_left (by simp), hframed]

end CaveMap.Text
