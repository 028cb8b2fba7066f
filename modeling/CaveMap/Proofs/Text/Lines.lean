import CaveMap.Text.Split
import Mathlib.Data.List.Basic

namespace CaveMap.Text

theorem joinReturns_of_notMem {text : List Char} (h : '\r' ∉ text) : joinReturns text = text := by
  induction text with
  | nil => rfl
  | cons c rest ih =>
    rw [List.mem_cons, not_or] at h
    have hc : c ≠ '\r' := fun he => h.1 he.symm
    rw [joinReturns, ih h.2]
    exact fun _ he => absurd he hc

theorem unifyNewlines_of_notMem {text : List Char} (h : '\r' ∉ text) : unifyNewlines text = text := by
  rw [unifyNewlines, joinReturns_of_notMem h]
  refine (List.map_congr_left fun c hc => ?_).trans (List.map_id _)
  have hne : c ≠ '\r' := by
    rintro rfl
    exact h hc
  rw [if_neg hne]
  rfl
def IsLine (line : String) : Prop := '\n' ∉ line.toList

instance (line : String) : Decidable (IsLine line) := inferInstanceAs (Decidable ('\n' ∉ line.toList))

theorem isLine_append {a b : String} : IsLine (a ++ b) ↔ IsLine a ∧ IsLine b := by
  rw [IsLine, String.toList_append, List.mem_append, not_or]
  exact Iff.rfl

theorem IsLine.append {a b : String} (ha : IsLine a) (hb : IsLine b) : IsLine (a ++ b) :=
  isLine_append.2 ⟨ha, hb⟩

theorem IsLine.intercalate {sep : String} {parts : List String} (hs : IsLine sep)
    (hp : ∀ part ∈ parts, IsLine part) : IsLine (sep.intercalate parts) := by
  induction parts with
  | nil => simp [IsLine]
  | cons first rest ih =>
    cases rest with
    | nil =>
      rw [String.intercalate_singleton]
      exact hp first List.mem_cons_self
    | cons second rest =>
      rw [String.intercalate_cons_cons]
      have hrest := ih fun part hin => hp part (List.mem_cons_of_mem _ hin)
      exact ((hp first List.mem_cons_self).append hs).append hrest

theorem joined_inj {a b : List String} (ha : ∀ line ∈ a, IsLine line) (hb : ∀ line ∈ b, IsLine line)
    (hna : a ≠ []) (hnb : b ≠ []) (h : String.intercalate "\n" a = String.intercalate "\n" b) :
    a = b := by
  have hsplit {lines : List String} (hl : ∀ line ∈ lines, IsLine line) (hn : lines ≠ []) :
      (String.intercalate "\n" lines).toList.splitOn '\n' = lines.map String.toList := by
    rw [String.toList_intercalate]
    refine List.splitOn_intercalate '\n' ?_ (by simpa using hn)
    intro chars hin
    obtain ⟨line, hline, rfl⟩ := List.mem_map.1 hin
    exact hl line hline
  have he : a.map String.toList = b.map String.toList := by
    rw [← hsplit ha hna, ← hsplit hb hnb, h]
  exact List.map_injective_iff.2 (fun _ _ => String.toList_inj.1) he

variable {α : Type}

theorem first_mark_inj {mark : α} {a b c d : List α} (ha : mark ∉ a) (hc : mark ∉ c)
    (h : a ++ mark :: b = c ++ mark :: d) : a = c ∧ b = d := by
  induction a generalizing c with
  | nil =>
    cases c with
    | nil => exact ⟨rfl, (List.cons.inj h).2⟩
    | cons x c => exact absurd ((List.cons.inj h).1 ▸ List.mem_cons_self) hc
  | cons x a ih =>
    cases c with
    | nil => exact absurd ((List.cons.inj h).1 ▸ List.mem_cons_self) ha
    | cons y c =>
      obtain ⟨hx, h⟩ := List.cons.inj h
      obtain ⟨he, hr⟩ :=
        ih (fun hin => ha (List.mem_cons_of_mem _ hin)) (fun hin => hc (List.mem_cons_of_mem _ hin)) h
      exact ⟨by rw [hx, he], hr⟩

theorem last_mark_inj {mark : α} {a b c d : List α} (hb : mark ∉ b) (hd : mark ∉ d)
    (h : a ++ mark :: b = c ++ mark :: d) : a = c ∧ b = d := by
  have hr := congrArg List.reverse h
  simp only [List.reverse_append, List.reverse_cons, List.append_assoc, List.singleton_append] at hr
  obtain ⟨he, hs⟩ := first_mark_inj (by simpa using hb) (by simpa using hd) hr
  exact ⟨List.reverse_injective hs, List.reverse_injective he⟩

theorem prefixed_inj {a x y : String} (h : a ++ x = a ++ y) : x = y := by
  rw [← String.toList_inj, String.toList_append, String.toList_append] at h
  exact String.toList_inj.1 (List.append_cancel_left h)

theorem suffixed_inj {b x y : String} (h : x ++ b = y ++ b) : x = y := by
  rw [← String.toList_inj, String.toList_append, String.toList_append] at h
  exact String.toList_inj.1 (List.append_cancel_right h)

theorem enclosed_inj {a b x y : String} (h : a ++ x ++ b = a ++ y ++ b) : x = y :=
  prefixed_inj (suffixed_inj h)

theorem intercalate_cons_flatMap {α : Type} (sep first : List α) (rest : List (List α)) :
    sep.intercalate (first :: rest) = first ++ rest.flatMap (sep ++ ·) := by
  induction rest generalizing first with
  | nil => simp [List.intercalate]
  | cons second more ih => rw [List.intercalate_cons_cons, ih, List.flatMap_cons, List.append_assoc, List.append_assoc]

theorem toList_joined (before : List String) (line : String) (after : List String) :
    (String.intercalate "\n" (before ++ line :: after)).toList =
      before.flatMap (·.toList ++ ['\n']) ++ line.toList ++ after.flatMap ('\n' :: ·.toList) := by
  induction before with
  | nil =>
    rw [List.nil_append, String.toList_intercalate, List.map_cons, intercalate_cons_flatMap, List.flatMap_map]
    rfl
  | cons first rest ih =>
    rw [List.cons_append, String.intercalate_cons_of_ne_nil (by simp), String.toList_append, String.toList_append, ih]
    simp

/-- Blocks one after the other, an empty line between two of them. -/
def spaced : List (List String) → List String
  | [] => []
  | [block] => block
  | block :: rest => block ++ "" :: spaced rest

theorem spaced_cons {block : List String} {rest : List (List String)} (h : rest ≠ []) :
    spaced (block :: rest) = block ++ "" :: spaced rest := by
  cases rest with
  | nil => exact absurd rfl h
  | cons => rfl

theorem spaced_ne_nil {blocks : List (List String)} (hn : blocks ≠ [])
    (h : ∀ block ∈ blocks, block ≠ []) : spaced blocks ≠ [] := by
  cases blocks with
  | nil => exact absurd rfl hn
  | cons block rest =>
    have hb := h block List.mem_cons_self
    cases rest with
    | nil => exact hb
    | cons => simp [spaced]

theorem intercalate_blocks {blocks : List (List String)} (h : ∀ block ∈ blocks, block ≠ []) :
    String.intercalate "\n\n" (blocks.map (String.intercalate "\n")) =
      String.intercalate "\n" (spaced blocks) := by
  induction blocks with
  | nil => rfl
  | cons block rest ih =>
    have hrest : ∀ block ∈ rest, block ≠ [] := fun b hin => h b (List.mem_cons_of_mem _ hin)
    cases rest with
    | nil => rw [List.map_singleton, String.intercalate_singleton]; rfl
    | cons second more =>
      have hs := spaced_ne_nil (List.cons_ne_nil second more) hrest
      rw [List.map_cons, String.intercalate_cons_of_ne_nil (by simp), ih hrest,
        spaced_cons (List.cons_ne_nil _ _),
        String.intercalate_append_of_ne_nil (h block List.mem_cons_self) (List.cons_ne_nil _ _),
        String.intercalate_cons_of_ne_nil hs, String.empty_append]
      simp only [String.append_assoc]
      rfl

theorem mem_spaced {blocks : List (List String)} {line : String} (h : line ∈ spaced blocks) :
    line = "" ∨ ∃ block ∈ blocks, line ∈ block := by
  induction blocks with
  | nil => simp [spaced] at h
  | cons block rest ih =>
    cases rest with
    | nil => exact .inr ⟨block, List.mem_cons_self, h⟩
    | cons second more =>
      rw [spaced_cons (List.cons_ne_nil _ _), List.mem_append, List.mem_cons] at h
      rcases h with hb | he | hin
      · exact .inr ⟨block, List.mem_cons_self, hb⟩
      · exact .inl he
      · rcases ih hin with he | ⟨b, hb, hl⟩
        · exact .inl he
        · exact .inr ⟨b, List.mem_cons_of_mem _ hb, hl⟩

theorem mem_spaced_of_mem {blocks : List (List String)} {block : List String} {line : String} (hb : block ∈ blocks)
    (hl : line ∈ block) : line ∈ spaced blocks := by
  induction blocks with
  | nil => exact absurd hb List.not_mem_nil
  | cons first rest ih =>
    cases rest with
    | nil => exact List.mem_singleton.1 hb ▸ hl
    | cons second more =>
      rw [spaced_cons (List.cons_ne_nil _ _)]
      rcases List.mem_cons.1 hb with rfl | hb
      · exact List.mem_append_left _ hl
      · exact List.mem_append_right _ (List.mem_cons_of_mem _ (ih hb))

/-- A block and what follows behind an empty line; an empty block leaves no trace. -/
def followed (block rest : List String) : List String :=
  if block.isEmpty then rest else block ++ "" :: rest

theorem followed_of_ne_nil {block : List String} (h : block ≠ []) (rest : List String) :
    followed block rest = block ++ "" :: rest :=
  if_neg (by simpa using h)

theorem spaced_filter {blocks : List (List String)} {last : List String} (h : last ≠ []) :
    spaced ((blocks ++ [last]).filter (!·.isEmpty)) = blocks.foldr followed last := by
  have hlast : [last].filter (!·.isEmpty) = [last] := by simpa using h
  induction blocks with
  | nil => rw [List.nil_append, hlast]; rfl
  | cons block rest ih =>
    rw [List.cons_append, List.foldr_cons, ← ih]
    by_cases hb : block = []
    · subst hb
      rfl
    · rw [followed_of_ne_nil hb, List.filter_cons_of_pos (by simpa using hb)]
      refine spaced_cons fun hn => ?_
      rw [List.filter_append, hlast] at hn
      exact List.append_ne_nil_of_right_ne_nil _ (List.cons_ne_nil _ _) hn

theorem followed_inj {a b r s : List String} (hl : a.length = b.length)
    (h : followed a r = followed b s) : a = b ∧ r = s := by
  by_cases ha : a = []
  · have hb : b = [] := List.eq_nil_of_length_eq_zero (by rw [← hl, ha]; rfl)
    subst ha hb
    exact ⟨rfl, h⟩
  · have hb : b ≠ [] := fun hb => ha (List.eq_nil_of_length_eq_zero (by rw [hl, hb]; rfl))
    rw [followed_of_ne_nil ha, followed_of_ne_nil hb] at h
    obtain ⟨he, hr⟩ := List.append_inj h hl
    exact ⟨he, (List.cons.inj hr).2⟩

/-- A block that may be missing stands before one that may not; what follows that one tells how many of
the two there are. -/
theorem followed_optional_inj {a b p q r s : List String} (ha : "" ∉ a) (hb : "" ∉ b) (hp : "" ∉ p)
    (hq : "" ∉ q) (hpn : p ≠ []) (hqn : q ≠ []) (hr : r.head? ≠ q.head?) (hs : s.head? ≠ p.head?)
    (h : followed a (followed p r) = followed b (followed q s)) : a = b ∧ p = q ∧ r = s := by
  rw [followed_of_ne_nil hpn, followed_of_ne_nil hqn] at h
  by_cases hae : a = [] <;> by_cases hbe : b = []
  · subst hae hbe
    exact ⟨rfl, first_mark_inj hp hq h⟩
  · rw [hae, followed_of_ne_nil hbe] at h
    obtain ⟨-, he⟩ := first_mark_inj hp hb h
    rw [he, List.head?_append_of_ne_nil _ hqn] at hr
    exact absurd rfl hr
  · rw [hbe, followed_of_ne_nil hae] at h
    obtain ⟨-, he⟩ := first_mark_inj ha hq h
    rw [← he, List.head?_append_of_ne_nil _ hpn] at hs
    exact absurd rfl hs
  · rw [followed_of_ne_nil hae, followed_of_ne_nil hbe] at h
    obtain ⟨he, h⟩ := first_mark_inj ha hb h
    exact ⟨he, first_mark_inj hp hq h⟩

theorem stretches_eq_splitOnP (p : Char → Bool) (text : List Char) :
    stretches p text = text.splitOnP p := by
  induction text with
  | nil => rfl
  | cons d rest ih =>
    rw [stretches, ih, List.splitOnP_cons_eq_if_modifyHead]
    split
    · rfl
    · cases hs : rest.splitOnP p with
      | nil => exact absurd hs (List.splitOnP_ne_nil p rest)
      | cons first more => rfl

theorem intercalate_stretches (c : Char) (text : List Char) :
    [c].intercalate (stretches (· = c) text) = text := by
  rw [stretches_eq_splitOnP]
  exact List.intercalate_splitOn c

theorem stretches_intercalate (c : Char) {parts : List (List Char)} (h : ∀ part ∈ parts, c ∉ part)
    (hn : parts ≠ []) : stretches (· = c) ([c].intercalate parts) = parts := by
  rw [stretches_eq_splitOnP]
  exact List.splitOn_intercalate c h hn

theorem stretches_ne_nil (p : Char → Bool) (text : List Char) : stretches p text ≠ [] := by
  rw [stretches_eq_splitOnP]
  exact List.splitOnP_ne_nil p text

theorem stretches_inj {c : Char} {a b : List Char}
    (h : stretches (· = c) a = stretches (· = c) b) : a = b := by
  rw [← intercalate_stretches c a, h, intercalate_stretches]

theorem not_separates_of_mem {p : Char → Bool} {text stretch : List Char}
    (h : stretch ∈ stretches p text) {d : Char} (hd : d ∈ stretch) : p d = false := by
  induction text generalizing stretch with
  | nil =>
    rw [List.mem_singleton.1 h] at hd
    exact absurd hd List.not_mem_nil
  | cons c rest ih =>
    rw [stretches] at h
    split at h
    · rcases List.mem_cons.1 h with he | hin
      · rw [he] at hd
        exact absurd hd List.not_mem_nil
      · exact ih hin hd
    · next hc =>
      cases hs : stretches p rest with
      | nil => exact absurd hs (stretches_ne_nil p rest)
      | cons first more =>
        rw [hs] at h ih
        rcases List.mem_cons.1 h with he | hin
        · rw [he] at hd
          rcases List.mem_cons.1 hd with rfl | hd
          · simpa using hc
          · exact ih List.mem_cons_self hd
        · exact ih (List.mem_cons_of_mem _ hin) hd

theorem stretches_append {p : Char → Bool} {c : Char} (hc : p c) (front back : List Char) :
    stretches p (front ++ c :: back) = stretches p front ++ stretches p back := by
  simp only [stretches_eq_splitOnP]
  exact List.splitOnP_append_cons front back hc

theorem head?_stretches {p : Char → Bool} {c : Char} (rest : List Char) (hc : p c = false) :
    ∃ first more, stretches p (c :: rest) = (c :: first) :: more := by
  rw [stretches, if_neg (by simp [hc])]
  cases stretches p rest with
  | nil => exact ⟨[], [], rfl⟩
  | cons first more => exact ⟨first, more, rfl⟩

end CaveMap.Text
