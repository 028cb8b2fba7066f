import CaveMap.Proofs.Yaml.Quoted

namespace CaveMap.Yaml

open Written

def IsFold (c : Char) : Prop := c = ' ' ∨ c = '\n'

def IsVisible (c : Char) : Prop := 0x20 < c.toNat ∧ c.toNat ≤ 0x7E

section Characters

variable {indent column : Nat} {split afterSpace afterBreak first fresh : Bool} {c : Char} {text : List Char}

theorem isFold_of_mem_spaces (h : c ∈ spaces indent) : IsFold c := .inl (List.eq_of_mem_replicate h)

theorem isFold_of_mem_newLine (h : c ∈ newLine indent) : IsFold c := by
  rcases List.mem_cons.1 h with rfl | h
  · exact .inr rfl
  · exact isFold_of_mem_spaces h

theorem split_of_folds {rest : List Char} (h : folds split afterSpace column rest) : split := by
  simp only [folds, Bool.and_eq_true] at h
  exact h.1.1.1

theorem mem_plainChars (h : c ∈ plainChars indent split afterSpace column text) :
    c ∈ text ∨ (split ∧ IsFold c) := by
  induction text generalizing afterSpace column with
  | nil => cases h
  | cons d text ih =>
    rw [plainChars] at h
    split at h
    · next hfold =>
      rw [Bool.and_eq_true] at hfold
      rcases List.mem_append.1 h with h | h
      · exact .inr ⟨split_of_folds hfold.2, isFold_of_mem_newLine h⟩
      · exact (ih h).imp_left (List.mem_cons_of_mem d)
    · rcases List.mem_cons.1 h with rfl | h
      · exact .inl List.mem_cons_self
      · exact (ih h).imp_left (List.mem_cons_of_mem d)

theorem mem_singleChars (h : c ∈ singleChars indent split afterSpace afterBreak column text) :
    c ∈ text ∨ c = '\'' ∨ ((split ∨ text.any isBreak) ∧ IsFold c) := by
  induction text generalizing afterSpace afterBreak column with
  | nil => cases h
  | cons d text ih =>
    have hrest {afterSpace afterBreak : Bool} {column : Nat}
        (h : c ∈ singleChars indent split afterSpace afterBreak column text) :
        c ∈ d :: text ∨ c = '\'' ∨ ((split ∨ (d :: text).any isBreak) ∧ IsFold c) := by
      rcases ih h with h | h | ⟨h, hf⟩
      · exact .inl (List.mem_cons_of_mem d h)
      · exact .inr (.inl h)
      · exact .inr (.inr ⟨h.imp_right fun h => by rw [List.any_cons, h, Bool.or_true], hf⟩)
    rw [singleChars] at h
    split at h
    · next hk =>
      have hany : (d :: text).any isBreak := by rw [List.any_cons, hk, Bool.true_or]
      rcases List.mem_append.1 h with h | h
      · rcases List.mem_append.1 h with h | h
        · split at h
          · exact .inr (.inr ⟨.inr hany, .inr (List.mem_singleton.1 h)⟩)
          · cases h
        · rcases List.mem_cons.1 h with rfl | h
          · exact .inl List.mem_cons_self
          · split at h
            · cases h
            · exact .inr (.inr ⟨.inr hany, isFold_of_mem_spaces h⟩)
      · exact hrest h
    · split at h
      · rcases List.mem_cons.1 h with rfl | h
        · exact .inr (.inl rfl)
        · rcases List.mem_cons.1 h with rfl | h
          · exact .inr (.inl rfl)
          · exact hrest h
      · split at h
        · next hfold =>
          rw [Bool.and_eq_true] at hfold
          rcases List.mem_append.1 h with h | h
          · exact .inr (.inr ⟨.inl (split_of_folds hfold.2), isFold_of_mem_newLine h⟩)
          · exact hrest h
        · rcases List.mem_cons.1 h with rfl | h
          · exact .inl List.mem_cons_self
          · exact hrest h

theorem isVisible_upperHex {width n : Nat} (h : c ∈ upperHex width n) : IsVisible c := by
  induction width generalizing n with
  | zero => cases h
  | succ width ih =>
    rw [upperHex_succ] at h
    rcases List.mem_append.1 h with h | h
    · exact ih h
    · have hall : ∀ d < 16, 0x20 < (Text.hexDigit d).toUpper.toNat ∧ (Text.hexDigit d).toUpper.toNat ≤ 0x7E := by
        decide
      rw [List.mem_singleton.1 h]
      exact hall _ (Nat.mod_lt n (by decide))

theorem isVisible_escaped {d : Char} (h : c ∈ escaped d) : IsVisible c := by
  unfold escaped at h
  rcases List.mem_cons.1 h with rfl | h
  · exact ⟨by decide, by decide⟩
  · split at h
    case h_16 =>
      split at h
      · rcases List.mem_cons.1 h with rfl | h
        · exact ⟨by decide, by decide⟩
        · exact isVisible_upperHex h
      · split at h
        · rcases List.mem_cons.1 h with rfl | h
          · exact ⟨by decide, by decide⟩
          · exact isVisible_upperHex h
        · rcases List.mem_cons.1 h with rfl | h
          · exact ⟨by decide, by decide⟩
          · exact isVisible_upperHex h
    all_goals
      rw [List.mem_singleton.1 h]
      exact ⟨by decide, by decide⟩

theorem mem_continued {rest : List Char} (h : c ∈ continued indent rest) : IsVisible c ∨ IsFold c := by
  have hback : IsVisible '\\' := ⟨by decide, by decide⟩
  unfold continued at h
  rcases List.mem_cons.1 h with rfl | h
  · exact .inl hback
  · rcases List.mem_append.1 h with h | h
    · exact .inr (isFold_of_mem_newLine h)
    · split at h
      · rw [List.mem_singleton.1 h]
        exact .inl hback
      · cases h

theorem mem_doubleChars (h : c ∈ doubleChars indent split first fresh column text) :
    (c ∈ text ∧ needsEscape c = false) ∨ IsVisible c ∨ (split ∧ IsFold c) := by
  induction text generalizing first fresh column with
  | nil => cases h
  | cons d text ih =>
    have hrest {first fresh : Bool} {column : Nat} (h : c ∈ doubleChars indent split first fresh column text) :
        (c ∈ d :: text ∧ needsEscape c = false) ∨ IsVisible c ∨ (split ∧ IsFold c) :=
      (ih h).imp_left fun h => ⟨List.mem_cons_of_mem d h.1, h.2⟩
    have hcontinued {rest : List Char} (hs : split) (h : c ∈ continued indent rest) :
        (c ∈ d :: text ∧ needsEscape c = false) ∨ IsVisible c ∨ (split ∧ IsFold c) :=
      .inr ((mem_continued h).imp_right fun hf => ⟨hs, hf⟩)
    rw [doubleChars] at h
    dsimp only at h
    split at h
    · split at h
      · next hbreak =>
        simp only [Bool.and_eq_true] at hbreak
        rcases List.mem_append.1 h with h | h
        · rcases List.mem_append.1 h with h | h
          · exact .inr (.inl (isVisible_escaped h))
          · exact hcontinued hbreak.1.1.1 h
        · exact hrest h
      · rcases List.mem_append.1 h with h | h
        · exact .inr (.inl (isVisible_escaped h))
        · exact hrest h
    · next hn =>
      have hself : needsEscape d = false := by simpa using hn
      split at h
      · next hbreak =>
        simp only [Bool.and_eq_true] at hbreak
        rcases List.mem_append.1 h with h | h
        · exact hcontinued hbreak.1.1.1.1 h
        · rcases List.mem_cons.1 h with rfl | h
          · exact .inl ⟨List.mem_cons_self, hself⟩
          · exact hrest h
      · rcases List.mem_cons.1 h with rfl | h
        · exact .inl ⟨List.mem_cons_self, hself⟩
        · exact hrest h

theorem not_break_of_mem_chars {form : Form} (ht : isMultiline text = false)
    (h : c ∈ chars form indent column false text) : isBreak c = false := by
  have hmem (hc : c ∈ text) : isBreak c = false := by simpa using List.any_eq_false.1 ht c hc
  have hvisible (hc : IsVisible c) : isBreak c = false := by
    refine not_break_of hc ?_ ?_ <;> (unfold IsVisible; decide)
  cases form with
  | plain =>
    rcases mem_plainChars h with h | ⟨h, -⟩
    · exact hmem h
    · cases h
  | single =>
    rcases List.mem_cons.1 h with rfl | h
    · decide
    · rcases List.mem_append.1 h with h | h
      · rcases mem_singleChars h with h | rfl | ⟨h | h, -⟩
        · exact hmem h
        · decide
        · cases h
        · rw [isMultiline] at ht
          rw [ht] at h
          cases h
      · rw [List.mem_singleton.1 h]
        decide
  | double =>
    rcases List.mem_cons.1 h with rfl | h
    · decide
    · rcases List.mem_append.1 h with h | h
      · rcases mem_doubleChars h with ⟨h, -⟩ | h | ⟨h, -⟩
        · exact hmem h
        · exact hvisible h
        · cases h
      · rw [List.mem_singleton.1 h]
        decide

/-- A character that a document can hold, and that is read as it is. -/
def IsClean (c : Char) : Prop := isAllowed c ∧ c ≠ '\r'

theorem isClean_of_range (h : (0x20 ≤ c.toNat ∧ c.toNat ≤ 0x7E) ∨ (0xA0 ≤ c.toNat ∧ c.toNat ≤ 0xFFFD) ∨
    0x10000 ≤ c.toNat ∨ c.toNat = 0x85) : IsClean c := by
  refine ⟨?_, ?_⟩
  · simp only [isAllowed, Bool.or_eq_true, Bool.and_eq_true, decide_eq_true_eq]
    omega
  · rintro rfl
    have hcode : '\r'.toNat = 13 := rfl
    omega

theorem IsVisible.isClean (h : IsVisible c) : IsClean c := isClean_of_range (.inl ⟨Nat.le_of_lt h.1, h.2⟩)

theorem IsFold.isClean (h : IsFold c) : IsClean c := by
  rcases h with rfl | rfl
  · exact ⟨by decide, by decide⟩
  · exact ⟨by decide, by decide⟩

theorem isClean_of_isOrdinary (h : isOrdinary c) : IsClean c := by
  simp only [isOrdinary, Bool.and_eq_true, Bool.or_eq_true, decide_eq_true_eq] at h
  obtain ⟨-, (((h | h) | h) | h) | h⟩ := h
  · have hc : c = '\n' := Char.ext (UInt32.toNat_inj.1 h)
    rw [hc]
    exact IsFold.isClean (.inr rfl)
  · exact isClean_of_range (.inl h)
  · exact isClean_of_range (.inr (.inr (.inr h)))
  · exact isClean_of_range (.inr (.inl h))
  · exact isClean_of_range (.inr (.inr (.inl h.1)))

theorem isClean_of_not_needsEscape (h : needsEscape c = false) : IsClean c := by
  simp only [needsEscape, Bool.or_eq_false_iff, Bool.not_eq_false', Bool.or_eq_true, Bool.and_eq_true,
    decide_eq_true_eq] at h
  rcases h.2 with h | h
  · exact isClean_of_range (.inl h)
  · exact isClean_of_range (.inr (.inl h))

theorem isClean_of_mem_chars {own : Bool} (h : c ∈ chars (formOf own text) indent column split text) :
    IsClean c := by
  have hquote : IsClean '\'' := ⟨by decide, by decide⟩
  have hdouble : IsClean '"' := ⟨by decide, by decide⟩
  unfold formOf at h
  split at h
  · next hown =>
    rw [Bool.and_eq_true] at hown
    have hall := hown.2
    simp only [allowsPlain, Bool.and_eq_true] at hall
    rcases mem_plainChars h with h | ⟨-, h⟩
    · exact isClean_of_isOrdinary (List.all_eq_true.1 hall.1.1.1 c h)
    · exact h.isClean
  · split at h
    · next hall =>
      simp only [allowsSingle, Bool.and_eq_true] at hall
      rcases List.mem_cons.1 h with rfl | h
      · exact hquote
      · rcases List.mem_append.1 h with h | h
        · rcases mem_singleChars h with h | rfl | ⟨-, h⟩
          · exact isClean_of_isOrdinary (List.all_eq_true.1 hall.1.1 c h)
          · exact hquote
          · exact h.isClean
        · rw [List.mem_singleton.1 h]
          exact hquote
    · rcases List.mem_cons.1 h with rfl | h
      · exact hdouble
      · rcases List.mem_append.1 h with h | h
        · rcases mem_doubleChars h with ⟨-, h⟩ | h | ⟨-, h⟩
          · exact isClean_of_not_needsEscape h
          · exact h.isClean
          · exact h.isClean
        · rw [List.mem_singleton.1 h]
          exact hdouble

end Characters

end CaveMap.Yaml
