import CaveMap.Proofs.Text.Lines
import CaveMap.Text.Blank

namespace CaveMap.Text

/-- A text that is a single word. -/
structure IsWord (text : List Char) : Prop where
  ne_nil : text ≠ []
  not_isBlank : ∀ c ∈ text, isBlank c = false

instance (text : List Char) : Decidable (IsWord text) :=
  decidable_of_iff (text ≠ [] ∧ text.all (!isBlank ·)) <| by
    rw [List.all_eq_true]
    exact ⟨fun h => ⟨h.1, fun c hc => by simpa using h.2 c hc⟩,
      fun h => ⟨h.ne_nil, fun c hc => by simpa using h.not_isBlank c hc⟩⟩

theorem isWord_of_mem_words {text word : List Char} (h : word ∈ words text) : IsWord word := by
  obtain ⟨hstretch, hne⟩ := List.mem_filter.1 h
  exact ⟨by simpa using hne, fun c hc => not_separates_of_mem hstretch hc⟩

theorem isBlank_of_isLineEnd {c : Char} (h : isLineEnd c) : isBlank c := by
  simp only [isLineEnd, lineEndRanges, isBlank, blankRanges, Ranges.contain, List.any_cons, List.any_nil,
    Bool.or_eq_true, Bool.and_eq_true, decide_eq_true_eq, Bool.false_eq_true, or_false] at h ⊢
  omega

theorem pieces_append {p : Char → Bool} {c : Char} (hc : p c) (front back : List Char) :
    pieces p (front ++ c :: back) = pieces p front ++ pieces p back := by
  simp only [pieces, stretches_append hc, List.filter_append]

theorem stretches_of_not_separates {p : Char → Bool} {text : List Char} (h : ∀ c ∈ text, p c = false) :
    stretches p text = [text] := by
  induction text with
  | nil => rfl
  | cons c rest ih =>
    rw [List.forall_mem_cons] at h
    rw [stretches, if_neg (by simp [h.1]), ih h.2]

theorem IsWord.words_eq {word : List Char} (h : IsWord word) : words word = [word] := by
  rw [words, pieces, stretches_of_not_separates h.not_isBlank]
  exact List.filter_cons_of_pos (by simpa using h.ne_nil)

theorem IsWord.words_append {word : List Char} (h : IsWord word) (rest : List Char) :
    words (word ++ ' ' :: rest) = word :: words rest := by
  rw [words, pieces_append (by decide)]
  exact congrArg (· ++ words rest) h.words_eq

def wordsOf (text : String) : List String := (words text.toList).map String.ofList

theorem wordsOf_isWord {word : String} (h : IsWord word.toList) : wordsOf word = [word] := by
  rw [wordsOf, h.words_eq, List.map_singleton, String.ofList_toList]

theorem wordsOf_append {word : String} (h : IsWord word.toList) (rest : String) :
    wordsOf (word ++ " " ++ rest) = word :: wordsOf rest := by
  have hblank : " ".toList = [' '] := rfl
  rw [wordsOf, String.toList_append, String.toList_append, hblank, List.append_assoc, List.singleton_append,
    h.words_append, List.map_cons, String.ofList_toList, wordsOf]

theorem stretches_joinReturns (text : List Char) : ∃ first more more',
    stretches isLineEnd (joinReturns text) = first :: more ∧ stretches isLineEnd text = first :: more' ∧
      more.filter (!·.isEmpty) = more'.filter (!·.isEmpty) := by
  have hreturn : isLineEnd '\r' = true := by decide
  have hfeed : isLineEnd '\n' = true := by decide
  fun_induction joinReturns text with
  | case1 => exact ⟨[], [], [], rfl, rfl, rfl⟩
  | case2 rest ih =>
    obtain ⟨first, more, more', hjoined, hplain, hmore⟩ := ih
    refine ⟨[], first :: more, [] :: first :: more', by rw [stretches, if_pos hfeed, hjoined],
      by rw [stretches, if_pos hreturn, stretches, if_pos hfeed, hplain], ?_⟩
    have hempty : [([] : List Char)].filter (!·.isEmpty) = [] := rfl
    rw [← List.singleton_append (l := first :: more'), List.filter_append, hempty, List.nil_append,
      List.filter_cons, List.filter_cons, hmore]
  | case3 c rest hpair ih =>
    obtain ⟨first, more, more', hjoined, hplain, hmore⟩ := ih
    cases hc : isLineEnd c with
    | true =>
      refine ⟨[], first :: more, first :: more', by rw [stretches, if_pos hc, hjoined],
        by rw [stretches, if_pos hc, hplain], ?_⟩
      rw [List.filter_cons, List.filter_cons, hmore]
    | false =>
      exact ⟨c :: first, more, more', by rw [stretches, if_neg (by simp [hc]), hjoined],
        by rw [stretches, if_neg (by simp [hc]), hplain], hmore⟩

/-- Of the lines of a text, those that are not empty are its stretches between any line ends. -/
theorem filled_lines (text : List Char) : (lines text).filter (!·.isEmpty) = pieces isLineEnd text := by
  obtain ⟨first, more, more', hjoined, hplain, hmore⟩ := stretches_joinReturns text
  have hcut : (lines text).filter (!·.isEmpty) = (first :: more).filter (!·.isEmpty) := by
    unfold lines
    rw [hjoined]
    dsimp only
    split
    · next hlast =>
      obtain ⟨front, hfront⟩ := List.getLast?_eq_some_iff.1 hlast
      rw [hfront, List.dropLast_concat, List.filter_append]
      exact (List.append_nil _).symm
    · rfl
  rw [hcut, pieces, hplain, List.filter_cons, List.filter_cons, hmore]

theorem filled_lines_append (front back : List Char) :
    (lines (front ++ '\n' :: back)).filter (!·.isEmpty) =
      (lines front).filter (!·.isEmpty) ++ (lines back).filter (!·.isEmpty) := by
  simp only [filled_lines]
  exact pieces_append (by decide) front back

end CaveMap.Text
