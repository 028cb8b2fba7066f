import CaveMap.Proofs.Yaml.Quoted
import Mathlib.Data.List.Basic

namespace CaveMap.Yaml

open Implicit Lexeme Written

theorem columnAfter_append (column : Nat) (front back : List Char) :
    columnAfter column (front ++ back) = columnAfter (columnAfter column front) back := by
  induction front generalizing column with
  | nil => rfl
  | cons c front ih =>
    rw [List.cons_append, columnAfter, columnAfter]
    split
    · exact ih 0
    · exact ih _

theorem le_columnAfter {text : List Char} (h : ∀ c ∈ text, isBreak c = false) (column : Nat) :
    column ≤ columnAfter column text := by
  induction text generalizing column with
  | nil => exact Nat.le_refl _
  | cons c text ih =>
    have hrest := ih (fun d hd => h d (List.mem_cons_of_mem c hd)) (if c = byteOrderMark then column else column + 1)
    rw [columnAfter, if_neg (by simp [h c List.mem_cons_self])]
    split at hrest
    · next hc => rwa [if_pos hc]
    · next hc =>
      rw [if_neg hc]
      omega

theorem columnAfter_spaces (column n : Nat) : columnAfter column (spaces n) = column + n := by
  induction n generalizing column with
  | zero => rfl
  | succ n ih =>
    change columnAfter column (' ' :: spaces n) = _
    rw [columnAfter, if_neg (by decide), if_neg (by decide), ih]
    omega

theorem columnAfter_newLine (column n : Nat) : columnAfter column (newLine n) = n := by
  rw [newLine, columnAfter, if_pos (by decide), columnAfter_spaces, Nat.zero_add]

theorem isSeparated_of_isGap {c : Char} (h : isGap c) : isSeparated c := by
  simp [isSeparated, h]

theorem hasInnerIndicator_mono {afterGap : Bool} {text : List Char}
    (h : hasInnerIndicator afterGap text = false) : hasInnerIndicator false text = false := by
  cases text with
  | nil => rfl
  | cons c text =>
    simp only [hasInnerIndicator, Bool.or_eq_false_iff] at h ⊢
    exact ⟨⟨h.1.1, by simp⟩, h.2⟩

theorem hasInnerIndicator_append {afterGap : Bool} {front back : List Char} {c : Char}
    (h : hasInnerIndicator afterGap (front ++ c :: back) = false) :
    hasInnerIndicator (isSeparated c) back = false := by
  induction front generalizing afterGap with
  | nil =>
    rw [List.nil_append, hasInnerIndicator, Bool.or_eq_false_iff] at h
    exact h.2
  | cons d front ih =>
    rw [List.cons_append, hasInnerIndicator, Bool.or_eq_false_iff] at h
    exact ih h.2

theorem plainRun_word {afterGap : Bool} {word more behind : List Char} (hw : ∀ c ∈ word, isGap c = false)
    (hi : hasInnerIndicator afterGap (word ++ more) = false) (hm : gapFirst more)
    (hb : plainRun false behind = []) : plainRun false (word ++ behind) = word := by
  induction word generalizing afterGap with
  | nil => exact hb
  | cons c word ih =>
    have hc : isGap c = false := hw c List.mem_cons_self
    rw [List.cons_append, hasInnerIndicator, Bool.or_eq_false_iff, Bool.or_eq_false_iff] at hi
    have hcolon : (c = ':' && (endsWord (word ++ behind).head? || (false && (word ++ behind).head?.any isFlowMark))) =
        false := by
      cases word with
      | nil =>
        rw [List.nil_append, hm, Bool.and_true] at hi
        rw [hi.1.1, Bool.false_and]
      | cons d word =>
        have hd : isGap d = false := hw d (by simp)
        simp [endsWord, hd]
    rw [List.cons_append, plainRun, if_neg (by simp [hc]), if_neg (by simpa using hcolon)]
    simp only [Bool.false_and, Bool.false_eq_true, if_false]
    rw [ih (fun d hd => hw d (List.mem_cons_of_mem c hd)) hi.2]

/-- What may come behind blanks and line ends: something other than more of them or a comment, or nothing. -/
structure Solid (text : List Char) : Prop where
  head : text.head?.all fun c => !isGap c
  comment : text.head? ≠ some '#'
  mark : text.head? ≠ some byteOrderMark
  separator : atSeparator text = false

theorem solid_cons {c : Char} {text : List Char} (hg : isGap c = false) (hc : c ≠ '#') (hm : c ≠ byteOrderMark)
    (hs : atSeparator (c :: text) = false) : Solid (c :: text) :=
  ⟨by simp [hg], by simpa using hc, by simpa using hm, hs⟩

theorem solid_nil : Solid [] := ⟨rfl, by simp, by simp, rfl⟩

theorem dropWhile_space_of_head {text : List Char} (h : text.head?.all fun c => c ≠ ' ') :
    text.dropWhile (· = ' ') = text := by
  cases text with
  | nil => rfl
  | cons c text => exact List.dropWhile_cons_of_neg (by simpa using h)

theorem takeWhile_spaces {text : List Char} (n : Nat) (h : text.head?.all fun c => c ≠ ' ') :
    (spaces n ++ text).takeWhile (· = ' ') = spaces n ∧ (spaces n ++ text).dropWhile (· = ' ') = text := by
  have hself : ∀ c ∈ spaces n, decide (c = ' ') := fun c hc => by simpa using List.eq_of_mem_replicate hc
  refine ⟨?_, ?_⟩
  · rw [List.takeWhile_append_of_pos hself]
    cases text with
    | nil => exact List.append_nil _
    | cons c text => rw [List.takeWhile_cons_of_neg (by simpa using h), List.append_nil]
  · rw [List.dropWhile_append_of_pos hself, dropWhile_space_of_head h]

theorem Solid.not_space {text : List Char} (h : Solid text) : text.head?.all fun c => c ≠ ' ' := by
  cases text with
  | nil => rfl
  | cons c text =>
    have hc : isGap c = false := by simpa using h.head
    have hs : c ≠ ' ' := by
      rintro rfl
      exact absurd hc (by decide)
    simpa using hs

theorem plainBreaks_spaces {text : List Char} (n : Nat) (h : text.head?.all fun c => !isGap c) :
    plainBreaks (spaces n ++ text) = (some [], text) := by
  induction n with
  | zero =>
    cases text with
    | nil => rfl
    | cons c text =>
      have hc : isGap c = false := by simpa using h
      have hk : c ≠ ' ' ∧ isBreak c = false := by
        simp only [isGap, Bool.or_eq_false_iff, decide_eq_false_iff_not] at hc
        exact ⟨hc.1.1, hc.2⟩
      change plainBreaks (c :: text) = _
      rw [plainBreaks, if_neg hk.1, if_neg (by simp [hk.2])]
  | succ n ih =>
    change plainBreaks (' ' :: (spaces n ++ text)) = _
    rw [plainBreaks, if_pos rfl, ih]

theorem atSeparator_indented {text : List Char} (n : Nat) (h : Solid text) :
    atSeparator (spaces n ++ text) = false := by
  cases n with
  | zero => exact h.separator
  | succ n => exact atSeparator_cons (by decide) (by decide)

theorem plainGap_newLine {text : List Char} (n : Nat) (h : text.head?.all fun c => !isGap c)
    (hs : atSeparator (spaces n ++ text) = false) : plainGap (newLine n ++ text) = ([' '], true, text) := by
  have hfolded : folded (breakValue '\n') [] = [' '] := rfl
  have hdrop : (newLine n ++ text).dropWhile (· = ' ') = '\n' :: (spaces n ++ text) :=
    List.dropWhile_cons_of_neg (by decide)
  have hbreak : isBreak '\n' = true := by decide
  unfold plainGap
  simp only [hdrop, hbreak, if_true, hs, plainBreaks_spaces n h, hfolded,
    Bool.false_eq_true, if_false]

theorem plainGap_spaces {text : List Char} {c : Char} (n : Nat) (hs : c ≠ ' ') (hk : isBreak c = false) :
    plainGap (spaces n ++ c :: text) = (spaces n, false, c :: text) := by
  obtain ⟨htake, hdrop⟩ : (spaces n ++ c :: text).takeWhile (· = ' ') = spaces n ∧
      (spaces n ++ c :: text).dropWhile (· = ' ') = c :: text := takeWhile_spaces n (by simpa using hs)
  unfold plainGap
  rw [htake, hdrop]
  simp [hk]

/-- How the text behind a plain scalar ends it. -/
structure Ends (tail : List Char) (indent : Int) (spansLines : Bool) (rest : List Char) : Prop where
  run : plainRun false tail = []
  suffix : rest.length ≤ tail.length
  gap : ∃ gap, plainGap tail = (gap, spansLines, rest) ∧ (gap = [] ∨
    ∀ column, (columnAfter column (tail.take (tail.length - rest.length)) : Int) < indent)

theorem ends_colon {text : List Char} (indent : Int) (h : endsWord text.head?) :
    Ends (':' :: text) indent false (':' :: text) := by
  refine ⟨by simp [plainRun, isGap, isBreak, h], Nat.le_refl _, [], ?_, .inl rfl⟩
  have hgap : plainGap (spaces 0 ++ ':' :: text) = (spaces 0, false, ':' :: text) :=
    plainGap_spaces 0 (by decide) (by decide)
  exact hgap

theorem ends_newLine {text : List Char} {n : Nat} {indent : Int} (h : Solid text) (hn : (n : Int) < indent) :
    Ends (newLine n ++ text) indent true text := by
  refine ⟨rfl, by simp, [' '], plainGap_newLine n h.head (atSeparator_indented n h), .inr fun column => ?_⟩
  rw [List.length_append, Nat.add_sub_cancel, List.take_left, columnAfter_newLine]
  exact hn

theorem columnAfter_front {run tail rest : List Char} (h : rest.length ≤ tail.length) (column : Nat) :
    columnAfter column ((run ++ tail).take ((run ++ tail).length - rest.length)) =
      columnAfter (columnAfter column run) (tail.take (tail.length - rest.length)) := by
  have hlength : (run ++ tail).length - rest.length = run.length + (tail.length - rest.length) := by
    rw [List.length_append]
    omega
  rw [hlength, List.take_length_add_append, columnAfter_append]

theorem plainPieces_last {run tail rest : List Char} {indent : Int} {spansLines : Bool}
    (hr : plainRun false (run ++ tail) = run) (h : Ends tail indent spansLines rest) (fuel column : Nat) :
    plainPieces false indent (fuel + 1) column (run ++ tail) = (run, spansLines, rest) := by
  obtain ⟨gap, hgap, hstop⟩ := h.gap
  rw [plainPieces, hr, List.drop_left]
  simp only [hgap, columnAfter_front h.suffix]
  rw [if_pos]
  rcases hstop with rfl | hcolumn
  · simp
  · have hindent := hcolumn (columnAfter column run)
    simp [hindent]

theorem plainPieces_more {run behind gap rest more left : List Char} {indent : Int} {spansLines spansMore : Bool}
    (hr : plainRun false (run ++ behind) = run) (hg : plainGap behind = (gap, spansLines, rest)) (hne : gap ≠ [])
    (hh : rest.head? ≠ some '#') (hn : plainRun false rest ≠ []) {fuel column : Nat}
    (hc : indent ≤ columnAfter column ((run ++ behind).take ((run ++ behind).length - rest.length)))
    (hm : plainPieces false indent fuel
      (columnAfter column ((run ++ behind).take ((run ++ behind).length - rest.length))) rest =
        (more, spansMore, left)) :
    plainPieces false indent (fuel + 1) column (run ++ behind) = (run ++ gap ++ more, spansMore, left) := by
  rw [plainPieces, hr, List.drop_left]
  simp only [hg]
  rw [if_neg, hm]
  simpa [hne, hh, hn] using hc

section Writing

variable {indent column : Nat} {split afterSpace : Bool} {c : Char} {text word : List Char}

theorem plainChars_char (hf : c = ' ' → folds split afterSpace column text = false) :
    plainChars indent split afterSpace column (c :: text) =
      c :: plainChars indent split (c = ' ') (column + 1) text := by
  rw [plainChars, if_neg]
  simpa using hf

theorem plainChars_fold (hf : folds split afterSpace column text) :
    plainChars indent split afterSpace column (' ' :: text) =
      newLine indent ++ plainChars indent split false indent text := by
  rw [plainChars, if_pos (by simp [hf])]

theorem plainChars_word (indent column : Nat) (split afterSpace : Bool) (hw : ∀ c ∈ word, c ≠ ' ')
    (text : List Char) : ∃ column' afterSpace',
    plainChars indent split afterSpace column (word ++ text) =
      word ++ plainChars indent split afterSpace' column' text := by
  induction word generalizing afterSpace column with
  | nil => exact ⟨column, afterSpace, rfl⟩
  | cons c word ih =>
    have hc : c ≠ ' ' := hw c List.mem_cons_self
    obtain ⟨column', afterSpace', he⟩ := ih (column + 1) (c = ' ') fun d hd => hw d (List.mem_cons_of_mem c hd)
    refine ⟨column', afterSpace', ?_⟩
    rw [List.cons_append, plainChars_char fun h => absurd h hc, he]
    rfl

theorem plainChars_spaces (indent column : Nat) (split : Bool) (n : Nat) (text : List Char) :
    ∃ column' afterSpace',
    plainChars indent split true column (spaces n ++ text) =
      spaces n ++ plainChars indent split afterSpace' column' text := by
  induction n generalizing column with
  | zero => exact ⟨column, true, rfl⟩
  | succ n ih =>
    obtain ⟨column', afterSpace', he⟩ := ih (column + 1)
    refine ⟨column', afterSpace', ?_⟩
    change plainChars indent split true column (' ' :: (spaces n ++ text)) = _
    rw [plainChars_char fun _ => by simp [folds]]
    simp only [decide_true, he]
    rfl

/-- A text that can be written plainly. -/
structure Plainly (text : List Char) : Prop where
  chars : ∀ c ∈ text, c ≠ '\t' ∧ isBreak c = false
  inner : hasInnerIndicator false text = false
  first : text.head?.all fun c => c ≠ ' '
  last : text.getLast?.all fun c => c ≠ ' '

theorem spaces_succ (n : Nat) : spaces (n + 1) = spaces n ++ [' '] := List.replicate_succ'

theorem takeWhile_space (text : List Char) :
    text.takeWhile (· = ' ') = spaces (text.takeWhile (· = ' ')).length :=
  List.eq_replicate_iff.2 ⟨rfl, fun _ hc => by simpa using List.mem_takeWhile_imp hc⟩

namespace Plainly

theorem not_gap (h : Plainly text) (hc : c ∈ text) (hs : c ≠ ' ') : isGap c = false := by
  obtain ⟨ht, hk⟩ := h.chars c hc
  simp [isGap, hs, ht, hk]

theorem behind (h : Plainly text) {n : Nat} {more : List Char} (he : text = word ++ spaces (n + 1) ++ more)
    (hne : more ≠ []) (hf : more.head?.all fun c => c ≠ ' ') : Plainly more ∧ hasInnerIndicator true more = false := by
  have hsplit : text = (word ++ spaces n) ++ ' ' :: more := by
    rw [he, spaces_succ]
    simp
  have hinner : hasInnerIndicator true more = false := by
    have happend := h.inner
    rw [hsplit] at happend
    exact hasInnerIndicator_append happend
  refine ⟨⟨fun c hc => h.chars c ?_, hasInnerIndicator_mono hinner, hf, ?_⟩, hinner⟩
  · rw [he]
    exact List.mem_append_right _ hc
  · have hlast := h.last
    rwa [he, List.getLast?_append_of_ne_nil _ hne] at hlast

theorem cases (h : Plainly text) (hne : text ≠ []) : ∃ word, word ≠ [] ∧
    (∀ c ∈ word, isGap c = false) ∧ (text = word ∨ ∃ n more, text = word ++ spaces (n + 1) ++ more ∧
      more ≠ [] ∧ Plainly more ∧ hasInnerIndicator true more = false) := by
  have hsplit : text.takeWhile (· ≠ ' ') ++ text.dropWhile (· ≠ ' ') = text := List.takeWhile_append_dropWhile
  have hword : ∀ c ∈ text.takeWhile (· ≠ ' '), isGap c = false := fun c hc =>
    h.not_gap (List.takeWhile_subset _ hc) (by simpa using List.mem_takeWhile_imp hc)
  refine ⟨text.takeWhile (· ≠ ' '), ?_, hword, ?_⟩
  · cases text with
    | nil => exact absurd rfl hne
    | cons c text =>
      have hc : c ≠ ' ' := by simpa using h.first
      rw [List.takeWhile_cons_of_pos (by simpa using hc)]
      exact List.cons_ne_nil _ _
  · have hhead := List.head?_dropWhile_not (fun c : Char => decide (c ≠ ' ')) text
    cases hd : text.dropWhile (· ≠ ' ') with
    | nil =>
      rw [hd, List.append_nil] at hsplit
      exact .inl hsplit.symm
    | cons c behind =>
      rw [hd] at hhead hsplit
      have hc : c = ' ' := of_not_not (of_decide_eq_false hhead)
      subst hc
      have hgap : behind.takeWhile (· = ' ') ++ behind.dropWhile (· = ' ') = behind :=
        List.takeWhile_append_dropWhile
      rw [takeWhile_space] at hgap
      have he : text = text.takeWhile (· ≠ ' ') ++ spaces ((behind.takeWhile (· = ' ')).length + 1) ++
          behind.dropWhile (· = ' ') := by
        conv =>
          lhs
          rw [← hsplit, ← hgap]
        rw [List.append_assoc]
        rfl
      have hmore : behind.dropWhile (· = ' ') ≠ [] := by
        intro hnil
        rw [hnil, List.append_nil, spaces_succ, ← List.append_assoc] at he
        have hlast := h.last
        rw [he, List.getLast?_concat] at hlast
        simp at hlast
      have hfirst : (behind.dropWhile (· = ' ')).head?.all fun c => c ≠ ' ' := by
        have hnot := List.head?_dropWhile_not (fun c : Char => decide (c = ' ')) behind
        cases hb : behind.dropWhile (· = ' ') with
        | nil => rfl
        | cons d more =>
          rw [hb] at hnot
          have hnot' : decide (d = ' ') = false := hnot
          simpa using hnot'
      obtain ⟨hplainly, hinner⟩ := h.behind he hmore hfirst
      exact .inr ⟨_, _, he, hmore, hplainly, hinner⟩

end Plainly

theorem ne_space_of_not_gap (h : isGap c = false) : c ≠ ' ' := by
  rintro rfl
  exact absurd h (by decide)

theorem second_plainChars (h : gapFirst text = false) (indent column : Nat) (split afterSpace : Bool)
    (tail : List Char) : endsWord (plainChars indent split afterSpace column text ++ tail).head? = false := by
  cases text with
  | nil => cases h
  | cons d text =>
    have hd : isSeparated d = false := by simpa [gapFirst] using h
    have hd' : isGap d = false := by
      cases hg : isGap d with
      | false => rfl
      | true =>
        rw [isSeparated_of_isGap hg] at hd
        cases hd
    rw [plainChars_char fun he => absurd he (ne_space_of_not_gap hd')]
    exact hd'

theorem head_plainChars (h : Plainly text) (hne : text ≠ []) (indent column : Nat) (split afterSpace : Bool)
    (tail : List Char) : ∃ c more, plainChars indent split afterSpace column text ++ tail = c :: more ∧
      c ≠ ' ' ∧ isGap c = false ∧ plainRun false (c :: more) ≠ [] ∧ text.head? = some c := by
  cases text with
  | nil => exact absurd rfl hne
  | cons c text =>
    have hs : c ≠ ' ' := by simpa using h.first
    have hc : isGap c = false := h.not_gap List.mem_cons_self hs
    rw [plainChars_char fun he => absurd he hs]
    refine ⟨c, _, rfl, hs, hc, ?_, rfl⟩
    have hinner := h.inner
    rw [hasInnerIndicator, Bool.or_eq_false_iff, Bool.or_eq_false_iff] at hinner
    have hcolon : c = ':' → endsWord (plainChars indent split (c = ' ') (column + 1) text ++ tail).head? = false :=
      fun he => second_plainChars (by simpa [he] using hinner.1.1) indent (column + 1) split (c = ' ') tail
    rw [plainRun, if_neg (by simp [hc]), if_neg]
    · simp
    · simpa using hcolon

theorem plainPieces_joint {joint gap more rest left : List Char} {outer : Int} {spansLines : Bool}
    {fuel : Nat} (start : Nat) (hr : plainRun false (word ++ (joint ++ rest)) = word)
    (hg : ∃ spans, plainGap (joint ++ rest) = (gap, spans, rest)) (hne : gap ≠ [])
    (hh : rest.head? ≠ some '#') (hn : plainRun false rest ≠ [])
    (hc : outer ≤ columnAfter (columnAfter start word) joint)
    (hm : ∀ column, outer ≤ (column : Nat) → plainPieces false outer fuel column rest = (more, spansLines, left)) :
    plainPieces false outer (fuel + 1) start (word ++ (joint ++ rest)) = (word ++ gap ++ more, spansLines, left) := by
  obtain ⟨spans, hg⟩ := hg
  have hcolumn : columnAfter start ((word ++ (joint ++ rest)).take
      ((word ++ (joint ++ rest)).length - rest.length)) = columnAfter (columnAfter start word) joint := by
    rw [columnAfter_front (by simp), List.length_append, Nat.add_sub_cancel, List.take_left]
  have hc' : outer ≤ columnAfter start ((word ++ (joint ++ rest)).take
      ((word ++ (joint ++ rest)).length - rest.length)) := by
    rw [hcolumn]
    exact hc
  exact plainPieces_more hr hg hne hh hn hc' (hm _ hc')

theorem not_hash (h : hasInnerIndicator true text = false) : text.head? ≠ some '#' := by
  cases text with
  | nil => simp
  | cons c text =>
    rw [hasInnerIndicator, Bool.or_eq_false_iff, Bool.or_eq_false_iff] at h
    intro he
    rw [Option.some.inj he] at h
    exact absurd h.1.2 (by decide)

section Words

variable {fuel start : Nat} {outer : Int} {spansLines : Bool} {more tail rest : List Char}

theorem plainPieces_folded (hi : 0 < indent) (ho : outer ≤ indent) (hgaps : ∀ c ∈ word, isGap c = false)
    (hwhole : hasInnerIndicator false (word ++ ' ' :: more) = false) (hplainly : Plainly more) (hmore : more ≠ [])
    (hinner : hasInnerIndicator true more = false)
    (hrest : ∀ start' : Nat, outer ≤ start' →
      plainPieces false outer fuel start' (plainChars indent split false indent more ++ tail) =
        (more, spansLines, rest)) :
    plainPieces false outer (fuel + 1) start
      (word ++ (newLine indent ++ (plainChars indent split false indent more ++ tail))) =
        (word ++ [' '] ++ more, spansLines, rest) := by
  obtain ⟨c, out, hout, -, hcg, hrun, hhead⟩ := head_plainChars hplainly hmore indent indent split false tail
  have hbehind : plainRun false (newLine indent ++ (c :: out)) = [] := rfl
  have hgap : plainGap (newLine indent ++ (c :: out)) = ([' '], true, c :: out) :=
    plainGap_newLine indent (by simpa using hcg) (atSeparator_spaces hi (c :: out))
  rw [hout] at hrest ⊢
  exact plainPieces_joint start (plainRun_word hgaps hwhole rfl hbehind) ⟨true, hgap⟩ (by simp)
    (by rw [List.head?_cons, ← hhead]; exact not_hash hinner) hrun (by rw [columnAfter_newLine]; exact ho) hrest

theorem plainPieces_spaced (hgaps : ∀ c ∈ word, isGap c = false) {k : Nat} {afterSpace : Bool}
    (hwhole : hasInnerIndicator false (word ++ (spaces (k + 1) ++ more)) = false) (hplainly : Plainly more)
    (hmore : more ≠ []) (hinner : hasInnerIndicator true more = false)
    (hstart : outer ≤ columnAfter start word + 1)
    (hrest : ∀ start' : Nat, outer ≤ start' →
      plainPieces false outer fuel start' (plainChars indent split afterSpace column more ++ tail) =
        (more, spansLines, rest)) :
    plainPieces false outer (fuel + 1) start
      (word ++ (spaces (k + 1) ++ (plainChars indent split afterSpace column more ++ tail))) =
        (word ++ spaces (k + 1) ++ more, spansLines, rest) := by
  obtain ⟨c, out, hout, hcs, hcg, hrun, hhead⟩ := head_plainChars hplainly hmore indent column split afterSpace tail
  have hbehind : plainRun false (spaces (k + 1) ++ (c :: out)) = [] := rfl
  have hbreak : isBreak c = false := by
    simp only [isGap, Bool.or_eq_false_iff] at hcg
    exact hcg.2
  have hgap : plainGap (spaces (k + 1) ++ (c :: out)) = (spaces (k + 1), false, c :: out) :=
    plainGap_spaces (k + 1) hcs hbreak
  rw [hout] at hrest ⊢
  exact plainPieces_joint start (plainRun_word hgaps hwhole rfl hbehind) ⟨false, hgap⟩ (by simp [spaces])
    (by rw [List.head?_cons, ← hhead]; exact not_hash hinner) hrun (by rw [columnAfter_spaces]; omega) hrest

end Words

/-- What is written plainly is read back. -/
theorem plainPieces_plainChars {indent : Nat} {outer : Int} {spansLines : Bool} {tail rest : List Char}
    (hi : 0 < indent) (ho : outer ≤ indent) (h : Plainly text) (hne : text ≠ [])
    (he : Ends tail outer spansLines rest) {start : Nat} (hs : outer ≤ start + 1) {fuel : Nat}
    (hf : text.length < fuel) :
    plainPieces false outer fuel start (plainChars indent split afterSpace column text ++ tail) =
      (text, spansLines, rest) := by
  -- By length: a whole word and what joins it with the next one are read in one piece.
  induction hn : text.length using Nat.strongRecOn generalizing text afterSpace column start fuel with
  | _ n ih =>
  obtain ⟨fuel, rfl⟩ : ∃ m, fuel = m + 1 := ⟨fuel - 1, by omega⟩
  obtain ⟨word, hword, hgaps, hcases⟩ := h.cases hne
  have hwords : ∀ c ∈ word, c ≠ ' ' := fun c hc => ne_space_of_not_gap (hgaps c hc)
  rcases hcases with rfl | ⟨k, more, rfl, hmore, hplainly, hinner⟩
  · have hwhole := h.inner
    rw [← List.append_nil text] at hwhole ⊢
    obtain ⟨_, _, hchars⟩ := plainChars_word indent column split afterSpace hwords []
    rw [hchars, plainChars, List.append_nil]
    exact plainPieces_last (plainRun_word hgaps hwhole rfl he.run) he fuel start
  · have hshort : more.length < n := by
      have hpos := List.length_pos_iff.2 hword
      rw [← hn, List.length_append, List.length_append]
      omega
    have hrest (column' : Nat) (afterSpace' : Bool) (start' : Nat) (hstart : outer ≤ start') :
        plainPieces false outer fuel start' (plainChars indent split afterSpace' column' more ++ tail) =
          (more, spansLines, rest) :=
      ih _ hshort hplainly hmore (by omega) (by omega) rfl
    have hwhole := h.inner
    rw [List.append_assoc] at hwhole
    have hspaces : spaces (k + 1) ++ more = ' ' :: (spaces k ++ more) := rfl
    obtain ⟨column', afterSpace', hchars⟩ := plainChars_word indent column split afterSpace hwords
      (spaces (k + 1) ++ more)
    rw [List.append_assoc, hchars, hspaces]
    by_cases hfold : folds split afterSpace' column' (spaces k ++ more)
    · -- only a single space is folded
      have hk : k = 0 := by
        cases k with
        | zero => rfl
        | succ k =>
          rw [folds, Bool.and_eq_true] at hfold
          exact absurd hfold.2 Bool.false_ne_true
      subst hk
      rw [plainChars_fold hfold, List.append_assoc, List.append_assoc]
      exact (plainPieces_folded hi ho hgaps hwhole hplainly hmore hinner (hrest indent false)).trans (by simp [spaces])
    · obtain ⟨column'', afterSpace'', hmorechars⟩ := plainChars_spaces indent (column' + 1) split k more
      have hstart : outer ≤ columnAfter start word + 1 := by
        have hle : start ≤ columnAfter start word :=
          le_columnAfter (fun c hc => (h.chars c (by simp [hc])).2) start
        omega
      have hspaced := plainPieces_spaced hgaps hwhole hplainly hmore hinner hstart (hrest column'' afterSpace'')
      rw [plainChars_char fun _ => by simpa using hfold]
      simp only [decide_true, hmorechars]
      rw [List.append_assoc] at hspaced
      simpa [spaces, List.replicate_succ] using hspaced

end Writing

end CaveMap.Yaml
