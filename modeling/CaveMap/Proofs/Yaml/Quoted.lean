import CaveMap.Yaml.Dump
import CaveMap.Yaml.Lexeme
import Mathlib.Algebra.Order.Group.Nat
import Mathlib.Data.List.TakeWhile

namespace CaveMap.Yaml

open Implicit Lexeme Written

/-- What is read behind an opening mark: a value, and what follows the closing mark. -/
def Quotes (double : Bool) (text value rest : List Char) : Prop :=
  ∀ fuel, text.length < fuel → quotedFrom double fuel text = .ok (value, rest)

theorem length_quotedBreaks {fuel : Nat} {text ends left : List Char}
    (h : quotedBreaks fuel text = .ok (ends, left)) : left.length ≤ text.length := by
  have hclass : (fun c : Char => decide (c = ' ') || decide (c = '\t')) = isBlank := rfl
  induction fuel generalizing text ends left with
  | zero =>
    cases h
    exact Nat.le_refl _
  | succ fuel ih =>
    have hdrop := List.length_dropWhile_le isBlank text
    rw [quotedBreaks] at h
    simp only [hclass] at h
    split at h
    · cases h
    · split at h
      · cases h
        exact Nat.zero_le _
      · next c rest hd =>
        rw [hd, List.length_cons] at hdrop
        split at h
        · cases hq : quotedBreaks fuel rest with
          | error => rw [hq] at h; cases h
          | ok x =>
            rw [hq] at h
            cases h
            exact Nat.le_trans (ih hq) (by omega)
        · cases h
          rwa [List.length_cons]

namespace Quotes

variable {double : Bool} {text value rest : List Char} {c : Char}

theorem of_succ (h : ∀ fuel, text.length < fuel + 1 → quotedFrom double (fuel + 1) text = .ok (value, rest)) :
    Quotes double text value rest := by
  intro fuel hf
  cases fuel with
  | zero => omega
  | succ fuel => exact h fuel hf

theorem close_single (h : rest.head? ≠ some '\'') : Quotes false ('\'' :: rest) [] rest := by
  refine of_succ fun fuel _ => ?_
  cases rest with
  | nil => rfl
  | cons c rest =>
    have hc : c ≠ '\'' := fun he => h (congrArg some he)
    simp [quotedFrom, isBreak, hc]
    rfl

theorem close_double : Quotes true ('"' :: rest) [] rest := by
  refine of_succ fun fuel _ => ?_
  simp [quotedFrom, isBreak]
  rfl

theorem quote (h : Quotes false text value rest) : Quotes false ('\'' :: '\'' :: text) ('\'' :: value) rest := by
  refine of_succ fun fuel hf => ?_
  have hrest := h fuel (by simp at hf; omega)
  simp [quotedFrom, isBreak, hrest, bind, Except.bind]
  rfl

theorem char (h : Quotes double text value rest) (hb : isBlank c = false) (hk : isBreak c = false)
    (hm : c ≠ if double then '"' else '\'') (he : double → c ≠ '\\') :
    Quotes double (c :: text) (c :: value) rest := by
  refine of_succ fun fuel hf => ?_
  have hrest := h fuel (by simp at hf; omega)
  obtain ⟨hspace, htab⟩ : c ≠ ' ' ∧ c ≠ '\t' := by simpa [isBlank] using hb
  cases double with
  | false =>
    have hquote : c ≠ '\'' := hm
    simp [quotedFrom, hk, hquote, hspace, htab, hrest, bind, Except.bind]
    rfl
  | true =>
    have hquote : c ≠ '"' := hm
    have hescape : c ≠ '\\' := he rfl
    simp [quotedFrom, hk, hquote, hescape, hspace, htab, hrest, bind, Except.bind]
    rfl

/-- Behind blanks comes something other than a line end. -/
def GoesOn (text : List Char) : Prop := ∃ d more, text.dropWhile isBlank = d :: more ∧ isBreak d = false

theorem quotedFrom_blank {d : Char} {more : List Char} (hb : isBlank c)
    (hd : text.dropWhile isBlank = d :: more) (hk : isBreak d = false) (fuel : Nat) :
    quotedFrom double (fuel + 1) (c :: text) =
      (quotedFrom double fuel (d :: more)).map fun x => (c :: text.takeWhile isBlank ++ x.1, x.2) := by
  have hdrop : (c :: text).dropWhile isBlank = d :: more := by rw [List.dropWhile_cons_of_pos hb, hd]
  have htake : (c :: text).takeWhile isBlank = c :: text.takeWhile isBlank := List.takeWhile_cons_of_pos hb
  have hblank : (c = ' ' || c = '\t') = true := hb
  have hclass : (fun c : Char => decide (c = ' ') || decide (c = '\t')) = isBlank := rfl
  conv =>
    lhs
    unfold quotedFrom
  simp only [hblank, if_true, hclass, hdrop, htake, hk, Bool.false_eq_true, if_false]
  cases quotedFrom double fuel (d :: more) <;> rfl

theorem blank (h : Quotes double text value rest) (hb : isBlank c) (hg : GoesOn text) :
    Quotes double (c :: text) (c :: value) rest := by
  obtain ⟨d, more, hd, hk⟩ := hg
  refine of_succ fun fuel hf => ?_
  rw [quotedFrom_blank hb hd hk]
  cases text with
  | nil => cases hd
  | cons t text =>
    by_cases ht : isBlank t
    · have hwhole := h (fuel + 1) (by simp at hf ⊢; omega)
      rw [List.dropWhile_cons_of_pos ht] at hd
      rw [quotedFrom_blank ht hd hk] at hwhole
      cases hq : quotedFrom double fuel (d :: more) with
      | error => rw [hq] at hwhole; cases hwhole
      | ok x =>
        rw [hq] at hwhole
        cases hwhole
        rw [List.takeWhile_cons_of_pos ht]
        rfl
    · have hnone : (t :: text).takeWhile isBlank = [] := List.takeWhile_cons_of_neg ht
      rw [List.dropWhile_cons_of_neg ht] at hd
      rw [← hd, h fuel (by simp at hf ⊢; omega), hnone]
      rfl

theorem not_blank_of_break (h : isBreak c) : isBlank c = false := by
  cases hb : isBlank c with
  | false => rfl
  | true =>
    have hblank : c = ' ' ∨ c = '\t' := by simpa [isBlank, or_iff_not_imp_left] using hb
    rcases hblank with rfl | rfl <;> exact absurd h (by decide)

theorem breaks {ends left : List Char} (hk : isBreak c) (hq : quotedBreaks text.length text = .ok (ends, left))
    (h : Quotes double left value rest) :
    Quotes double (c :: text) (folded (breakValue c) ends ++ value) rest := by
  refine of_succ fun fuel hf => ?_
  have hrest := h fuel (by have hl := length_quotedBreaks hq; simp at hf; omega)
  have hblank : (c = ' ' || c = '\t') = false := not_blank_of_break hk
  unfold quotedFrom
  simp only [hblank, Bool.false_eq_true, if_false, hk, if_true, hq, hrest, bind, Except.bind]
  rfl

theorem continuation {ends left : List Char} (hq : quotedBreaks text.length text = .ok (ends, left))
    (h : Quotes true left value rest) :
    Quotes true ('\\' :: '\n' :: text) (ends ++ value) rest := by
  refine of_succ fun fuel hf => ?_
  have hrest := h fuel (by have hl := length_quotedBreaks hq; simp at hf; omega)
  have hvalue : escapeValue? '\n' = none := rfl
  have hwidth : escapeWidth? '\n' = none := rfl
  simp [quotedFrom, isBreak, hvalue, hwidth, hq, hrest, bind, Except.bind]
  rfl

theorem escape {e v : Char} (hv : escapeValue? e = some v) (h : Quotes true text value rest) :
    Quotes true ('\\' :: e :: text) (v :: value) rest := by
  refine of_succ fun fuel hf => ?_
  have hrest := h fuel (by simp at hf; omega)
  simp [quotedFrom, isBreak, hv, hrest, bind, Except.bind]
  rfl

theorem numbered {e v : Char} {width : Nat} {digits : List Char} (he : escapeValue? e = none)
    (hw : escapeWidth? e = some width) (hd : numberedEscape width (digits ++ text) = .ok (v, text))
    (h : Quotes true text value rest) : Quotes true ('\\' :: e :: (digits ++ text)) (v :: value) rest := by
  refine of_succ fun fuel hf => ?_
  have hrest := h fuel (by simp at hf; omega)
  simp [quotedFrom, isBreak, he, hw, hd, hrest, bind, Except.bind]
  rfl

end Quotes

theorem atSeparator_cons {c : Char} {text : List Char} (hm : c ≠ '-') (hp : c ≠ '.') :
    atSeparator (c :: text) = false := by
  unfold atSeparator
  split
  · next h => exact absurd (List.cons.inj h).1 hm
  · next h => exact absurd (List.cons.inj h).1 hp
  · rfl

theorem quotedBreaks_end {text : List Char} {d : Char} {more : List Char} (hs : atSeparator text = false)
    (hd : text.dropWhile isBlank = d :: more) (hk : isBreak d = false) (fuel : Nat) :
    quotedBreaks (fuel + 1) text = .ok ([], d :: more) := by
  have hclass : (fun c : Char => decide (c = ' ') || decide (c = '\t')) = isBlank := rfl
  rw [quotedBreaks, hs]
  simp only [Bool.false_eq_true, if_false, hclass, hd, hk]
  rfl

theorem quotedBreaks_break {text : List Char} {c : Char} (hk : isBreak c) (fuel : Nat) :
    quotedBreaks (fuel + 1) (c :: text) =
      (quotedBreaks fuel text).map fun x => (breakValue c :: x.1, x.2) := by
  have hclass : (fun c : Char => decide (c = ' ') || decide (c = '\t')) = isBlank := rfl
  have hblank : isBlank c = false := Quotes.not_blank_of_break hk
  have hs : atSeparator (c :: text) = false := by
    refine atSeparator_cons ?_ ?_ <;> (rintro rfl; exact absurd hk (by decide))
  have hd : (c :: text).dropWhile isBlank = c :: text := List.dropWhile_cons_of_neg (by simp [hblank])
  rw [quotedBreaks, hs]
  simp only [Bool.false_eq_true, if_false, hclass, hd, hk, if_true]
  cases quotedBreaks fuel text <;> rfl

section Single

variable {p q : Char → Bool} {c : Char} {text rest : List Char}

theorem hasNeighbours_tail (h : hasNeighbours p q (c :: text) = false) : hasNeighbours p q text = false := by
  cases text with
  | nil => rfl
  | cons d text =>
    rw [hasNeighbours, Bool.or_eq_false_iff] at h
    exact h.2

theorem not_neighbour {d : Char} (h : hasNeighbours p q (c :: d :: text) = false) (hc : p c) : q d = false := by
  rw [hasNeighbours, Bool.or_eq_false_iff, hc, Bool.true_and] at h
  exact h.1

/-- A text that single quotes can hold. -/
structure Singly (text : List Char) : Prop where
  chars : ∀ c ∈ text, c ≠ '\t' ∧ c ≠ '\u0085'
  before : hasNeighbours isSpace isBreak text = false
  behind : hasNeighbours isBreak isSpace text = false

namespace Singly

theorem tail (h : Singly (c :: text)) : Singly text :=
  ⟨fun d hd => h.chars d (List.mem_cons_of_mem c hd), hasNeighbours_tail h.before, hasNeighbours_tail h.behind⟩

theorem dropWhile (h : Singly text) (p : Char → Bool) : Singly (text.dropWhile p) := by
  induction text with
  | nil => exact h
  | cons c text ih =>
    by_cases hc : p c
    · rw [List.dropWhile_cons_of_pos hc]
      exact ih h.tail
    · rwa [List.dropWhile_cons_of_neg hc]

theorem not_blank (h : Singly (c :: text)) (hc : c ≠ ' ') : isBlank c = false := by
  simp [isBlank, hc, (h.chars c List.mem_cons_self).1]

end Singly

variable {indent column : Nat} {split afterSpace afterBreak : Bool}

theorem singleChars_break (hk : isBreak c) :
    singleChars indent split afterSpace afterBreak column (c :: text) =
      (if !afterBreak && c = '\n' then ['\n'] else []) ++ c ::
        ((if text.head?.any isBreak then [] else spaces indent) ++
          singleChars indent split false true (if text.head?.any isBreak then 0 else indent) text) := by
  rw [singleChars, if_pos hk]
  simp

theorem singleChars_quote :
    singleChars indent split afterSpace afterBreak column ('\'' :: text) =
      '\'' :: '\'' :: singleChars indent split false false (column + 2) text := by
  rw [singleChars, if_neg (by decide), if_pos rfl]

theorem singleChars_fold (hf : folds split afterSpace column text) :
    singleChars indent split afterSpace afterBreak column (' ' :: text) =
      newLine indent ++ singleChars indent split false false indent text := by
  rw [singleChars, if_neg (by decide), if_neg (by decide), if_pos (by simp [hf])]

theorem singleChars_char (hk : isBreak c = false) (hq : c ≠ '\'')
    (hf : c = ' ' → folds split afterSpace column text = false) :
    singleChars indent split afterSpace afterBreak column (c :: text) =
      c :: singleChars indent split (c = ' ') false (column + 1) text := by
  rw [singleChars, if_neg (by simp [hk]), if_neg hq, if_neg]
  simpa using hf

theorem head_singleChars (indent column : Nat) (split afterSpace afterBreak : Bool) (h : Singly (c :: text))
    (hs : c ≠ ' ') (hk : isBreak c = false) : ∃ d more,
      singleChars indent split afterSpace afterBreak column (c :: text) = d :: more ∧ isBlank d = false ∧
        isBreak d = false := by
  by_cases hq : c = '\''
  · rw [hq, singleChars_quote]
    exact ⟨_, _, rfl, by decide, by decide⟩
  · rw [singleChars_char hk hq fun he => absurd he hs]
    exact ⟨_, _, rfl, h.not_blank hs, hk⟩

theorem not_folds_afterSpace : folds split true column text = false := by
  simp [folds]

theorem dropWhile_blank_of_head {d : Char} (hd : isBlank d = false) :
    (d :: text).dropWhile isBlank = d :: text :=
  List.dropWhile_cons_of_neg (by simp [hd])

theorem dropWhile_spaces (n : Nat) (text : List Char) :
    (spaces n ++ text).dropWhile isBlank = text.dropWhile isBlank := by
  induction n with
  | zero => rfl
  | succ n ih =>
    change (' ' :: (spaces n ++ text)).dropWhile isBlank = _
    rw [List.dropWhile_cons_of_pos (by decide), ih]

theorem atSeparator_spaces (hi : 0 < indent) (text : List Char) : atSeparator (spaces indent ++ text) = false := by
  cases indent with
  | zero => omega
  | succ indent => exact atSeparator_cons (by decide) (by decide)

theorem goesOn_singleChars (h : Singly (' ' :: text)) :
    Quotes.GoesOn (singleChars indent split true afterBreak column text ++ '\'' :: rest) := by
  induction text generalizing afterBreak column with
  | nil => exact ⟨'\'', rest, dropWhile_blank_of_head (by decide), by decide⟩
  | cons c text ih =>
    have hk : isBreak c = false := not_neighbour h.before rfl
    by_cases hs : c = ' '
    · subst hs
      rw [singleChars_char (by decide) (by decide) fun _ => not_folds_afterSpace]
      have hgo : Quotes.GoesOn (singleChars indent split true false (column + 1) text ++ '\'' :: rest) :=
        ih h.tail
      obtain ⟨d, more, hd, hb⟩ := hgo
      refine ⟨d, more, ?_, hb⟩
      rw [List.cons_append, List.dropWhile_cons_of_pos (by decide)]
      exact hd
    · obtain ⟨d, more, he, hblank, hbreak⟩ := head_singleChars indent column split true afterBreak h.tail hs hk
      refine ⟨d, more ++ '\'' :: rest, ?_, hbreak⟩
      rw [he]
      exact dropWhile_blank_of_head hblank

theorem quotedBreaks_singleChars (hi : 0 < indent) (hk : isBreak c) (h : Singly (c :: text)) (fuel : Nat)
    (hf : text.length < fuel) (column : Nat) : ∃ column',
    quotedBreaks fuel ((if text.head?.any isBreak then [] else spaces indent) ++
      singleChars indent split false true column text ++ '\'' :: rest) =
      .ok (text.takeWhile isBreak,
        singleChars indent split false true column' (text.dropWhile isBreak) ++ '\'' :: rest) := by
  induction text generalizing c fuel column with
  | nil =>
    obtain ⟨fuel, rfl⟩ : ∃ n, fuel = n + 1 := ⟨fuel - 1, by omega⟩
    refine ⟨column, ?_⟩
    rw [if_neg (by simp), List.append_assoc]
    refine quotedBreaks_end (atSeparator_spaces hi _) ?_ (by decide) fuel
    rw [dropWhile_spaces]
    exact dropWhile_blank_of_head (by decide)
  | cons d text ih =>
    obtain ⟨fuel, rfl⟩ : ∃ n, fuel = n + 1 := ⟨fuel - 1, by omega⟩
    by_cases hd : isBreak d
    · obtain ⟨column', hrest⟩ := ih hd h.tail fuel (by simp at hf; omega)
        (if text.head?.any isBreak then 0 else indent)
      refine ⟨column', ?_⟩
      have hvalue : breakValue d = d := if_neg (h.tail.chars d List.mem_cons_self).2
      rw [if_pos (by simpa using hd), singleChars_break hd, List.takeWhile_cons_of_pos hd,
        List.dropWhile_cons_of_pos hd]
      simp only [List.nil_append, Bool.not_true, Bool.false_and, Bool.false_eq_true, if_false, List.cons_append]
      rw [quotedBreaks_break hd, hrest, hvalue]
      rfl
    · have hk' : isBreak d = false := by simpa using hd
      have hs : d ≠ ' ' := by simpa [isSpace] using not_neighbour h.behind hk
      obtain ⟨e, more, he, hblank, hbreak⟩ := head_singleChars indent column split false true h.tail hs hk'
      refine ⟨column, ?_⟩
      rw [if_neg (by simpa using hk'), List.takeWhile_cons_of_neg hd, List.dropWhile_cons_of_neg hd, he,
        List.append_assoc]
      refine quotedBreaks_end (atSeparator_spaces hi _) ?_ hbreak fuel
      rw [dropWhile_spaces]
      exact dropWhile_blank_of_head hblank

theorem not_any_head_dropWhile (text : List Char) : (text.dropWhile isBreak).head?.any isBreak = false := by
  have hhead := List.head?_dropWhile_not isBreak text
  cases hd : text.dropWhile isBreak with
  | nil => rfl
  | cons c rest =>
    rw [hd] at hhead
    exact hhead

theorem length_singleChars (indent column : Nat) (split afterSpace afterBreak : Bool) (text : List Char) :
    text.length ≤ (singleChars indent split afterSpace afterBreak column text).length := by
  induction text generalizing column afterSpace afterBreak with
  | nil => exact Nat.zero_le _
  | cons c text ih =>
    by_cases hk : isBreak c
    · have hrest := ih (if text.head?.any isBreak then 0 else indent) false true
      rw [singleChars_break hk, List.length_append, List.length_cons, List.length_cons, List.length_append]
      omega
    · by_cases hq : c = '\''
      · have hrest := ih (column + 2) false false
        rw [hq, singleChars_quote, List.length_cons, List.length_cons, List.length_cons]
        omega
      · by_cases hf : c = ' ' ∧ folds split afterSpace column text
        · have hrest := ih indent false false
          rw [hf.1, singleChars_fold hf.2, List.length_append, newLine, List.length_cons, List.length_cons]
          omega
        · have hrest := ih (column + 1) (c = ' ') false
          rw [singleChars_char (by simpa using hk) hq fun he => by simpa [he] using hf, List.length_cons,
            List.length_cons]
          omega

theorem quotes_fold (hi : 0 < indent) (h : Singly (' ' :: text)) (hf : folds split afterSpace column text)
    (hrest : Quotes false (singleChars indent split false false indent text ++ '\'' :: rest) text rest) :
    Quotes false (singleChars indent split afterSpace afterBreak column (' ' :: text) ++ '\'' :: rest)
      (' ' :: text) rest := by
  cases text with
  | nil => simp [folds] at hf
  | cons d text =>
    have hs : d ≠ ' ' := by
      rw [folds, Bool.and_eq_true] at hf
      simpa using hf.2
    obtain ⟨e, out, he, hblank, hbreak⟩ := head_singleChars indent indent split false false h.tail hs
      (not_neighbour h.before rfl)
    rw [singleChars_fold hf, List.append_assoc]
    rw [he] at hrest ⊢
    have hbreaks : quotedBreaks (spaces indent ++ (e :: out ++ '\'' :: rest)).length
        (spaces indent ++ (e :: out ++ '\'' :: rest)) = .ok ([], e :: out ++ '\'' :: rest) := by
      rw [List.length_append, List.length_append, List.length_cons, ← Nat.add_assoc, Nat.add_right_comm,
        ← Nat.add_assoc]
      refine quotedBreaks_end (atSeparator_spaces hi _) ?_ hbreak _
      rw [dropWhile_spaces]
      exact dropWhile_blank_of_head hblank
    exact Quotes.breaks (by decide) hbreaks hrest

theorem quotes_breaks (hi : 0 < indent) (h : Singly (c :: text)) (hk : isBreak c)
    (hrest : ∀ column', Quotes false (singleChars indent split false true column' (text.dropWhile isBreak) ++
      '\'' :: rest) (text.dropWhile isBreak) rest) :
    Quotes false (singleChars indent split afterSpace false column (c :: text) ++ '\'' :: rest)
      (c :: text) rest := by
  have hvalue : breakValue c = c := if_neg (h.chars c List.mem_cons_self).2
  have hjoin : c :: text = c :: text.takeWhile isBreak ++ text.dropWhile isBreak := by
    rw [List.cons_append, List.takeWhile_append_dropWhile]
  generalize hwritten : (if text.head?.any isBreak then [] else spaces indent) ++
    singleChars indent split false true (if text.head?.any isBreak then 0 else indent) text ++
      '\'' :: rest = written
  have hends (fuel : Nat) (hf : text.length < fuel) : ∃ column', quotedBreaks fuel written =
      .ok (text.takeWhile isBreak,
        singleChars indent split false true column' (text.dropWhile isBreak) ++ '\'' :: rest) := by
    rw [← hwritten]
    exact quotedBreaks_singleChars hi hk h fuel hf _
  have hlong : text.length < written.length := by
    have hlength := length_singleChars indent (if text.head?.any isBreak then 0 else indent) split false true text
    rw [← hwritten, List.length_append, List.length_append, List.length_cons]
    omega
  obtain ⟨column', hq⟩ := hends written.length hlong
  have hwhole : singleChars indent split afterSpace false column (c :: text) ++ '\'' :: rest =
      (if c = '\n' then ['\n'] else []) ++ c :: written := by
    rw [singleChars_break hk, ← hwritten]
    simp
  rw [hwhole, hjoin]
  by_cases hc : c = '\n'
  · subst hc
    have hdoubled : quotedBreaks ('\n' :: written).length ('\n' :: written) =
        .ok ('\n' :: text.takeWhile isBreak,
          singleChars indent split false true column' (text.dropWhile isBreak) ++ '\'' :: rest) := by
      rw [List.length_cons, quotedBreaks_break (by decide), hq]
      rfl
    exact Quotes.breaks (by decide) hdoubled (hrest column')
  · have hfolded : folded (breakValue c) (text.takeWhile isBreak) = c :: text.takeWhile isBreak := by
      rw [hvalue, folded, if_pos hc]
    have hquotes := Quotes.breaks hk hq (hrest column')
    rw [hfolded] at hquotes
    rw [if_neg hc]
    exact hquotes

/-- What is written in single quotes is read back. -/
theorem quotes_singleChars (hi : 0 < indent) (hr : rest.head? ≠ some '\'') (h : Singly text)
    (hb : afterBreak → text.head?.any isBreak = false) :
    Quotes false (singleChars indent split afterSpace afterBreak column text ++ '\'' :: rest) text rest := by
  -- By length: consecutive line ends are read in one piece, and what is left begins behind them.
  induction hn : text.length using Nat.strongRecOn generalizing text afterSpace afterBreak column with
  | _ n ih =>
  cases text with
  | nil => exact .close_single hr
  | cons c text =>
    have hlt : text.length < n := by
      rw [← hn]
      exact Nat.lt_succ_self _
    by_cases hk : isBreak c
    · have hfresh : afterBreak = false := by
        cases afterBreak with
        | false => rfl
        | true => exact absurd (hb rfl) (by simpa using hk)
      rw [hfresh]
      refine quotes_breaks hi h hk fun column' => ?_
      exact ih _ (Nat.lt_of_le_of_lt (List.length_dropWhile_le _ _) hlt) (h.tail.dropWhile isBreak)
        (fun _ => not_any_head_dropWhile text) rfl
    · have hk' : isBreak c = false := by simpa using hk
      by_cases hq : c = '\''
      · subst hq
        rw [singleChars_quote]
        exact (ih _ hlt h.tail (by simp) rfl).quote
      · by_cases hs : c = ' '
        · subst hs
          by_cases hf : folds split afterSpace column text
          · exact quotes_fold hi h hf (ih _ hlt h.tail (by simp) rfl)
          · rw [singleChars_char hk' hq fun _ => by simpa using hf]
            exact (ih _ hlt h.tail (by simp) rfl).blank (by decide) (goesOn_singleChars h)
        · rw [singleChars_char hk' hq fun he => absurd he hs]
          exact (ih _ hlt h.tail (by simp) rfl).char (h.not_blank hs) hk' hq (by simp)

end Single

def hexValue (digits : List Char) : Nat := digits.foldl (fun n c => n * 16 + (Text.digitIn? 16 c).getD 0) 0

theorem digitIn?_hexDigit {d : Nat} (h : d < 16) :
    (Text.hexDigit d).toUpper.toNat < 128 ∧ Text.digitIn? 16 (Text.hexDigit d).toUpper = some d := by
  have hall : ∀ d < 16, (Text.hexDigit d).toUpper.toNat < 128 ∧
      Text.digitIn? 16 (Text.hexDigit d).toUpper = some d := by decide
  exact hall d h

theorem upperHex_succ (width n : Nat) :
    upperHex (width + 1) n = upperHex width (n / 16) ++ [(Text.hexDigit (n % 16)).toUpper] := by
  simp [upperHex, Text.hexDigits]

theorem length_upperHex (width n : Nat) : (upperHex width n).length = width := by
  induction width generalizing n with
  | zero => rfl
  | succ width ih => rw [upperHex_succ, List.length_append, ih, List.length_singleton]

theorem isHex_of_mem_upperHex {width n : Nat} {c : Char} (h : c ∈ upperHex width n) :
    c.toNat < 128 ∧ (Text.digitIn? 16 c).isSome := by
  induction width generalizing n with
  | zero => cases h
  | succ width ih =>
    rw [upperHex_succ, List.mem_append, List.mem_singleton] at h
    rcases h with h | rfl
    · exact ih h
    · obtain ⟨hlow, hdigit⟩ := digitIn?_hexDigit (Nat.mod_lt n (by decide : 16 > 0))
      exact ⟨hlow, by rw [hdigit]; rfl⟩

theorem hexValue_upperHex {width n : Nat} (h : n < 16 ^ width) : hexValue (upperHex width n) = n := by
  induction width generalizing n with
  | zero =>
    have hzero : n = 0 := by omega
    rw [hzero]
    rfl
  | succ width ih =>
    have hdiv : n / 16 < 16 ^ width := Nat.div_lt_of_lt_mul (by rw [Nat.pow_succ] at h; omega)
    obtain ⟨-, hdigit⟩ := digitIn?_hexDigit (Nat.mod_lt n (by decide : 16 > 0))
    have hrest := ih hdiv
    rw [hexValue] at hrest ⊢
    rw [upperHex_succ, List.foldl_append, hrest, List.foldl_cons, List.foldl_nil, hdigit, Option.getD_some]
    omega

theorem numberedEscape_upperHex (width : Nat) {c : Char} (h : c.toNat < 16 ^ width) (text : List Char) :
    numberedEscape width (upperHex width c.toNat ++ text) = .ok (c, text) := by
  have hlength := length_upperHex width c.toNat
  have htake : (upperHex width c.toNat ++ text).take width = upperHex width c.toNat :=
    List.take_left' hlength
  have hdrop : (upperHex width c.toNat ++ text).drop width = text := List.drop_left' hlength
  have hall : (upperHex width c.toNat).all fun c => decide (c.toNat < 128) && (Text.digitIn? 16 c).isSome := by
    rw [List.all_eq_true]
    intro d hd
    obtain ⟨hlow, hdigit⟩ := isHex_of_mem_upperHex hd
    simp [hlow, hdigit]
  have hvalue : (upperHex width c.toNat).foldl (fun n c => n * 16 + (Text.digitIn? 16 c).getD 0) 0 = c.toNat :=
    hexValue_upperHex h
  have hvalid : c.toNat < 0xD800 ∨ (0xDFFF < c.toNat ∧ c.toNat < 0x110000) := c.valid
  have hchar : numberedChar c.toNat = .ok c := by
    rw [numberedChar, if_neg (by omega), if_neg (by omega), if_neg (by omega), Char.ofNat_toNat]
    rfl
  unfold numberedEscape
  simp only [htake, hdrop, hlength, hall, hvalue, hchar]
  rfl

theorem quotes_escaped {c : Char} {text value rest : List Char} (h : Quotes true text value rest) :
    Quotes true (escaped c ++ text) (c :: value) rest := by
  unfold escaped
  split
  case h_16 =>
    split
    · next hx => exact Quotes.numbered rfl rfl (numberedEscape_upperHex 2 hx text) h
    · split
      · next hu => exact Quotes.numbered rfl rfl (numberedEscape_upperHex 4 hu text) h
      · have hU : c.toNat < 16 ^ 8 := by
          have hvalid : c.toNat < 0xD800 ∨ (0xDFFF < c.toNat ∧ c.toNat < 0x110000) := c.valid
          omega
        exact Quotes.numbered rfl rfl (numberedEscape_upperHex 8 hU text) h
  all_goals exact Quotes.escape rfl h

section Double

variable {indent column : Nat} {split first fresh : Bool} {c : Char} {text rest : List Char}

theorem not_break_of {P : Char → Prop} (h : P c) (hline : ¬ P '\n' ∧ ¬ P '\u0085')
    (hseparator : ¬ P '\u2028' ∧ ¬ P '\u2029') : isBreak c = false := by
  rw [Bool.eq_false_iff]
  intro hk
  simp only [isBreak, Bool.or_eq_true, decide_eq_true_eq] at hk
  rcases hk with ((rfl | rfl) | rfl) | rfl
  · exact hline.1 h
  · exact hline.2 h
  · exact hseparator.1 h
  · exact hseparator.2 h

theorem plain_of_not_escape (h : needsEscape c = false) :
    isBreak c = false ∧ c ≠ '\t' ∧ c ≠ '"' ∧ c ≠ '\\' := by
  have hbreak : isBreak c = false := not_break_of (P := fun d => needsEscape d = false) h (by decide) (by decide)
  refine ⟨hbreak, ?_, ?_, ?_⟩ <;> (rintro rfl; exact absurd h (by decide))

theorem doubleChars_escape (indent column : Nat) (split first fresh : Bool) (text : List Char)
    (hc : needsEscape c) : ∃ column',
    doubleChars indent split first fresh column (c :: text) =
      escaped c ++ doubleChars indent split false true column' text ∨
    (text ≠ [] ∧ doubleChars indent split first fresh column (c :: text) =
      escaped c ++ (continued indent text ++
        doubleChars indent split false true (columnContinued indent text) text)) := by
  rw [doubleChars]
  simp only [hc, if_true]
  split
  · next hb =>
    refine ⟨column, .inr ⟨?_, by rw [List.append_assoc]⟩⟩
    rintro rfl
    simp at hb
  · exact ⟨_, .inl rfl⟩

theorem doubleChars_char (indent column : Nat) (split first fresh : Bool) (text : List Char)
    (hc : needsEscape c = false) : ∃ column',
    doubleChars indent split first fresh column (c :: text) =
      c :: doubleChars indent split false false column' text ∨
    (width < column ∧ doubleChars indent split first fresh column (c :: text) =
      continued indent (c :: text) ++ c :: doubleChars indent split false false column' text) := by
  rw [doubleChars]
  simp only [hc, Bool.false_eq_true, if_false]
  split
  · next hb =>
    simp only [Bool.and_eq_true, decide_eq_true_eq] at hb
    exact ⟨_, .inr ⟨hb.2, rfl⟩⟩
  · exact ⟨_, .inl rfl⟩

theorem goesOn_of_head {d : Char} (hb : isBlank d = false) (hk : isBreak d = false) :
    Quotes.GoesOn (d :: text) := ⟨d, text, dropWhile_blank_of_head hb, hk⟩

theorem goesOn_doubleChars (indent column : Nat) (split first fresh : Bool) (text rest : List Char) :
    Quotes.GoesOn (doubleChars indent split first fresh column text ++ '"' :: rest) := by
  induction text generalizing first fresh column with
  | nil => exact goesOn_of_head (by decide) (by decide)
  | cons c text ih =>
    by_cases hc : needsEscape c
    · obtain ⟨column', he | ⟨-, he⟩⟩ := doubleChars_escape indent column split first fresh text hc <;>
        (rw [he, List.append_assoc]; exact goesOn_of_head (by decide) (by decide))
    · have hc' : needsEscape c = false := by simpa using hc
      obtain ⟨column', he | ⟨-, he⟩⟩ := doubleChars_char indent column split first fresh text hc'
      · rw [he]
        by_cases hs : c = ' '
        · subst hs
          obtain ⟨d, more, hd, hk⟩ := ih column' false false
          exact ⟨d, more, hd, hk⟩
        · obtain ⟨hk, ht, -⟩ := plain_of_not_escape hc'
          exact goesOn_of_head (by simp [isBlank, hs, ht]) hk
      · rw [he]
        exact goesOn_of_head (by decide) (by decide)

theorem quotes_continuation {value : List Char} {d : Char} {more : List Char} (hi : 0 < indent)
    (hd : text = d :: more) (hb : isBlank d = false) (hk : isBreak d = false) (h : Quotes true text value rest) :
    Quotes true ('\\' :: newLine indent ++ text) value rest := by
  subst hd
  have hbreaks : quotedBreaks (spaces indent ++ d :: more).length (spaces indent ++ d :: more) =
      .ok ([], d :: more) := by
    rw [List.length_append, List.length_cons, ← Nat.add_assoc]
    refine quotedBreaks_end (atSeparator_spaces hi _) ?_ hk _
    rw [dropWhile_spaces]
    exact dropWhile_blank_of_head hb
  exact Quotes.continuation hbreaks h

theorem quotes_continued {value : List Char} (hi : 0 < indent) (hc : needsEscape c = false)
    (h : Quotes true text value rest) (tail : List Char) (hg : c = ' ' → Quotes.GoesOn text) :
    Quotes true (continued indent (c :: tail) ++ c :: text) (c :: value) rest := by
  obtain ⟨hk, ht, hq, he⟩ := plain_of_not_escape hc
  by_cases hs : c = ' '
  · subst hs
    have hescape : Quotes true ('\\' :: ' ' :: text) (' ' :: value) rest := Quotes.escape rfl h
    have hline := quotes_continuation hi rfl (by decide) (by decide) hescape
    rw [continued, List.head?_cons, if_pos rfl, List.append_assoc]
    exact hline
  · have hblank : isBlank c = false := by simp [isBlank, hs, ht]
    have hchar : Quotes true (c :: text) (c :: value) rest := h.char hblank hk hq fun _ => he
    have hline := quotes_continuation hi rfl hblank hk hchar
    rw [continued, if_neg (by simp [hs]), List.append_nil]
    exact hline

theorem quotes_continued_behind (hi : 0 < indent) (hw : indent < width)
    (hwhole : Quotes true (doubleChars indent split false true (columnContinued indent (c :: text)) (c :: text) ++
      '"' :: rest) (c :: text) rest)
    (htail : ∀ column, Quotes true (doubleChars indent split false false column text ++ '"' :: rest) text rest) :
    Quotes true (continued indent (c :: text) ++ doubleChars indent split false true
      (columnContinued indent (c :: text)) (c :: text) ++ '"' :: rest) (c :: text) rest := by
  by_cases hc : needsEscape c
  · have hspace : c ≠ ' ' := by
      rintro rfl
      exact absurd hc (by decide)
    have hhead : ∃ more, doubleChars indent split false true (columnContinued indent (c :: text)) (c :: text) ++
        '"' :: rest = '\\' :: more := by
      obtain ⟨column', he | ⟨-, he⟩⟩ := doubleChars_escape indent (columnContinued indent (c :: text)) split false
        true text hc <;> (rw [he]; exact ⟨_, rfl⟩)
    obtain ⟨more, he⟩ := hhead
    have hline := quotes_continuation hi he (by decide) (by decide) hwhole
    rw [continued, if_neg (by simp [hspace]), List.append_nil, List.append_assoc]
    exact hline
  · have hc' : needsEscape c = false := by simpa using hc
    have hcolumn : columnContinued indent (c :: text) ≤ width := by
      unfold columnContinued
      split <;> omega
    obtain ⟨column', he | ⟨hfull, -⟩⟩ := doubleChars_char indent (columnContinued indent (c :: text)) split false
      true text hc'
    · rw [he, List.append_assoc]
      exact quotes_continued hi hc' (htail column') text fun _ =>
        goesOn_doubleChars indent column' split false false text rest
    · omega

/-- What is written in double quotes is read back. -/
theorem quotes_doubleChars (hi : 0 < indent) (hw : indent < width) :
    Quotes true (doubleChars indent split first fresh column text ++ '"' :: rest) text rest := by
  -- By length: where a line is continued the next character is read together with the line end.
  induction hn : text.length using Nat.strongRecOn generalizing text first fresh column with
  | _ n ih =>
  cases text with
  | nil => exact .close_double
  | cons c text =>
    have hlt : text.length < n := by
      rw [← hn]
      exact Nat.lt_succ_self _
    by_cases hc : needsEscape c
    · obtain ⟨column', he | ⟨hne, he⟩⟩ := doubleChars_escape indent column split first fresh text hc
      · rw [he, List.append_assoc]
        exact quotes_escaped (ih _ hlt rfl)
      · rw [he, List.append_assoc]
        refine quotes_escaped ?_
        cases text with
        | nil => exact absurd rfl hne
        | cons d text =>
          exact quotes_continued_behind hi hw (ih _ hlt rfl) fun column =>
            ih _ (Nat.lt_trans (Nat.lt_succ_self _) hlt) rfl
    · have hc' : needsEscape c = false := by simpa using hc
      obtain ⟨hk, ht, hq, hs⟩ := plain_of_not_escape hc'
      obtain ⟨column', he | ⟨-, he⟩⟩ := doubleChars_char indent column split first fresh text hc'
      · rw [he]
        by_cases hspace : c = ' '
        · subst hspace
          exact (ih _ hlt rfl).blank (by decide) (goesOn_doubleChars indent column' split false false text rest)
        · exact (ih _ hlt rfl).char (by simp [isBlank, hspace, ht]) hk hq fun _ => hs
      · rw [he, List.append_assoc]
        exact quotes_continued hi hc' (ih _ hlt rfl) text fun _ =>
          goesOn_doubleChars indent column' split false false text rest

end Double

end CaveMap.Yaml
