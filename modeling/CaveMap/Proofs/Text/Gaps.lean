import CaveMap.Proofs.Text.Lines
import CaveMap.Proofs.Text.Strip
import Mathlib.Data.List.Chain
import Mathlib.Data.List.Infix

namespace CaveMap.Text

theorem infix_append_cons {α : Type} {word front back : List α} {c : α} (h : c ∉ word) :
    word <:+: front ++ c :: back ↔ word <:+: front ∨ word <:+: back := by
  have hstart {start : List α} (hs : start ⊆ word) (hbegins : start <+: c :: back) : start = [] := by
    rcases List.prefix_cons_iff.1 hbegins with hnil | ⟨tail, rfl, -⟩
    · exact hnil
    · exact absurd (hs List.mem_cons_self) h
  rw [List.infix_append_iff, List.infix_cons_iff]
  constructor
  · rintro (hin | (hbegins | hin) | ⟨start, rest, rfl, hends, hbegins⟩)
    · exact .inl hin
    · rw [hstart (List.Subset.refl word) hbegins]
      exact .inl List.nil_infix
    · exact .inr hin
    · rw [hstart (List.subset_append_right start rest) hbegins, List.append_nil]
      exact .inl hends.isInfix
  · rintro (hin | hin)
    · exact .inl hin
    · exact .inr (.inl (.inr hin))

def Gapless (text : List Char) : Prop := ¬ ['\n', '\n', '\n'] <:+: text

instance (text : List Char) : Decidable (Gapless text) := inferInstanceAs (Decidable (¬ _))

/-- How many newlines a text ends with if `n` of them stand before it; none if three or more of them stand
before another character. -/
def newlines (n : Nat) : List Char → Option Nat
  | [] => some n
  | c :: rest => if c = '\n' then newlines (n + 1) rest else if n ≤ 2 then newlines 0 rest else none

variable {text : List Char} {n m : Nat}

theorem newlines_append (n : Nat) (front back : List Char) :
    newlines n (front ++ back) = (newlines n front).bind fun m => newlines m back := by
  induction front generalizing n with
  | nil => rfl
  | cons c rest ih =>
    rw [List.cons_append, newlines, newlines]
    split
    · exact ih _
    · split
      · exact ih _
      · rfl

theorem newlines_all (n : Nat) (h : ∀ c ∈ text, c = '\n') : newlines n text = some (n + text.length) := by
  induction text generalizing n with
  | nil => rfl
  | cons c rest ih =>
    rw [newlines, if_pos (h c List.mem_cons_self), ih _ fun d hd => h d (List.mem_cons_of_mem _ hd),
      List.length_cons]
    congr 1
    omega

theorem newlines_full (hn : 3 ≤ n) (h : ∃ c ∈ text, c ≠ '\n') : newlines n text = none := by
  induction text generalizing n with
  | nil =>
    obtain ⟨c, hc, -⟩ := h
    exact absurd hc List.not_mem_nil
  | cons d rest ih =>
    rw [newlines]
    split
    · next hd =>
      refine ih (by omega) ?_
      obtain ⟨c, hc, hne⟩ := h
      rcases List.mem_cons.1 hc with rfl | hin
      · exact absurd hd hne
      · exact ⟨c, hin, hne⟩
    · exact if_neg (by omega)

theorem newlines_eq_zero_iff (h : newlines n text = some m) (hne : text ≠ []) :
    m = 0 ↔ text.getLast?.any (· ≠ '\n') := by
  obtain ⟨front, c, rfl⟩ := (List.eq_nil_or_concat' text).resolve_left hne
  rw [newlines_append] at h
  obtain ⟨k, -, hk⟩ := Option.bind_eq_some_iff.1 h
  rw [newlines] at hk
  rw [List.getLast?_concat, Option.any_some]
  split at hk
  · next hc =>
    cases hk
    simp [hc]
  · next hc =>
    split at hk
    · cases hk
      simp [hc]
    · cases hk

theorem gapless_iff : Gapless text ↔ ∃ m ≤ 2, newlines 0 text = some m := by
  have hruns (k : Nat) : ['\n', '\n', '\n'] <:+: List.replicate k '\n' ↔ ¬ k ≤ 2 := by
    constructor
    · intro h hk
      have hlength := h.length_le
      rw [List.length_replicate] at hlength
      exact absurd hlength (by simp only [List.length_cons, List.length_nil]; omega)
    · intro hk
      have hsplit : k = 3 + (k - 3) := by omega
      rw [hsplit, List.replicate_add]
      exact (List.prefix_append _ _).isInfix
  have hall (n : Nat) : (¬ ['\n', '\n', '\n'] <:+: List.replicate n '\n' ++ text) ↔
      ∃ m ≤ 2, newlines n text = some m := by
    induction text generalizing n with
    | nil =>
      rw [List.append_nil, hruns, not_not]
      simp [newlines]
    | cons c rest ih =>
      rw [newlines]
      by_cases hc : c = '\n'
      · have hmove : List.replicate n '\n' ++ c :: rest = List.replicate (n + 1) '\n' ++ rest := by
          rw [hc, List.replicate_succ', List.append_assoc]
          rfl
        rw [if_pos hc, hmove, ih]
      · have hword : c ∉ ['\n', '\n', '\n'] := by simp [hc]
        have hrest := ih 0
        rw [List.replicate_zero, List.nil_append] at hrest
        rw [if_neg hc, infix_append_cons hword, hruns, not_or, not_not, hrest]
        by_cases hn : n ≤ 2 <;> simp [hn]
  exact hall 0

def emptyLine : List Char := ['\n', '\n']

/-- A text that ends with no newline, no matter how few stand before it. -/
structure Firm (text : List Char) : Prop where
  start : ∀ n ≤ 2, newlines n text = newlines 0 text
  last : ∀ m, newlines 0 text = some m → m = 0

theorem Firm.of_edges (hhead : text.head?.any (· ≠ '\n')) (hlast : text.getLast?.any (· ≠ '\n')) : Firm text := by
  cases text with
  | nil => cases hhead
  | cons c rest =>
    have hc : c ≠ '\n' := by simpa using hhead
    constructor
    · intro n hn
      rw [newlines, newlines, if_neg hc, if_neg hc, if_pos hn, if_pos (Nat.zero_le 2)]
    · intro m hm
      exact (newlines_eq_zero_iff hm (List.cons_ne_nil _ _)).2 hlast

theorem firm_stripOf (h : stripOf (· = '\n') text ≠ []) : Firm (stripOf (· = '\n') text) := by
  have hhead := head?_stripOf_all (· = '\n') text
  have hlast := getLast?_stripOf_all (· = '\n') text
  rw [List.head?_eq_some_head h] at hhead
  rw [List.getLast?_eq_some_getLast h] at hlast
  refine .of_edges ?_ ?_
  · rw [List.head?_eq_some_head h]
    simpa using hhead
  · rw [List.getLast?_eq_some_getLast h]
    simpa using hlast

theorem Firm.gapless_iff (h : Firm text) : Gapless text ↔ newlines 0 text = some 0 := by
  rw [Text.gapless_iff]
  constructor
  · rintro ⟨m, -, hm⟩
    rw [hm, h.last m hm]
  · intro hzero
    exact ⟨0, Nat.zero_le 2, hzero⟩

/-- Firm texts with an empty line between them have no gaps but their own. -/
theorem gapless_blocks {blocks : List (List Char)} (hne : blocks ≠ []) (h : ∀ block ∈ blocks, Firm block) :
    Gapless (emptyLine.intercalate blocks ++ ['\n']) ↔ ∀ block ∈ blocks, Gapless block := by
  have hall (n : Nat) (hn : n ≤ 2) :
      (∃ m ≤ 2, newlines n (emptyLine.intercalate blocks ++ ['\n']) = some m) ↔
        ∀ block ∈ blocks, newlines 0 block = some 0 := by
    induction blocks generalizing n with
    | nil => exact absurd rfl hne
    | cons block rest ih =>
      obtain ⟨hfirm, hrest⟩ := List.forall_mem_cons.1 h
      rw [List.forall_mem_cons]
      cases hblock : newlines 0 block with
      | none =>
        rw [intercalate_cons_flatMap, List.append_assoc, newlines_append, hfirm.start n hn, hblock]
        simp
      | some m =>
        rw [hfirm.last m hblock]
        cases rest with
        | nil =>
          rw [List.intercalate_singleton, newlines_append, hfirm.start n hn, hblock, hfirm.last m hblock]
          simp [newlines]
        | cons second more =>
          have hjoint : newlines n (emptyLine.intercalate (block :: second :: more) ++ ['\n']) =
              newlines 2 (emptyLine.intercalate (second :: more) ++ ['\n']) := by
            rw [List.intercalate_cons_cons, List.append_assoc, List.append_assoc, newlines_append,
              hfirm.start n hn, hblock, hfirm.last m hblock]
            rfl
          rw [hjoint, ih (List.cons_ne_nil _ _) hrest 2 (Nat.le_refl 2)]
          simp
  rw [gapless_iff, hall 0 (Nat.zero_le 2)]
  exact forall₂_congr fun block hin => ((h block hin).gapless_iff).symm

/-- One of two lines is not empty. -/
def OneShown (line next : String) : Prop := line ≠ "" ∨ next ≠ ""

theorem isChain_of_empty_not_mem {lines : List String} (h : "" ∉ lines) : lines.IsChain OneShown :=
  (List.pairwise_of_forall_mem_list fun _ hin _ _ => .inl fun he => h (he ▸ hin)).isChain

theorem isChain_between {front middle back : List String} (hfront : front.IsChain OneShown)
    (hmiddle : middle.IsChain OneShown) (hback : back.IsChain OneShown) (hlast : ∀ line ∈ front.getLast?, line ≠ "")
    (hhead : ∀ line ∈ back.head?, line ≠ "") : (front ++ middle ++ back).IsChain OneShown :=
  (hfront.append hmiddle fun line hin _ _ => .inl (hlast line hin)).append hback
    fun _ _ line hin => .inr (hhead line hin)

/-- Lines without gaps, whatever stands before and behind them: no two empty lines in a row, and none at an end. -/
structure Compact (lines : List String) : Prop where
  isLine : ∀ line ∈ lines, IsLine line
  head : lines.head?.any (· ≠ "")
  last : lines.getLast?.any (· ≠ "")
  chain : lines.IsChain OneShown

theorem Compact.of_not_mem {lines : List String} (hne : lines ≠ []) (hlines : ∀ line ∈ lines, IsLine line)
    (h : "" ∉ lines) : Compact lines := by
  have hshown : ∀ line ∈ lines, line ≠ "" := fun line hin he => h (he ▸ hin)
  refine ⟨hlines, ?_, ?_, ?_⟩
  · rw [List.head?_eq_some_head hne]
    simpa using hshown _ (List.head_mem hne)
  · rw [List.getLast?_eq_some_getLast hne]
    simpa using hshown _ (List.getLast_mem hne)
  · exact isChain_of_empty_not_mem h

theorem newlines_line {line : String} (hl : IsLine line) (hne : line ≠ "") (hn : n ≤ 2) :
    newlines n line.toList = some 0 := by
  have hall (text : List Char) (ht : '\n' ∉ text) : newlines 0 text = some 0 := by
    induction text with
    | nil => rfl
    | cons c rest ih =>
      rw [List.mem_cons, not_or] at ht
      rw [newlines, if_neg fun he => ht.1 he.symm, if_pos (Nat.zero_le 2), ih ht.2]
  rw [IsLine] at hl
  cases hchars : line.toList with
  | nil => exact absurd (String.toList_eq_nil_iff.1 hchars) hne
  | cons c rest =>
    rw [hchars, List.mem_cons, not_or] at hl
    rw [newlines, if_neg fun he => hl.1 he.symm, if_pos hn, hall rest hl.2]

theorem newlines_lines {lines : List String} (hlines : ∀ line ∈ lines, IsLine line)
    (hchain : lines.IsChain OneShown) (hlast : lines.getLast?.any (· ≠ ""))
    (hn : n ≤ 2) (hhead : n = 2 → lines.head?.any (· ≠ "")) :
    newlines n (String.intercalate "\n" lines).toList = some 0 := by
  induction lines generalizing n with
  | nil => cases hlast
  | cons line rest ih =>
    obtain ⟨hline, hrest⟩ := List.forall_mem_cons.1 hlines
    cases rest with
    | nil =>
      rw [String.intercalate_singleton]
      exact newlines_line hline (by simpa using hlast) hn
    | cons next more =>
      obtain ⟨hpair, hmore⟩ := List.isChain_cons_cons.1 hchain
      rw [List.getLast?_cons_cons] at hlast
      rw [String.intercalate_cons_cons, String.toList_append, String.toList_append, List.append_assoc,
        newlines_append]
      by_cases he : line = ""
      · subst he
        have hsmall : n + 1 ≤ 2 := by
          have hne : n ≠ 2 := fun htwo => by simpa using hhead htwo
          omega
        exact ih hrest hmore hlast hsmall fun _ => by simpa [OneShown] using hpair
      · rw [newlines_line hline he hn]
        exact ih hrest hmore hlast (by decide) fun hone => by cases hone

theorem Compact.firm {lines : List String} (h : Compact lines) :
    Firm (String.intercalate "\n" lines).toList ∧ Gapless (String.intercalate "\n" lines).toList := by
  have hzero (n : Nat) (hn : n ≤ 2) : newlines n (String.intercalate "\n" lines).toList = some 0 :=
    newlines_lines h.isLine h.chain h.last hn fun _ => h.head
  have hfirm : Firm (String.intercalate "\n" lines).toList :=
    ⟨fun n hn => by rw [hzero n hn, hzero 0 (Nat.zero_le 2)], fun m hm => by
      rw [hzero 0 (Nat.zero_le 2)] at hm
      exact (Option.some.inj hm).symm⟩
  exact ⟨hfirm, hfirm.gapless_iff.2 (hzero 0 (Nat.zero_le 2))⟩

def isGap (text : List Char) : Bool := text.all (· = '\n')

/-- The texts without those at both ends that are nothing but newlines. -/
def trimmed (texts : List (List Char)) : List (List Char) := (texts.dropWhile isGap).rdropWhile isGap

/-- Two texts without newlines at their joint. -/
def Adjoins (front back : List Char) : Prop :=
  front.getLast?.any (· ≠ '\n') ∧ back.head?.any (· ≠ '\n')

instance (front back : List Char) : Decidable (Adjoins front back) := inferInstanceAs (Decidable (_ ∧ _))

theorem isGap_iff : isGap text ↔ ∀ c ∈ text, c = '\n' := by
  simp [isGap]

theorem exists_of_not_isGap (h : isGap text = false) : ∃ c ∈ text, c ≠ '\n' := by
  simpa [isGap] using h

theorem exists_lead (h : isGap text = false) :
    ∃ lead e tail, text = List.replicate lead '\n' ++ e :: tail ∧ e ≠ '\n' := by
  induction text with
  | nil => cases h
  | cons c rest ih =>
    by_cases hc : c = '\n'
    · have hrest : isGap rest = false := by
        rw [isGap, List.all_cons, decide_eq_true hc, Bool.true_and] at h
        exact h
      obtain ⟨lead, e, tail, rfl, he⟩ := ih hrest
      exact ⟨lead + 1, e, tail, by rw [hc, List.replicate_succ, List.cons_append], he⟩
    · exact ⟨0, c, rest, rfl, hc⟩

theorem rdropWhile_cons {α : Type} {p : α → Bool} {a : α} {rest : List α} (h : ¬ ∀ b ∈ a :: rest, p b) :
    (a :: rest).rdropWhile p = a :: rest.rdropWhile p := by
  rw [List.rdropWhile, List.reverse_cons, List.dropWhile_append]
  split
  · next hempty =>
    rw [List.isEmpty_iff, List.dropWhile_eq_nil_iff] at hempty
    have ha : p a = false := by
      by_contra hpa
      refine h (List.forall_mem_cons.2 ⟨by simpa using hpa, fun b hb => hempty b (List.mem_reverse.2 hb)⟩)
    have hrest : rest.rdropWhile p = [] :=
      List.rdropWhile_eq_nil_iff.2 fun b hb => hempty b (List.mem_reverse.2 hb)
    rw [hrest, List.dropWhile_cons, if_neg (by simp [ha])]
    rfl
  · rw [List.reverse_append]
    rfl

theorem newlines_edges (hgap : isGap text = false) (h : Gapless text) :
    ∃ lead m, (lead = 0 ↔ text.head?.any (· ≠ '\n')) ∧ (m = 0 ↔ text.getLast?.any (· ≠ '\n')) ∧
      newlines 0 (text.dropWhile (· = '\n')) = some m ∧
      ∀ n, newlines n text = if n + lead ≤ 2 then some m else none := by
  obtain ⟨m, -, hm⟩ := gapless_iff.1 h
  obtain ⟨lead, e, tail, rfl, he⟩ := exists_lead hgap
  have hlead : ∀ c ∈ List.replicate lead '\n', c = '\n' := fun c hc => List.eq_of_mem_replicate hc
  have hnewlines (n : Nat) : newlines n (List.replicate lead '\n' ++ e :: tail) =
      if n + lead ≤ 2 then newlines 0 tail else none := by
    rw [newlines_append, newlines_all n hlead, List.length_replicate, Option.bind_some, newlines, if_neg he]
  have hlast := newlines_eq_zero_iff hm (List.append_ne_nil_of_right_ne_nil _ (List.cons_ne_nil _ _))
  rw [hnewlines] at hm
  split at hm
  · refine ⟨lead, m, ?_, hlast, ?_, fun n => by rw [hnewlines, hm]⟩
    · cases lead with
      | zero => simp [he]
      | succ k => simp [List.replicate_succ]
    · rw [List.dropWhile_append_of_pos (by simp), List.dropWhile_cons, if_neg (by simpa using he),
        newlines, if_neg he, if_pos (Nat.zero_le 2), hm]
  · cases hm

theorem newlines_full_flatMap {texts : List (List Char)} (hn : 1 ≤ n) (h : ∃ t ∈ texts, isGap t = false) :
    newlines n (texts.flatMap (emptyLine ++ ·)) = none := by
  obtain ⟨t, ht, hother⟩ := h
  obtain ⟨c, hc, hne⟩ := exists_of_not_isGap hother
  cases texts with
  | nil => cases ht
  | cons first rest =>
    have hthree : 3 ≤ n + emptyLine.length := by
      simp only [emptyLine, List.length_cons, List.length_nil]
      omega
    rw [List.flatMap_cons, List.append_assoc, newlines_append, newlines_all _ (by simp [emptyLine]), Option.bind_some]
    refine newlines_full hthree ⟨c, ?_, hne⟩
    rcases List.mem_cons.1 ht with rfl | hin
    · exact List.mem_append_left _ hc
    · exact List.mem_append_right _ (List.mem_flatMap.2 ⟨t, hin, List.mem_append_right _ hc⟩)

/-- Texts that follow another one make no gap exactly when each adjoins the one before it; those at the end
that are nothing but newlines do not matter. -/
theorem newlines_following {texts : List (List Char)} (h : ∀ t ∈ texts, Gapless t) {front : List Char}
    (hm : m = 0 ↔ front.getLast?.any (· ≠ '\n')) :
    (newlines m (texts.flatMap (emptyLine ++ ·))).isSome ↔
      List.IsChain Adjoins (front :: texts.rdropWhile isGap) := by
  induction texts generalizing front m with
  | nil => simp [newlines]
  | cons t rest ih =>
    obtain ⟨ht, hrest⟩ := List.forall_mem_cons.1 h
    have hjoint : newlines m ((t :: rest).flatMap (emptyLine ++ ·)) =
        (newlines (m + 2) t).bind fun k => newlines k (rest.flatMap (emptyLine ++ ·)) := by
      rw [List.flatMap_cons, List.append_assoc, newlines_append, newlines_all m (by simp [emptyLine]),
        Option.bind_some, newlines_append]
      rfl
    by_cases hall : ∀ u ∈ t :: rest, isGap u
    · have hnone : (t :: rest).rdropWhile isGap = [] := List.rdropWhile_eq_nil_iff.2 hall
      have hgaps : ∀ c ∈ (t :: rest).flatMap (emptyLine ++ ·), c = '\n' := by
        intro c hc
        obtain ⟨u, hu, hc⟩ := List.mem_flatMap.1 hc
        rcases List.mem_append.1 hc with hc | hc
        · simpa [emptyLine] using hc
        · exact isGap_iff.1 (hall u hu) c hc
      rw [hnone, newlines_all m hgaps]
      simp
    · rw [rdropWhile_cons hall, List.isChain_cons_cons, hjoint]
      cases hgap : isGap t with
      | true =>
        -- Four newlines or more stand before the next text that has other characters.
        have hnot : ¬ Adjoins front t := by
          rintro ⟨-, hhead⟩
          cases t with
          | nil => cases hhead
          | cons c t => exact absurd (isGap_iff.1 hgap c List.mem_cons_self) (by simpa using hhead)
        have hother : ∃ u ∈ rest, isGap u = false := by
          by_contra hnone
          push Not at hnone
          exact hall (List.forall_mem_cons.2 ⟨hgap, fun u hu => by simpa using hnone u hu⟩)
        rw [newlines_all _ (isGap_iff.1 hgap), Option.bind_some, newlines_full_flatMap (by omega) hother]
        simp [hnot]
      | false =>
        obtain ⟨lead, k, hlead, hk, -, hnewlines⟩ := newlines_edges hgap ht
        have hadjoins : Adjoins front t ↔ m + 2 + lead ≤ 2 := by
          rw [Adjoins, ← hm, ← hlead]
          omega
        rw [hnewlines, hadjoins]
        by_cases hle : m + 2 + lead ≤ 2
        · rw [if_pos hle, Option.bind_some, ih hrest hk, and_iff_right hle]
        · rw [if_neg hle]
          simp [hle]

theorem newlines_joined {texts : List (List Char)} (h : ∀ t ∈ texts, Gapless t) :
    (newlines 0 ((emptyLine.intercalate texts).dropWhile (· = '\n'))).isSome ↔
      List.IsChain Adjoins (trimmed texts) := by
  induction texts with
  | nil => simp [newlines, trimmed]
  | cons t rest ih =>
    obtain ⟨ht, hrest⟩ := List.forall_mem_cons.1 h
    cases hgap : isGap t with
    | true =>
      have htrimmed : trimmed (t :: rest) = trimmed rest := by
        rw [trimmed, List.dropWhile_cons, if_pos hgap]
        rfl
      have hdrop : (emptyLine.intercalate (t :: rest)).dropWhile (· = '\n') =
          (emptyLine.intercalate rest).dropWhile (· = '\n') := by
        have hpos : ∀ c ∈ t, decide (c = '\n') = true := by simpa using isGap_iff.1 hgap
        cases rest with
        | nil =>
          rw [List.intercalate_singleton, List.dropWhile_eq_nil_iff.2 hpos]
          rfl
        | cons second more =>
          rw [List.intercalate_cons_cons, List.append_assoc, List.dropWhile_append_of_pos hpos,
            List.dropWhile_append_of_pos (by simp [emptyLine])]
      rw [hdrop, htrimmed, ih hrest]
    | false =>
      obtain ⟨lead, m, -, hm, hdropped, -⟩ := newlines_edges hgap ht
      have hdrop : (emptyLine.intercalate (t :: rest)).dropWhile (· = '\n') =
          t.dropWhile (· = '\n') ++ rest.flatMap (emptyLine ++ ·) := by
        obtain ⟨c, hc, hne⟩ := exists_of_not_isGap hgap
        rw [intercalate_cons_flatMap, List.dropWhile_append, if_neg]
        rw [List.isEmpty_iff, List.dropWhile_eq_nil_iff]
        intro hall
        exact hne (by simpa using hall c hc)
      have htrimmed : trimmed (t :: rest) = t :: rest.rdropWhile isGap := by
        rw [trimmed, List.dropWhile_cons, if_neg (by simp [hgap]), rdropWhile_cons]
        intro hall
        rw [hall t List.mem_cons_self] at hgap
        cases hgap
      rw [hdrop, newlines_append, hdropped, Option.bind_some, newlines_following hrest hm, htrimmed]

/-- Texts without gaps, joined by an empty line and stripped of newlines, have a gap exactly where two of
them meet in a newline or one of them has nothing to show. -/
theorem gapless_stripOf_joined {texts : List (List Char)} (h : ∀ t ∈ texts, Gapless t) :
    Gapless (stripOf (· = '\n') (emptyLine.intercalate texts)) ↔ List.IsChain Adjoins (trimmed texts) := by
  have hzero : ∀ m, newlines 0 (stripOf (· = '\n') (emptyLine.intercalate texts)) = some m → m = 0 := by
    by_cases hempty : stripOf (· = '\n') (emptyLine.intercalate texts) = []
    · rw [hempty]
      exact fun m hm => (Option.some.inj hm).symm
    · exact (firm_stripOf hempty).last
  obtain ⟨tail, htail, hgap⟩ := dropWhile_eq_stripOf_append (· = '\n') (emptyLine.intercalate texts)
  rw [← newlines_joined h, gapless_iff, htail, newlines_append]
  cases hshown : newlines 0 (stripOf (· = '\n') (emptyLine.intercalate texts)) with
  | none => simp
  | some m =>
    rw [hzero m hshown, Option.bind_some, newlines_all 0 (by simpa using hgap)]
    simp

end CaveMap.Text
