import CaveMap.Proofs.Yaml.Characters
import CaveMap.Proofs.Yaml.Scanner
import Mathlib.Data.Bool.AllAny

namespace CaveMap.Yaml

open Implicit Lexeme Written Scanner

/-- A form that a text can be written in. -/
inductive Fits : Form → List Char → Prop
  | plain {text : List Char} : allowsPlain text → text ≠ [] → Fits .plain text
  | single {text : List Char} : Singly text → Fits .single text
  | double {text : List Char} : Fits .double text

theorem plainly_of_allowsPlain {text : List Char} (h : allowsPlain text) : Plainly text := by
  simp only [allowsPlain, Bool.and_eq_true, Bool.not_eq_true'] at h
  obtain ⟨⟨⟨hordinary, hlines⟩, hedge⟩, hindicator⟩ := h
  simp only [edgeIs, Bool.or_eq_false_iff] at hedge
  refine ⟨fun c hc => ⟨?_, ?_⟩, ?_, ?_, ?_⟩
  · rintro rfl
    exact absurd (List.all_eq_true.1 hordinary '\t' hc) (by decide)
  · simpa using List.any_eq_false.1 hlines c hc
  · cases text with
    | nil => rfl
    | cons c text =>
      simp only [hasIndicator, Bool.or_eq_false_iff] at hindicator
      obtain ⟨-, ⟨-, hmark⟩, hinner⟩ := hindicator
      rw [hasInnerIndicator, hinner, Bool.and_false, Bool.or_false, Bool.or_false]
      simp only [Bool.and_eq_false_iff, Bool.or_eq_false_iff, decide_eq_false_iff_not] at hmark ⊢
      exact hmark.imp_left fun hnot => hnot.1.2
  · cases text with
    | nil => rfl
    | cons c text => simpa [isSpace] using hedge.1
  · cases hlast : text.getLast? with
    | none => rfl
    | some c => simpa [isSpace, hlast] using hedge.2

theorem singly_of_allowsSingle {text : List Char} (h : allowsSingle text) (hn : '\u0085' ∉ text) :
    Singly text := by
  simp only [allowsSingle, Bool.and_eq_true, Bool.not_eq_true'] at h
  obtain ⟨⟨hordinary, hbefore⟩, hbehind⟩ := h
  refine ⟨fun c hc => ⟨?_, ?_⟩, hbefore, hbehind⟩
  · rintro rfl
    exact absurd (List.all_eq_true.1 hordinary '\t' hc) (by decide)
  · rintro rfl
    exact hn hc

theorem fits_formOf {text : List Char} {own : Bool} (hn : '\u0085' ∉ text) (hne : own → text ≠ []) :
    Fits (formOf own text) text := by
  unfold formOf
  split
  · next h =>
    rw [Bool.and_eq_true] at h
    exact .plain h.2 (hne h.1)
  · split
    · next h => exact .single (singly_of_allowsSingle h hn)
    · exact .double

section Begin

variable {indent column : Nat} {split afterSpace : Bool} {text tail : List Char}

theorem startsWith_plainChars {front : List Char} (hf : ∀ c ∈ front, c ≠ ' ' ∧ c ≠ '\n' ∧ c ≠ ':')
    (ht : tail.head?.all fun c => c = '\n' || c = ':')
    (h : front <+: plainChars indent split afterSpace column text ++ tail) : front <+: text := by
  induction front generalizing text afterSpace column with
  | nil => exact List.nil_prefix
  | cons c front ih =>
    obtain ⟨hs, hn, hk⟩ := hf c List.mem_cons_self
    cases text with
    | nil =>
      obtain ⟨behind, hbehind⟩ := h
      have htail : tail = c :: (front ++ behind) := hbehind.symm
      rw [htail] at ht
      simp [hn, hk] at ht
    | cons d text =>
      by_cases hd : d = ' ' ∧ folds split afterSpace column text
      · obtain ⟨rfl, hfold⟩ := hd
        rw [plainChars_fold hfold] at h
        exact absurd (List.cons_prefix_cons.1 h).1 hn
      · rw [plainChars_char (by simpa using hd)] at h
        obtain ⟨rfl, hrest⟩ := List.cons_prefix_cons.1 h
        exact List.cons_prefix_cons.2 ⟨rfl, ih (fun e he => hf e (List.mem_cons_of_mem _ he)) hrest⟩

theorem atSeparator_prefix (h : atSeparator text) : "---".toList <+: text ∨ "...".toList <+: text := by
  unfold atSeparator at h
  split at h
  · exact .inl ⟨_, rfl⟩
  · exact .inr ⟨_, rfl⟩
  · cases h

theorem contains_indicator (c : Char) : "-?:,[]\x7b\x7d#&*!|>'\"%@\x60".toList.contains c =
    (c = '?' || c = ':' || c = '-' || "#,[]\x7b\x7d&*!|>'\"%@\x60".toList.contains c) := by
  have hall : "-?:,[]\x7b\x7d#&*!|>'\"%@\x60".toList =
      ['-', '?', ':', ',', '[', ']', '\x7b', '\x7d', '#', '&', '*', '!', '|', '>', '\'', '"', '%', '@', '\x60'] := rfl
  have hothers : "#,[]\x7b\x7d&*!|>'\"%@\x60".toList =
      ['#', ',', '[', ']', '\x7b', '\x7d', '&', '*', '!', '|', '>', '\'', '"', '%', '@', '\x60'] := rfl
  rw [hall, hothers, Bool.eq_iff_iff]
  simp only [List.contains_cons, List.contains_nil, Bool.or_eq_true, beq_iff_eq, decide_eq_true_eq, Bool.or_false]
  tauto

theorem solid_plainChars (h : allowsPlain text) (hne : text ≠ []) (ht : tail.head?.all fun c => c = '\n' || c = ':')
    (indent column : Nat) (split : Bool) : Solid (plainChars indent split true column text ++ tail) ∧
      startsPlain false (plainChars indent split true column text ++ tail) := by
  have hplainly := plainly_of_allowsPlain h
  simp only [allowsPlain, Bool.and_eq_true, Bool.not_eq_true'] at h
  obtain ⟨⟨⟨hordinary, -⟩, -⟩, hindicator⟩ := h
  simp only [hasIndicator, Bool.or_eq_false_iff] at hindicator
  obtain ⟨⟨hdashes, hpoints⟩, hfirst⟩ := hindicator
  have hseparator : atSeparator (plainChars indent split true column text ++ tail) = false := by
    cases hat : atSeparator (plainChars indent split true column text ++ tail) with
    | false => rfl
    | true =>
      rcases atSeparator_prefix hat with hfront | hfront
      · have htext := startsWith_plainChars (List.all_iff_forall_prop.1 (by decide)) ht hfront
        rw [startsWith, List.isPrefixOf_iff_prefix.2 htext] at hdashes
        cases hdashes
      · have htext := startsWith_plainChars (List.all_iff_forall_prop.1 (by decide)) ht hfront
        rw [startsWith, List.isPrefixOf_iff_prefix.2 htext] at hpoints
        cases hpoints
  cases text with
  | nil => exact absurd rfl hne
  | cons c text =>
    obtain ⟨⟨hothers, hmark⟩, -⟩ : (_ ∧ _) ∧ _ := by simpa only [Bool.or_eq_false_iff] using hfirst
    have hs : c ≠ ' ' := by simpa using hplainly.first
    have hc : isGap c = false := hplainly.not_gap List.mem_cons_self hs
    rw [plainChars_char fun he => absurd he hs] at hseparator ⊢
    have hordinary' : isOrdinary c := List.all_eq_true.1 hordinary c List.mem_cons_self
    refine ⟨solid_cons hc ?_ ?_ hseparator, ?_⟩
    · rintro rfl
      exact absurd hothers (by decide)
    · rintro rfl
      exact absurd hordinary' (by decide)
    · have hlist := contains_indicator c
      rw [hothers, Bool.or_false] at hlist
      rw [List.cons_append, startsPlain, if_neg (by simp [hc]), hlist]
      split
      · next hsome =>
        rw [hsome, Bool.true_and] at hmark
        have hsecond := second_plainChars hmark indent (column + 1) split (c = ' ') tail
        simp only [Bool.or_eq_true, decide_eq_true_eq] at hsome
        rw [hsecond]
        rcases hsome with (rfl | rfl) | rfl <;> rfl
      · rfl

end Begin

namespace Scanner

variable {c d : Cursor} {allowed spansLines : Bool} {text tail rest : List Char} {tokens : List Token}
  {token : Token} {indent : Int} {indents : List Int} {value : String}

def expected (c : Cursor) (allowed : Bool) (tokens : List Token) (indent : Int) : List (Nat × PendingKey) :=
  if allowed then [(0, ⟨tokens.length, decide (indent = c.column), c.index, c.line, c.column⟩)] else []

variable (allowed tokens) in
theorem expected_of_lt (hi : indent < c.column) : ∀ entry ∈ expected c allowed tokens indent,
    entry.2.required = false ∧ entry.2.line = c.line := by
  intro entry hin
  cases allowed with
  | false => cases hin
  | true =>
    rw [List.mem_singleton.1 hin]
    exact ⟨decide_eq_false (by omega), rfl⟩

def behindScalar (c d : Cursor) (allowed spansLines : Bool) (tokens : List Token) (token : Token) (indent : Int)
    (indents : List Int) : Scanner :=
  { poised d spansLines (tokens ++ [token]) indent indents with pending := expected c allowed tokens indent }

theorem expectKey_poised : (poised c allowed tokens indent indents).expectKey =
    .ok { poised c allowed tokens indent indents with pending := expected c allowed tokens indent } := by
  have hallowed : (poised c allowed tokens indent indents).keyAllowed = allowed := rfl
  unfold expectKey
  rw [hallowed, dropPending_poised]
  cases allowed with
  | false => rfl
  | true =>
    simp [bind, Except.bind, pure, Except.pure, expected, poised, inFlow]
    rfl

theorem scanKeyLike_poised {lex : List Char → Except Fault (Token × List Char)} (h : lex c.rest = .ok (token, rest)) :
    (poised c allowed tokens indent indents).scanKeyLike lex =
      .ok (behindScalar c (c.moveTo rest) allowed false tokens token indent indents) := by
  have hcursor : (poised c allowed tokens indent indents).cursor = c := rfl
  unfold scanKeyLike
  rw [expectKey_poised]
  simp only [bind, Except.bind, hcursor, h]
  simp [pure, Except.pure, emit, behindScalar, poised]

theorem scanToken_quoted (double : Bool) (hc : c.rest = (if double then '"' else '\'') :: text)
    (h : quotedToken double c.rest = .ok (token, rest)) (hi : indent ≤ c.column) :
    (poised c allowed tokens indent indents).scanToken =
      .ok (some (behindScalar c (c.moveTo rest) allowed false tokens token indent indents)) := by
  have hsolid : Solid c.rest := by
    rw [hc]
    cases double with
    | false => exact solid_cons (by decide) (by decide) (by decide) (atSeparator_cons (by decide) (by decide))
    | true => exact solid_cons (by decide) (by decide) (by decide) (atSeparator_cons (by decide) (by decide))
  have hseparator : atSeparator c.rest = false := hsolid.separator
  have hcursor : (poised c allowed tokens indent indents).cursor = c := rfl
  have hscan : (poised c allowed tokens indent indents).scanKeyLike (quotedToken double) =
      .ok (behindScalar c (c.moveTo rest) allowed false tokens token indent indents) := scanKeyLike_poised h
  unfold scanToken
  rw [hcursor, poised_settled hsolid]
  rw [hc] at hseparator
  simp only [bind, Except.bind, Scanner.column, hcursor, unwind_poised hi, hc, hseparator]
  cases double with
  | false => simp [hscan]
  | true => simp [hscan]

variable (allowed tokens indents) in
theorem scanPlain_poised (h : Lexeme.plain false (indent + 1) c.column c.rest = (value, spansLines, rest)) :
    (poised c allowed tokens indent indents).scanPlain =
      .ok (behindScalar c (c.moveTo rest) allowed spansLines tokens (.scalar value true) indent indents) := by
  have hcursor : (poised c allowed tokens indent indents).cursor = c := rfl
  unfold scanPlain
  rw [expectKey_poised]
  simp only [bind, Except.bind, hcursor]
  simp [inFlow, poised, h, pure, Except.pure, emit, behindScalar]

theorem startsPlain_cons {ch : Char} (h : startsPlain false (ch :: text)) :
    (∀ other ∈ ['%', '[', '\x7b', ']', '\x7d', ',', '*', '&', '!', '|', '>', '\'', '"'], ch ≠ other) ∧
      (ch = '-' ∨ ch = '?' ∨ ch = ':' → endsWord text.head? = false) := by
  have hgap : isGap ch = false := by
    cases hg : isGap ch with
    | false => rfl
    | true => simp [startsPlain, hg] at h
  rw [startsPlain, if_neg (by simp [hgap])] at h
  split at h
  · rw [Bool.and_eq_true, Bool.not_eq_true'] at h
    refine ⟨?_, fun _ => h.1⟩
    have hmark := h.2
    simp only [Bool.not_false, Bool.true_and, Bool.or_eq_true, decide_eq_true_eq] at hmark
    rcases hmark with rfl | rfl | rfl <;> exact List.all_iff_forall_prop.1 (by decide)
  · next hnot =>
    have hmem : ∀ other ∈ "-?:,[]\x7b\x7d#&*!|>'\"%@\x60".toList, ch ≠ other := by
      rintro other hin rfl
      exact hnot (List.contains_iff_mem.2 hin)
    refine ⟨fun other hin => hmem other ?_, ?_⟩
    · revert other hin
      exact List.all_iff_forall_prop.1 (by decide)
    · rintro (rfl | rfl | rfl)
      · exact absurd rfl (hmem '-' (by decide))
      · exact absurd rfl (hmem '?' (by decide))
      · exact absurd rfl (hmem ':' (by decide))

theorem scanToken_plain (hs : Solid c.rest) (hp : startsPlain false c.rest)
    (h : Lexeme.plain false (indent + 1) c.column c.rest = (value, spansLines, rest)) (hi : indent ≤ c.column) :
    (poised c allowed tokens indent indents).scanToken =
      .ok (some (behindScalar c (c.moveTo rest) allowed spansLines tokens (.scalar value true) indent indents)) := by
  have hseparator : atSeparator c.rest = false := hs.separator
  have hcursor : (poised c allowed tokens indent indents).cursor = c := rfl
  have hflow : (poised c allowed tokens indent indents).inFlow = false := rfl
  have hscan := scanPlain_poised allowed tokens indents h
  cases hc : c.rest with
  | nil =>
    rw [hc] at hp
    cases hp
  | cons ch text =>
    rw [hc] at hp hseparator
    obtain ⟨hothers, hmarks⟩ := startsPlain_cons hp
    unfold scanToken
    rw [hcursor, poised_settled hs]
    simp only [List.mem_cons, forall_eq_or_imp, List.not_mem_nil, false_imp_iff, implies_true, and_true] at hothers
    have hmark (mark : Char) (hm : mark = '-' ∨ mark = '?' ∨ mark = ':') :
        (decide (ch = mark) && endsWord text.head?) = false := by
      by_cases he : ch = mark
      · rw [hmarks (he ▸ hm), Bool.and_false]
      · rw [decide_eq_false he, Bool.false_and]
    simp only [bind, Except.bind, Scanner.column, hcursor, unwind_poised hi, hc, hseparator, hflow, hothers, hp, hscan,
      decide_false, Bool.false_and, Bool.and_false, Bool.false_eq_true, if_false, Bool.false_or,
      hmark '-' (.inl rfl), hmark '?' (.inr (.inl rfl)), hmark ':' (.inr (.inr rfl))]
    rfl

/-- What a scalar in a form leaves of the text behind it: a colon makes a key of it, and a line ends it. -/
inductive Leaves (indent : Int) : Form → List Char → Bool → List Char → Prop
  | colon {form : Form} {text : List Char} : endsWord text.head? → Leaves indent form (':' :: text) false (':' :: text)
  | line {text : List Char} {k : Nat} :
      Solid text → (k : Int) ≤ indent → Leaves indent .plain (newLine k ++ text) true text
  | quote {form : Form} {text : List Char} {k : Nat} :
    form ≠ .plain → Leaves indent form (newLine k ++ text) false (newLine k ++ text)

section Written

variable {form : Form} {n column : Nat} {split : Bool}

theorem Leaves.head (h : Leaves indent form tail spansLines rest) : tail.head?.all fun c => c = '\n' || c = ':' := by
  cases h <;> simp [newLine]

theorem Leaves.ends (h : Leaves indent .plain tail spansLines rest) : Ends tail (indent + 1) spansLines rest := by
  cases h with
  | colon hg => exact ends_colon (indent + 1) hg
  | line hs hk => exact ends_newLine hs (by omega)
  | quote hq => exact absurd rfl hq

theorem Leaves.quoted (h : Leaves indent form tail spansLines rest) (hq : form ≠ .plain) :
    spansLines = false ∧ rest = tail := by
  cases h with
  | colon => exact ⟨rfl, rfl⟩
  | line => exact absurd rfl hq
  | quote => exact ⟨rfl, rfl⟩

theorem head_ne_quote (h : tail.head?.all fun c => c = '\n' || c = ':') : tail.head? ≠ some '\'' := by
  intro hquote
  rw [hquote] at h
  exact absurd h (by decide)

theorem quotedToken_eq (double : Bool) {body : List Char} (h : Quotes double body value.toList rest) (quote : Char) :
    quotedToken double (quote :: body) = .ok (.scalar value false, rest) := by
  have hread := h (body.length + 1) (Nat.lt_succ_self _)
  rw [quotedToken, List.drop_one, List.tail_cons, Lexeme.quoted, hread]
  simp [bind, Except.bind, pure, Except.pure]

theorem length_plainChars (indent column : Nat) (split afterSpace : Bool) (text : List Char) :
    text.length ≤ (plainChars indent split afterSpace column text).length := by
  induction text generalizing column afterSpace with
  | nil => exact Nat.zero_le _
  | cons c text ih =>
    rw [plainChars]
    split
    · have hrest := ih indent false
      simp only [newLine, List.length_append, List.length_cons]
      omega
    · have hrest := ih (column + 1) (c = ' ')
      simp only [List.length_cons]
      omega

/-- A written scalar gives its text as one token. -/
theorem scanToken_chars (hf : Fits form value.toList) (hl : Leaves indent form tail spansLines rest) (hn : 0 < n)
    (hw : n < width) (ho : indent < n) (hi : indent ≤ c.column)
    (hc : c.rest = chars form n column split value.toList ++ tail) :
    (poised c allowed tokens indent indents).scanToken = .ok (some (behindScalar c (c.moveTo rest) allowed spansLines
      tokens (.scalar value (decide (form = .plain))) indent indents)) := by
  cases hf with
  | plain hp hne =>
    have hchars : c.rest = plainChars n split true column value.toList ++ tail := hc
    obtain ⟨hsolid, hstarts⟩ := solid_plainChars hp hne hl.head n column split
    have hlength : value.toList.length < c.rest.length + 1 := by
      have hle := length_plainChars n column split true value.toList
      rw [hchars, List.length_append]
      omega
    have hpieces : plainPieces false (indent + 1) (c.rest.length + 1) c.column c.rest =
        (value.toList, spansLines, rest) := by
      rw [hchars] at hlength ⊢
      exact plainPieces_plainChars hn (by omega) (plainly_of_allowsPlain hp) hne hl.ends (by omega) hlength
    refine scanToken_plain (hchars ▸ hsolid) (hchars ▸ hstarts) ?_ hi
    unfold Lexeme.plain
    rw [hpieces]
    simp
  | single hs =>
    obtain ⟨rfl, rfl⟩ := hl.quoted (by decide)
    have hchars : c.rest = '\'' :: (singleChars n split true false (column + 1) value.toList ++ '\'' :: rest) := by
      rw [hc]
      simp [chars]
    have hquotes : Quotes false (singleChars n split true false (column + 1) value.toList ++ '\'' :: rest) value.toList
        rest := quotes_singleChars hn (head_ne_quote hl.head) hs fun h => absurd h Bool.false_ne_true
    refine scanToken_quoted false hchars ?_ hi
    rw [hchars]
    exact quotedToken_eq false hquotes '\''
  | double =>
    obtain ⟨rfl, rfl⟩ := hl.quoted (by decide)
    have hchars : c.rest = '"' :: (doubleChars n split true true (column + 1) value.toList ++ '"' :: rest) := by
      rw [hc]
      simp [chars]
    refine scanToken_quoted true hchars ?_ hi
    rw [hchars]
    exact quotedToken_eq true (quotes_doubleChars hn hw) '"'

theorem chars_ne_nil {text : List Char} (hf : Fits form text) (n column : Nat) (split : Bool) :
    chars form n column split text ≠ [] := by
  cases hf with
  | plain _ hne =>
    have hlength := length_plainChars n column split true text
    have hpos := List.length_pos_iff.2 hne
    exact List.length_pos_iff.1 (Nat.lt_of_lt_of_le hpos hlength)
  | single => exact List.cons_ne_nil _ _
  | double => exact List.cons_ne_nil _ _

theorem solid_chars {text : List Char} (hf : Fits form text) (ht : tail.head?.all fun c => c = '\n' || c = ':')
    (n column : Nat) (split : Bool) : Solid (chars form n column split text ++ tail) := by
  cases hf with
  | plain hp hne => exact (solid_plainChars hp hne ht n column split).1
  | single => exact solid_cons (by decide) (by decide) (by decide) (atSeparator_cons (by decide) (by decide))
  | double => exact solid_cons (by decide) (by decide) (by decide) (atSeparator_cons (by decide) (by decide))

variable (allowed tokens indent indents) in
theorem poised_chars {k : Nat} {next : List Char} (hf : Fits form value.toList) (hn : 0 < n) (hw : n < width)
    (ho : indent < n) (hi : indent < c.column) (hs : Solid next) (hk : k ≤ indent)
    (hc : c.rest = chars form n column split value.toList ++ (newLine k ++ next)) :
    ∃ s, (poised c allowed tokens indent indents).scanToken = .ok (some s) ∧
      s.cursor.rest.length < c.rest.length ∧
      Poised s true next k (tokens ++ [.scalar value (decide (form = .plain))]) indent indents := by
  have hpos := List.length_pos_iff.2 (chars_ne_nil hf n column split)
  have hkey := expected_of_lt allowed tokens hi
  by_cases hplain : form = .plain
  · subst hplain
    have hleaves : Leaves indent .plain (newLine k ++ next) true next := .line hs hk
    obtain ⟨hrest, hcolumn, hline⟩ := Cursor.moveTo_newLine hc
    have hpoised := Poised.of_text (s := behindScalar c (c.moveTo next) allowed true tokens (.scalar value true) indent
      indents) hrest hs rfl fun entry hin => ⟨(hkey entry hin).1, by
        rw [(hkey entry hin).2]
        exact Nat.ne_of_lt hline⟩
    refine ⟨_, scanToken_chars hf hleaves hn hw ho (by omega) hc, ?_, ?_⟩
    · have hshort : (c.moveTo next).rest.length < c.rest.length := by
        rw [hrest, hc, List.length_append, List.length_append]
        omega
      exact hshort
    · rw [← hcolumn]
      exact hpoised
  · have hleaves : Leaves indent form (newLine k ++ next) false (newLine k ++ next) := .quote hplain
    have hover := Cursor.over_moveTo hc
    refine ⟨_, scanToken_chars hf hleaves hn hw ho (by omega) hc, ?_, ?_⟩
    · have hshort : (c.moveTo (newLine k ++ next)).rest.length < c.rest.length := by
        have hlength := congrArg List.length hc
        rw [List.length_append] at hlength
        rw [hover.rest]
        omega
      exact hshort
    · exact Poised.of_newLine hover.rest hs rfl fun entry hin => ⟨(hkey entry hin).1, by
      rw [(hkey entry hin).2]
      exact hover.line⟩

end Written

theorem dropStale_behindScalar (hl : d.line = c.line) (hx : d.index ≤ c.index + maxKey) :
    (behindScalar c d true spansLines tokens token indent indents).dropStale =
      .ok (behindScalar c d true spansLines tokens token indent indents) := by
  have hlong : ¬ maxKey < d.index - c.index := by omega
  unfold dropStale
  simp [behindScalar, expected, poised, hl, hlong]
  rfl

theorem unwind_behindScalar (hi : indent ≤ d.column) :
    (behindScalar c d allowed spansLines tokens token indent indents).unwind d.column =
      behindScalar c d allowed spansLines tokens token indent indents := by
  have hstack := unwindTo_stack (s := behindScalar c d allowed spansLines tokens token indent indents) d.column [] rfl
    (fun i hi => absurd hi List.not_mem_nil) hi
  refine hstack.trans ?_
  simp [behindScalar, poised]

variable (d spansLines tokens token indents) in
theorem scanValue_behindScalar (hi : indent ≤ c.column) :
    (behindScalar c d true spansLines tokens token indent indents).scanValue =
      .ok (poised d.advance false
        (tokens ++ opening .blockMappingStart indent c.column ++ [.key, token, .value]) c.column
        (enclosing indent c.column indents)) := by
  have hpending : (behindScalar c d true spansLines tokens token indent indents).pendingHere? =
      some ⟨tokens.length, decide (indent = c.column), c.index, c.line, c.column⟩ := rfl
  have hforget : (behindScalar c d true spansLines tokens token indent indents).forgetPending =
      poised d spansLines (tokens ++ [token]) indent indents := rfl
  have hflow : (poised d spansLines (tokens ++ [token]) indent indents).inFlow = false := rfl
  unfold scanValue
  simp only [hpending, hforget, hflow]
  by_cases hlt : indent < c.column
  · rw [opening_of_lt hlt, enclosing_of_lt hlt]
    simp [openBlock, poised, hlt, take, Cursor.skip, pure, Except.pure]
  · obtain rfl : indent = c.column := by omega
    simp [openBlock, poised, take, Cursor.skip, pure, Except.pure]

theorem scanToken_colon (hd : d.rest = ':' :: text) (hg : endsWord text.head?) (hl : d.line = c.line)
    (hx : d.index ≤ c.index + maxKey) (hi : indent ≤ c.column) (hc : c.column ≤ d.column) :
    (behindScalar c d true spansLines tokens token indent indents).scanToken =
      .ok (some (poised d.advance false (tokens ++ opening .blockMappingStart indent c.column ++ [.key, token, .value])
        c.column (enclosing indent c.column indents))) := by
  have hsolid : Solid (':' :: text) := solid_mark .value hg
  have hseparator : atSeparator (':' :: text) = false := hsolid.separator
  have hcursor : (behindScalar c d true spansLines tokens token indent indents).cursor = d := rfl
  have hflow : (behindScalar c d true spansLines tokens token indent indents).inFlow = false := rfl
  have hvalue := scanValue_behindScalar d spansLines tokens token indents hi
  have hmark : (behindScalar c d true spansLines tokens token indent indents).skipMark =
      behindScalar c d true spansLines tokens token indent indents := by
    refine skipMark_eq ?_
    rw [hcursor, hd]
    exact hsolid.mark
  unfold scanToken
  rw [hmark, skipBlank_solid hd hsolid, dropStale_behindScalar hl hx]
  simp only [bind, Except.bind, Scanner.column, hcursor, unwind_behindScalar (Int.le_trans hi (Int.ofNat_le.2 hc)), hd]
  simp [hseparator, hg, hvalue]

variable (tokens indents) in
theorem scanToken_key {form : Form} {n column : Nat} (hf : Fits form value.toList) (hn : 0 < n) (hw : n < width)
    (ho : indent < n) (hi : indent ≤ c.column) (hm : isMultiline value.toList = false)
    (hx : (chars form n column false value.toList).length ≤ maxKey) (hg : endsWord text.head?)
    (hc : c.rest = chars form n column false value.toList ++ ':' :: text) :
    ∃ s, (poised c true tokens indent indents).scanToken = .ok (some s) ∧ s.cursor.rest = ':' :: text ∧
      s.cursor.rest.length < c.rest.length ∧ ∃ d : Cursor, d.rest = text ∧ c.column < d.column ∧
        s.scanToken = .ok (some (poised d false (tokens ++ opening .blockMappingStart indent c.column ++
          [.key, .scalar value (decide (form = .plain)), .value]) c.column (enclosing indent c.column indents))) := by
  have hleaves : Leaves indent form (':' :: text) false (':' :: text) := .colon hg
  have hover := Cursor.over_moveTo hc
  have hsame := hover.same (List.any_eq_false.2 fun ch hin => by simp [not_break_of_mem_chars hm hin])
  have hindex : (c.moveTo (':' :: text)).index ≤ c.index + maxKey := by
    rw [hover.index]
    omega
  have hshort : (c.moveTo (':' :: text)).rest.length < c.rest.length := by
    have hpos := List.length_pos_iff.2 (chars_ne_nil hf n column false)
    rw [hover.rest, hc, List.length_append]
    omega
  refine ⟨_, scanToken_chars hf hleaves hn hw ho hi hc, hover.rest, hshort, _, Cursor.advance_rest hover.rest, ?_,
    scanToken_colon hover.rest hg hsame.1 hindex hi hsame.2⟩
  rw [Cursor.advance_column hover.rest (by decide) (by decide)]
  exact Nat.lt_succ_of_le hsame.2

inductive IsEmpty : Char → Char → Token → Token → Prop
  | sequence : IsEmpty '[' ']' .flowSequenceStart .flowSequenceEnd
  | mapping : IsEmpty '\x7b' '\x7d' .flowMappingStart .flowMappingEnd

section Empty

variable {first last : Char} {start finish : Token}

def behindOpening (c : Cursor) (allowed : Bool) (tokens : List Token) (start : Token) (indent : Int)
    (indents : List Int) : Scanner :=
  { poised c.advance true (tokens ++ [start]) indent indents with
    flowLevel := 1
    pending := expected c allowed tokens indent }

theorem scanToken_opening (he : IsEmpty first last start finish) (hc : c.rest = first :: text)
    (hi : indent ≤ c.column) :
    (poised c allowed tokens indent indents).scanToken =
      .ok (some (behindOpening c allowed tokens start indent indents)) := by
  have hopen : (poised c allowed tokens indent indents).openFlow start =
      .ok (behindOpening c allowed tokens start indent indents) := by
    unfold openFlow
    rw [expectKey_poised]
    simp [bind, Except.bind, pure, Except.pure, take, Cursor.skip, poised, behindOpening]
  have hcursor : (poised c allowed tokens indent indents).cursor = c := rfl
  cases he with
  | sequence =>
    have hsolid : Solid ('[' :: text) :=
      solid_cons (by decide) (by decide) (by decide) (atSeparator_cons (by decide) (by decide))
    have hseparator : atSeparator ('[' :: text) = false := hsolid.separator
    unfold scanToken
    rw [hcursor, poised_settled (hc ▸ hsolid)]
    simp only [bind, Except.bind, Scanner.column, hcursor, unwind_poised hi, hc]
    simp [hseparator, hopen]
  | mapping =>
    have hsolid : Solid ('\x7b' :: text) :=
      solid_cons (by decide) (by decide) (by decide) (atSeparator_cons (by decide) (by decide))
    have hseparator : atSeparator ('\x7b' :: text) = false := hsolid.separator
    unfold scanToken
    rw [hcursor, poised_settled (hc ▸ hsolid)]
    simp only [bind, Except.bind, Scanner.column, hcursor, unwind_poised hi, hc]
    simp [hseparator, hopen]

def behindEmpty (c : Cursor) (allowed : Bool) (tokens : List Token) (start finish : Token) (indent : Int)
    (indents : List Int) : Scanner :=
  { poised c.advance.advance false (tokens ++ [start, finish]) indent indents with
    pending := expected c allowed tokens indent }

theorem advance_opening (he : IsEmpty first last start finish) (hc : c.rest = first :: text) :
    c.advance.rest = text ∧ c.advance.line = c.line ∧ c.advance.index = c.index + 1 := by
  unfold Cursor.advance
  rw [hc]
  cases he <;> exact ⟨rfl, rfl, rfl⟩

variable (allowed tokens indent indents) in
theorem dropStale_behindOpening (he : IsEmpty first last start finish) (hc : c.rest = first :: text) :
    (behindOpening c allowed tokens start indent indents).dropStale =
      .ok (behindOpening c allowed tokens start indent indents) := by
  obtain ⟨-, hline, hindex⟩ := advance_opening he hc
  unfold dropStale
  cases allowed with
  | false => rfl
  | true =>
    have hshort : ¬ maxKey < 1 := by decide
    simp [behindOpening, expected, poised, hline, hindex, hshort]
    rfl

variable (c allowed tokens indent indents start finish) in
theorem closeFlow_behindOpening :
    (behindOpening c allowed tokens start indent indents).closeFlow finish =
      .ok (behindEmpty c allowed tokens start finish indent indents) := by
  have hlevel : (behindOpening c allowed tokens start indent indents).flowLevel ≠ 0 := by simp [behindOpening]
  have hdrop : (behindOpening c allowed tokens start indent indents).dropPending =
      .ok (behindOpening c allowed tokens start indent indents) := by
    cases allowed <;> rfl
  unfold closeFlow
  rw [if_neg hlevel, hdrop]
  simp [bind, Except.bind, pure, Except.pure, take, Cursor.skip, poised, behindOpening, behindEmpty]

theorem scanToken_closing (he : IsEmpty first last start finish) (hc : c.rest = first :: last :: text) :
    (behindOpening c allowed tokens start indent indents).scanToken =
      .ok (some (behindEmpty c allowed tokens start finish indent indents)) := by
  obtain ⟨hrest, -⟩ := advance_opening he hc
  have hstale := dropStale_behindOpening allowed tokens indent indents he hc
  have hcursor : (behindOpening c allowed tokens start indent indents).cursor = c.advance := rfl
  have hunwind (column : Int) : (behindOpening c allowed tokens start indent indents).unwind column =
      behindOpening c allowed tokens start indent indents := rfl
  have hclose := closeFlow_behindOpening c allowed tokens indent indents start finish
  have hsolid : Solid (last :: text) := by
    cases he <;> exact solid_cons (by decide) (by decide) (by decide) (atSeparator_cons (by decide) (by decide))
  have hseparator : atSeparator (last :: text) = false := hsolid.separator
  have hmark : (behindOpening c allowed tokens start indent indents).skipMark =
      behindOpening c allowed tokens start indent indents := by
    refine skipMark_eq ?_
    rw [hcursor, hrest]
    exact hsolid.mark
  unfold scanToken
  rw [hmark, skipBlank_solid hrest hsolid, hstale]
  simp only [bind, Except.bind, hunwind, hcursor, hrest]
  cases he with
  | sequence => simp [hseparator, hclose]
  | mapping => simp [hseparator, hclose]

theorem poised_empty {k : Nat} {next : List Char} (he : IsEmpty first last start finish) (hi : indent < c.column)
    (hs : Solid next) (hc : c.rest = first :: last :: (newLine k ++ next)) :
    Poised (behindEmpty c allowed tokens start finish indent indents) true next k (tokens ++ [start, finish]) indent
      indents := by
  obtain ⟨hrest, hline, -⟩ := advance_opening he hc
  have hlast : c.advance.advance.rest = newLine k ++ next ∧ c.advance.advance.line = c.advance.line := by
    unfold Cursor.advance at hrest ⊢
    rw [hrest]
    cases he <;> exact ⟨rfl, rfl⟩
  have hkey := expected_of_lt allowed tokens hi
  exact Poised.of_newLine hlast.1 hs rfl fun entry hin => ⟨(hkey entry hin).1, by
    rw [(hkey entry hin).2]
    exact Nat.le_of_eq (hlast.2.trans hline).symm⟩

end Empty

end Scanner

end CaveMap.Yaml
