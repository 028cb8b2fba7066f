import CaveMap.Proofs.Yaml.Plain
import CaveMap.Yaml.Token

namespace CaveMap.Yaml

open Implicit Lexeme Written

namespace Cursor

variable {c : Cursor} {front rest : List Char}

theorem skip_succ (c : Cursor) (n : Nat) : c.skip (n + 1) = c.advance.skip n := rfl

theorem skip_add (c : Cursor) (m n : Nat) : c.skip (m + n) = (c.skip m).skip n := by
  induction m generalizing c with
  | zero => rw [Nat.zero_add]; rfl
  | succ m ih => rw [Nat.succ_add, skip_succ, skip_succ, ih]

theorem advance_rest {ch : Char} (h : c.rest = ch :: rest) : c.advance.rest = rest := by
  unfold advance
  rw [h]
  dsimp only
  split <;> rfl

theorem length_advance {ch : Char} (h : c.rest = ch :: rest) : c.advance.rest.length < c.rest.length := by
  rw [advance_rest h, h]
  exact Nat.lt_succ_self _

theorem advance_column {ch : Char} (h : c.rest = ch :: rest) (hk : isBreak ch = false) (hm : ch ≠ byteOrderMark) :
    c.advance.column = c.column + 1 := by
  unfold advance
  rw [h]
  simp [hk, hm]

/-- Where a cursor is behind some text. -/
structure Over (c d : Cursor) (front rest : List Char) : Prop where
  rest : d.rest = rest
  index : d.index = c.index + front.length
  line : c.line ≤ d.line
  later : front.any isBreak → c.line < d.line
  same : front.any isBreak = false → d.line = c.line ∧ c.column ≤ d.column

theorem over_skip (h : c.rest = front ++ rest) : Over c (c.skip front.length) front rest := by
  induction front generalizing c with
  | nil => exact ⟨h, rfl, Nat.le_refl _, by simp, fun _ => ⟨rfl, Nat.le_refl _⟩⟩
  | cons ch front ih =>
    have hnext := ih (advance_rest h)
    rw [List.length_cons, skip_succ]
    have hindex : c.advance.index = c.index + 1 := by
      unfold advance
      rw [h]
      dsimp only [List.cons_append]
      split <;> rfl
    by_cases hk : isBreak ch
    · have hline : c.advance.line = c.line + 1 := by
        unfold advance
        rw [h]
        simp [hk]
      refine ⟨hnext.rest, ?_, ?_, fun _ => ?_, fun hnone => ?_⟩
      · rw [hnext.index, hindex, List.length_cons]
        omega
      · have hle := hnext.line
        omega
      · have hle := hnext.line
        omega
      · simp [hk] at hnone
    · have hk' : isBreak ch = false := by simpa using hk
      have hline : c.advance.line = c.line ∧ c.column ≤ c.advance.column := by
        unfold advance
        rw [h]
        simp only [List.cons_append, hk', Bool.false_eq_true, if_false, true_and]
        split <;> omega
      refine ⟨hnext.rest, ?_, ?_, fun hsome => ?_, fun hnone => ?_⟩
      · rw [hnext.index, hindex, List.length_cons]
        omega
      · have hle := hnext.line
        omega
      · rw [List.any_cons, hk', Bool.false_or] at hsome
        have hlt := hnext.later hsome
        omega
      · rw [List.any_cons, hk', Bool.false_or] at hnone
        obtain ⟨hsame, hcolumn⟩ := hnext.same hnone
        exact ⟨by omega, by omega⟩

theorem moveTo_eq (h : c.rest = front ++ rest) : c.moveTo rest = c.skip front.length := by
  rw [moveTo, h, List.length_append, Nat.add_sub_cancel]

theorem over_moveTo (h : c.rest = front ++ rest) : Over c (c.moveTo rest) front rest := by
  rw [moveTo_eq h]
  exact over_skip h

theorem skip_spaces (n : Nat) (h : c.rest = spaces n ++ rest) : (c.skip n).column = c.column + n := by
  induction n generalizing c with
  | zero => rfl
  | succ n ih =>
    have hrest : c.rest = ' ' :: (spaces n ++ rest) := h
    have hcolumn : c.advance.column = c.column + 1 := advance_column hrest (by decide) (by decide)
    rw [skip_succ, ih (advance_rest hrest), hcolumn]
    omega

theorem skip_newLine (n : Nat) (h : c.rest = newLine n ++ rest) : (c.skip (n + 1)).column = n := by
  have hrest : c.rest = '\n' :: (spaces n ++ rest) := h
  have hcolumn : c.advance.column = 0 := by
    unfold advance
    rw [hrest]
    rfl
  rw [skip_succ, skip_spaces n (advance_rest hrest), hcolumn, Nat.zero_add]

theorem moveTo_newLine {n : Nat} (h : c.rest = front ++ (newLine n ++ rest)) :
    (c.moveTo rest).rest = rest ∧ (c.moveTo rest).column = n ∧ c.line < (c.moveTo rest).line := by
  have hsplit : c.rest = (front ++ newLine n) ++ rest := by rw [h, List.append_assoc]
  have hover := over_moveTo hsplit
  have hlength : (front ++ newLine n).length = front.length + (n + 1) := by simp [newLine, spaces]
  refine ⟨hover.rest, ?_, hover.later (by simp [newLine, isBreak])⟩
  rw [moveTo_eq hsplit, hlength, skip_add]
  exact skip_newLine n (over_skip h).rest

end Cursor

namespace Scanner

section Blank

variable {s : Scanner} {text : List Char}

theorem skipBlank_spaces (n fuel : Nat) (h : s.cursor.rest = spaces n ++ text) (ht : Solid text) :
    s.skipBlank (fuel + 1) = { s with cursor := s.cursor.skip n } := by
  have hdrop : s.cursor.rest.dropWhile (· = ' ') = text := by
    rw [h]
    exact (takeWhile_spaces n ht.not_space).2
  have hmove : s.cursor.moveTo text = s.cursor.skip n := by
    rw [Cursor.moveTo_eq h, spaces, List.length_replicate]
  have hbreak : text.head?.any isBreak = false := by
    cases text with
    | nil => rfl
    | cons c text =>
      have hc : isGap c = false := by simpa using ht.head
      simp only [isGap, Bool.or_eq_false_iff] at hc
      exact hc.2
  rw [skipBlank]
  simp only [hdrop, if_neg ht.comment, hmove, hbreak, Bool.false_eq_true, if_false]

theorem skipBlank_newLine (n fuel : Nat) (h : s.cursor.rest = newLine n ++ text) (ht : Solid text) :
    s.skipBlank (fuel + 2) =
      { s with cursor := s.cursor.skip (n + 1), keyAllowed := s.keyAllowed || !s.inFlow } := by
  have hrest : s.cursor.rest = '\n' :: (spaces n ++ text) := h
  have hdrop : s.cursor.rest.dropWhile (· = ' ') = '\n' :: (spaces n ++ text) := by
    rw [hrest]
    exact List.dropWhile_cons_of_neg (by decide)
  have hmove : s.cursor.moveTo ('\n' :: (spaces n ++ text)) = s.cursor := by
    rw [Cursor.moveTo, hrest, Nat.sub_self]
    rfl
  have hbreak : isBreak '\n' = true := by decide
  have hhash : ('\n' = '#') = False := by decide
  rw [skipBlank]
  simp only [hdrop, List.head?_cons, Option.some.injEq, hhash, if_false, hmove, Option.any_some, hbreak, if_true]
  exact skipBlank_spaces n fuel (Cursor.advance_rest hrest) ht

theorem skipMark_eq (h : s.cursor.rest.head? ≠ some byteOrderMark) : s.skipMark = s := by
  unfold skipMark
  rw [if_neg]
  exact fun hmark => h hmark.2

end Blank

theorem unwindTo_stack (column : Int) (inner : List Int) {s : Scanner} {indent : Int} {indents : List Int}
    (hs : s.indent :: s.indents = inner ++ indent :: indents) (hi : ∀ i ∈ inner, column < i)
    (hm : indent ≤ column) : unwindTo column s.indents s =
      { s with
        tokens := (s.tokens.toList ++ List.replicate inner.length Token.blockEnd).toArray
        indent := indent
        indents := indents } := by
  induction inner generalizing s with
  | nil =>
    obtain ⟨rfl, rfl⟩ := List.cons.inj hs
    have hnot : ¬ column < s.indent := by omega
    have hself : { s with tokens := (s.tokens.toList ++ List.replicate 0 Token.blockEnd).toArray } = s := by simp
    rw [List.length_nil, hself]
    cases hd : s.indents with
    | nil => rfl
    | cons outer rest => rw [unwindTo, if_neg hnot]
  | cons i inner ih =>
    obtain ⟨hindent, hindents⟩ := List.cons.inj hs
    have hlt : column < s.indent := by
      rw [hindent]
      exact hi i List.mem_cons_self
    obtain ⟨outer, rest, hrest⟩ : ∃ outer rest, s.indents = outer :: rest := by
      cases hd : s.indents with
      | nil =>
        rw [hd] at hindents
        exact absurd hindents.symm (by simp)
      | cons outer rest => exact ⟨outer, rest, rfl⟩
    have hnext := ih (s := { s with indent := outer, indents := rest }.emit .blockEnd)
      (hrest.symm.trans hindents) fun j hj => hi j (List.mem_cons_of_mem i hj)
    rw [hrest, unwindTo, if_pos hlt]
    refine hnext.trans ?_
    simp [emit, List.replicate_succ]

/-- What comes next for a scanner, once it has skipped blanks and closed the blocks that end there. -/
structure Poised (s : Scanner) (allowed : Bool) (text : List Char) (column : Nat) (tokens : List Token)
    (indent : Int) (indents : List Int) : Prop where
  solid : Solid text
  length : text.length ≤ s.cursor.rest.length
  settled : ∃ c : Cursor, c.rest = text ∧ c.column = column ∧
    s.skipMark.skipBlank (s.cursor.rest.length + 1) = { s with cursor := c, keyAllowed := allowed } ∧
    ∀ entry ∈ s.pending, entry.2.required = false ∧ entry.2.line ≠ c.line
  flow : s.flowLevel = 0
  stack : ∃ inner : List Int, s.indent :: s.indents = inner ++ indent :: indents ∧
    (∀ i ∈ inner, (column : Int) < i) ∧ tokens = s.tokens.toList ++ List.replicate inner.length Token.blockEnd

def poised (c : Cursor) (allowed : Bool) (tokens : List Token) (indent : Int) (indents : List Int) : Scanner :=
  { cursor := c, tokens := tokens.toArray, indent, indents, keyAllowed := allowed }

section Poised

variable {s : Scanner} {c : Cursor} {allowed : Bool} {text : List Char} {column : Nat} {tokens : List Token}
  {indent : Int} {indents : List Int}

theorem dropStale_eq (h : ∀ entry ∈ s.pending, entry.2.required = false ∧ entry.2.line ≠ s.cursor.line) :
    s.dropStale = .ok { s with pending := [] } := by
  unfold dropStale
  dsimp only
  rw [if_neg]
  · have hnone : s.pending.filter (fun x => !(decide (x.2.line ≠ s.cursor.line) ||
        decide (maxKey < s.cursor.index - x.2.index))) = [] :=
      List.filter_eq_nil_iff.2 fun entry hin => by simp [(h entry hin).2]
    exact congrArg Except.ok (congrArg (fun pending => { s with pending := pending }) hnone)
  · intro hany
    obtain ⟨entry, hin, hstale⟩ := List.any_eq_true.1 hany
    have hrequired := (h entry hin).1
    simp [hrequired] at hstale

theorem skipBlank_solid (h : s.cursor.rest = text) (ht : Solid text) (fuel : Nat) : s.skipBlank (fuel + 1) = s :=
  skipBlank_spaces 0 fuel h ht

theorem poised_settled (ht : Solid c.rest) :
    ((poised c allowed tokens indent indents).skipMark.skipBlank (c.rest.length + 1)).dropStale =
      .ok (poised c allowed tokens indent indents) := by
  have hmark : (poised c allowed tokens indent indents).skipMark = poised c allowed tokens indent indents :=
    skipMark_eq ht.mark
  rw [hmark, skipBlank_solid rfl ht]
  exact dropStale_eq fun entry hin => absurd hin List.not_mem_nil

theorem unwind_poised (hi : indent ≤ c.column) :
    (poised c allowed tokens indent indents).unwind c.column = poised c allowed tokens indent indents := by
  have hstack := unwindTo_stack (s := poised c allowed tokens indent indents) c.column [] rfl
    (fun i hi => absurd hi List.not_mem_nil) hi
  refine hstack.trans ?_
  simp [poised]

namespace Poised

/-- Nothing but the text, the tokens and the open blocks counts for the next token. -/
theorem scanToken (h : Poised s allowed text column tokens indent indents) (hi : indent ≤ column) :
    ∃ c : Cursor, c.rest = text ∧ c.column = column ∧
      s.scanToken = (poised c allowed tokens indent indents).scanToken := by
  obtain ⟨c, hrest, hcolumn, hblank, hpending⟩ := h.settled
  obtain ⟨inner, hstack, hinner, htokens⟩ := h.stack
  refine ⟨c, hrest, hcolumn, ?_⟩
  have hstale : (s.skipMark.skipBlank (s.cursor.rest.length + 1)).dropStale =
      .ok { s with cursor := c, keyAllowed := allowed, pending := [] } := by
    rw [hblank]
    exact dropStale_eq hpending
  have hsolid : Solid c.rest := by
    rw [hrest]
    exact h.solid
  have hunwind : ({ s with cursor := c, keyAllowed := allowed, pending := [] } : Scanner).unwind c.column =
      poised c allowed tokens indent indents := by
    have hflow : ({ s with cursor := c, keyAllowed := allowed, pending := [] } : Scanner).inFlow = false := by
      simp [inFlow, h.flow]
    rw [unwind, hflow, if_neg Bool.false_ne_true]
    have hunwound := unwindTo_stack (s := { s with cursor := c, keyAllowed := allowed, pending := [] }) c.column
      inner hstack (hcolumn ▸ hinner) (hcolumn ▸ hi)
    refine hunwound.trans ?_
    simp [poised, htokens, h.flow]
  unfold Scanner.scanToken
  rw [hstale]
  have hcursor : (poised c allowed tokens indent indents).cursor = c := rfl
  rw [hcursor, poised_settled hsolid]
  have hunwound : (poised c allowed tokens indent indents).unwind c.column = poised c allowed tokens indent indents :=
    unwind_poised (hcolumn ▸ hi)
  simp only [bind, Except.bind, Scanner.column, hcursor, hunwind, hunwound]

theorem close {outer : Int} (h : Poised s allowed text column tokens indent (outer :: indents))
    (hi : (column : Int) < indent) : Poised s allowed text column (tokens ++ [.blockEnd]) outer indents := by
  obtain ⟨inner, hstack, hinner, htokens⟩ := h.stack
  refine ⟨h.solid, h.length, h.settled, h.flow, inner ++ [indent], ?_, ?_, ?_⟩
  · rw [hstack, List.append_assoc]
    rfl
  · intro i hin
    rcases List.mem_append.1 hin with hin | hin
    · exact hinner i hin
    · rwa [List.mem_singleton.1 hin]
  · rw [htokens, List.length_append, List.length_singleton, List.replicate_succ', List.append_assoc]

theorem of_newLine {k : Nat} (h : s.cursor.rest = newLine k ++ text) (ht : Solid text) (hf : s.flowLevel = 0)
    (hp : ∀ entry ∈ s.pending, entry.2.required = false ∧ entry.2.line ≤ s.cursor.line) :
    Poised s true text k s.tokens.toList s.indent s.indents := by
  have hhead : s.cursor.rest.head? ≠ some byteOrderMark := by
    rw [h]
    simp [newLine, byteOrderMark]
  have hlength : s.cursor.rest.length = text.length + k + 1 := by
    rw [h]
    simp [newLine, spaces]
    omega
  have hover : Cursor.Over s.cursor (s.cursor.skip (newLine k).length) (newLine k) text := Cursor.over_skip h
  have hskip : (newLine k).length = k + 1 := by simp [newLine, spaces]
  rw [hskip] at hover
  refine ⟨ht, by omega, ⟨s.cursor.skip (k + 1), hover.rest, Cursor.skip_newLine k h, ?_, fun entry hin => ?_⟩,
    hf, [], rfl, by simp, by simp⟩
  · have hblank := skipBlank_newLine k (text.length + k) h ht
    have hallowed : (s.keyAllowed || !s.inFlow) = true := by simp [inFlow, hf]
    rw [skipMark_eq hhead, hlength, hblank, hallowed]
  · have hlater := hover.later (by rw [newLine, List.any_cons]; rfl)
    have hentry := hp entry hin
    exact ⟨hentry.1, by omega⟩

theorem of_text (h : s.cursor.rest = text) (ht : Solid text) (hf : s.flowLevel = 0)
    (hp : ∀ entry ∈ s.pending, entry.2.required = false ∧ entry.2.line ≠ s.cursor.line) :
    Poised s s.keyAllowed text s.cursor.column s.tokens.toList s.indent s.indents := by
  have hhead : s.cursor.rest.head? ≠ some byteOrderMark := by
    rw [h]
    exact ht.mark
  refine ⟨ht, by simp [h], ⟨s.cursor, h, rfl, ?_, hp⟩, hf, [], rfl, by simp, by simp⟩
  rw [skipMark_eq hhead, skipBlank_solid h ht]

variable (allowed tokens indent indents) in
theorem behind_space (h : c.rest = ' ' :: text) (ht : Solid text) :
    Poised (poised c allowed tokens indent indents) allowed text (c.column + 1) tokens indent indents := by
  have hhead : (poised c allowed tokens indent indents).cursor.rest.head? ≠ some byteOrderMark := by
    have hrest : (poised c allowed tokens indent indents).cursor.rest = ' ' :: text := h
    rw [hrest]
    simp [byteOrderMark]
  have hspaces : c.rest = spaces 1 ++ text := h
  refine ⟨ht, by simp [poised, h], ⟨c.skip 1, Cursor.advance_rest h, Cursor.skip_spaces 1 hspaces, ?_, ?_⟩,
    rfl, [], rfl, by simp, by simp [poised]⟩
  · rw [skipMark_eq hhead]
    exact skipBlank_spaces 1 _ hspaces ht
  · simp [poised]

variable (allowed tokens indent indents) in
theorem behind_newLine {k : Nat} (h : c.rest = newLine k ++ text) (ht : Solid text) :
    Poised (poised c allowed tokens indent indents) true text k tokens indent indents :=
  of_newLine (s := poised c allowed tokens indent indents) h ht rfl fun _ hin => absurd hin List.not_mem_nil

end Poised

end Poised

/-- The marks in front of entries, keys and values of blocks: the token that a mark gives, and the one that
opens its block. -/
inductive IsMark : Char → Token → Token → Prop
  | entry : IsMark '-' .blockEntry .blockSequenceStart
  | key : IsMark '?' .key .blockMappingStart
  | value : IsMark ':' .value .blockMappingStart

def opening (start : Token) (indent : Int) (column : Nat) : List Token := if indent < column then [start] else []

def enclosing (indent : Int) (column : Nat) (indents : List Int) : List Int :=
  if indent < column then indent :: indents else indents

section Marks

variable {c : Cursor} {allowed : Bool} {text : List Char} {tokens : List Token} {indent : Int}
  {indents : List Int} {mark : Char} {token start : Token}

@[simp] theorem opening_self (start : Token) (column : Nat) : opening start column column = [] :=
  if_neg (Int.lt_irrefl _)

@[simp] theorem enclosing_self (column : Nat) (indents : List Int) : enclosing column column indents = indents :=
  if_neg (Int.lt_irrefl _)

theorem opening_of_lt {column : Nat} (h : indent < column) (start : Token) :
    opening start indent column = [start] := if_pos h

theorem enclosing_of_lt {column : Nat} (h : indent < column) (indents : List Int) :
    enclosing indent column indents = indent :: indents := if_pos h

variable (allowed tokens indents) in
theorem openBlockWith_poised (hi : indent ≤ c.column) (start : Token) :
    (poised c allowed tokens indent indents).openBlockWith start =
      poised c allowed (tokens ++ opening start indent c.column) c.column (enclosing indent c.column indents) := by
  have hcolumn : (poised c allowed tokens indent indents).column = c.column := rfl
  unfold openBlockWith openBlock
  rw [hcolumn]
  by_cases hlt : indent < c.column
  · rw [opening_of_lt hlt, enclosing_of_lt hlt]
    have hpos : (poised c allowed tokens indent indents).indent < c.column := hlt
    rw [if_pos hpos]
    simp [emit, poised]
  · obtain rfl : indent = c.column := by omega
    have hneg : ¬ (poised c allowed tokens c.column indents).indent < c.column := hlt
    simp [hneg]

theorem solid_mark (hm : IsMark mark token start) (hg : endsWord text.head?) : Solid (mark :: text) := by
  cases hm with
  | entry =>
    refine solid_cons (by decide) (by decide) (by decide) ?_
    cases text with
    | nil => rfl
    | cons d text =>
      have hd : d ≠ '-' := by
        rintro rfl
        cases hg
      unfold atSeparator
      split
      · simp_all
      · simp_all
      · rfl
  | key => exact solid_cons (by decide) (by decide) (by decide) (atSeparator_cons (by decide) (by decide))
  | value => exact solid_cons (by decide) (by decide) (by decide) (atSeparator_cons (by decide) (by decide))

theorem dropPending_poised : (poised c allowed tokens indent indents).dropPending =
    .ok (poised c allowed tokens indent indents) := rfl

variable (tokens indent indents) in
theorem scanToken_mark (hm : IsMark mark token start) (hg : endsWord text.head?) (hc : c.rest = mark :: text)
    (hi : indent ≤ c.column) : (poised c true tokens indent indents).scanToken =
      .ok (some (poised c.advance true (tokens ++ opening start indent c.column ++ [token]) c.column
        (enclosing indent c.column indents))) := by
  have hsolid : Solid c.rest := hc ▸ solid_mark hm hg
  have hseparator : atSeparator (mark :: text) = false := (solid_mark hm hg).separator
  have hopen := openBlockWith_poised true tokens indents hi start
  have hcursor : (poised c true tokens indent indents).cursor = c := rfl
  have hflow : (poised c true tokens indent indents).inFlow = false := rfl
  have hallowed : (poised c true tokens indent indents).keyAllowed = true := rfl
  have hnone : (poised c true tokens indent indents).pendingHere? = none := rfl
  unfold scanToken
  rw [hcursor, poised_settled hsolid]
  simp only [bind, Except.bind, Scanner.column, hcursor, unwind_poised hi, hc]
  cases hm with
  | entry =>
    have hentry : (poised c true tokens indent indents).scanBlockEntry =
        .ok (poised c.advance true (tokens ++ opening .blockSequenceStart indent c.column ++ [.blockEntry]) c.column
          (enclosing indent c.column indents)) := by
      unfold scanBlockEntry
      simp only [hflow, hallowed, hopen, Bool.not_true, Bool.and_false, Bool.false_eq_true, if_false,
        dropPending_poised]
      simp [bind, Except.bind, pure, Except.pure, take, poised, Cursor.skip]
    simp [hseparator, hg, hentry]
  | key =>
    have hkey : (poised c true tokens indent indents).scanKey =
        .ok (poised c.advance true (tokens ++ opening .blockMappingStart indent c.column ++ [.key]) c.column
          (enclosing indent c.column indents)) := by
      unfold scanKey
      simp only [hflow, hallowed, hopen, Bool.not_true, Bool.and_false, Bool.false_eq_true, if_false,
        dropPending_poised]
      simp [bind, Except.bind, pure, Except.pure, take, poised, Cursor.skip, inFlow]
    simp [hseparator, hg, hkey]
  | value =>
    have hvalue : (poised c true tokens indent indents).scanValue =
        .ok (poised c.advance true (tokens ++ opening .blockMappingStart indent c.column ++ [.value]) c.column
          (enclosing indent c.column indents)) := by
      unfold scanValue
      simp only [hnone, hflow, hallowed, hopen, Bool.not_true, Bool.and_false, Bool.false_eq_true, if_false]
      simp [bind, Except.bind, pure, Except.pure, take, poised, Cursor.skip, inFlow, dropPending, pendingHere?,
        forgetPending]
    simp [hseparator, hg, hvalue]

end Marks

end Scanner

end CaveMap.Yaml
