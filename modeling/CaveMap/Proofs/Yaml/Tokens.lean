import CaveMap.Proofs.Yaml.Scalar
import CaveMap.Yaml.Load

namespace CaveMap.Yaml

open Implicit Lexeme Written Scanner

/-- A scalar value with its text and its tag: read under this tag, the text gives the value. -/
structure IsScalar (v : Value) (text tag : String) : Prop where
  writable : v.isWritable
  written : scalar? v = some (text, tag)
  tagged : tag.isEmpty = false
  filled : isOwn text tag → text ≠ ""
  breaks : '\u0085' ∉ text.toList
  form : tag = Tag.text ∨ formOf (isOwn text tag) text.toList = .plain
  read : ∀ fuel, (Node.scalar tag text).value (fuel + 1) = .ok v

/-- A key in the form that it has without a mark of its own. -/
def keyText (s : String) : List Char := chars (formOf (isOwn s Tag.text) s.toList) 0 0 false s.toList

/-- Keys without a mark must not be longer than the scanner looks for their colon. -/
structure IsKey (s : String) : Prop where
  breaks : '\u0085' ∉ s.toList
  length : isSimpleKey s Tag.text → (keyText s).length ≤ Scanner.maxKey

/-- A key that is short enough with or without a mark. -/
def IsShortKey (s : String) : Prop := '\u0085' ∉ s.toList ∧ (keyText s).length ≤ Scanner.maxKey

instance (s : String) : Decidable (IsShortKey s) := inferInstanceAs (Decidable (_ ∧ _))

theorem IsShortKey.isKey {s : String} (h : IsShortKey s) : IsKey s := ⟨h.1, fun _ => h.2⟩

/-- Entries whose keys are texts. -/
def textEntries (entries : List (String × Value)) : List (Value × Value) :=
  entries.map fun entry => (.text entry.1, entry.2)

/-- A value that can be read back, with its collections so many levels deep. -/
inductive Storable : Nat → Value → Prop
  | scalar {n : Nat} {v : Value} {text tag : String} : IsScalar v text tag → Storable n v
  | list {n : Nat} {items : List Value} : (∀ item ∈ items, Storable n item) → Storable (n + 1) (.list items)
  | map {n : Nat} {entries : List (String × Value)} : (entries.map (·.1)).Nodup →
    (∀ entry ∈ entries, IsKey entry.1) → (∀ entry ∈ entries, Storable n entry.2) →
      Storable (n + 1) (.map (textEntries entries))

def scalarToken (text tag : String) : Token :=
  .scalar text (decide (formOf (isOwn text tag) text.toList = .plain))

mutual

/-- The tokens of a value behind a mark; a sequence behind a key has no block of its own. -/
def valueTokens (compact : Bool) : Value → List Token
  | .list [] => [.flowSequenceStart, .flowSequenceEnd]
  | .map [] => [.flowMappingStart, .flowMappingEnd]
  | .list items => if compact then .blockSequenceStart :: itemTokens items ++ [.blockEnd] else itemTokens items
  | .map entries => .blockMappingStart :: entryTokens entries ++ [.blockEnd]
  | v =>
    match scalar? v with
    | some (text, tag) => [scalarToken text tag]
    | none => []

def itemTokens : List Value → List Token
  | [] => []
  | item :: rest => .blockEntry :: valueTokens true item ++ itemTokens rest

def entryTokens : List (Value × Value) → List Token
  | [] => []
  | (key, value) :: rest =>
    let (text, tag) := (scalar? key).getD ("", Tag.text)
    .key :: scalarToken text tag :: .value :: valueTokens (!isSimpleKey text tag) value ++ entryTokens rest

end

theorem valueTokens_sequence (compact : Bool) {items : List Value} (h : items ≠ []) :
    valueTokens compact (.list items) =
      if compact then .blockSequenceStart :: itemTokens items ++ [.blockEnd] else itemTokens items := by
  cases items with
  | nil => exact absurd rfl h
  | cons item rest => simp [valueTokens]

theorem valueTokens_mapping (compact : Bool) {entries : List (Value × Value)} (h : entries ≠ []) :
    valueTokens compact (.map entries) = .blockMappingStart :: entryTokens entries ++ [.blockEnd] := by
  cases entries with
  | nil => exact absurd rfl h
  | cons entry rest => simp [valueTokens]

theorem IsScalar.valueTokens {v : Value} {text tag : String} (h : IsScalar v text tag) (compact : Bool) :
    valueTokens compact v = [scalarToken text tag] := by
  have hwritten := h.written
  cases v with
  | list items =>
    cases items with
    | nil =>
      cases hwritten
      exact absurd h.tagged (by decide)
    | cons => cases hwritten
  | map entries =>
    cases entries with
    | nil =>
      cases hwritten
      exact absurd h.tagged (by decide)
    | cons => cases hwritten
  | _ =>
    rw [Yaml.valueTokens, hwritten]
    all_goals simp

section Begin

variable {v : Value} {n : Nat} {tail : List Char}

theorem behindMark_scalar {text tag : String} (h : IsScalar v text tag) (indent column : Nat) (compact : Bool) :
    behindMark indent column compact v =
      ' ' :: chars (formOf (isOwn text tag) text.toList) (indent + 2) (column + 1) true text.toList := by
  rw [behindMark.eq_def, h.written]
  simp only [scalarChars, h.tagged, Bool.false_eq_true, if_false]

theorem behindMark_sequence {items : List Value} (h : items ≠ []) (indent column : Nat) (compact : Bool) :
    behindMark indent column compact (.list items) =
      if compact then ' ' :: sequence (indent + 2) items else newLine indent ++ sequence indent items := by
  cases items with
  | nil => exact absurd rfl h
  | cons item rest => simp [behindMark, scalar?]

theorem behindMark_mapping {entries : List (Value × Value)} (h : entries ≠ []) (indent column : Nat) (compact : Bool) :
    behindMark indent column compact (.map entries) =
      (if compact then [' '] else newLine (indent + 2)) ++ mapping (indent + 2) entries := by
  cases entries with
  | nil => exact absurd rfl h
  | cons entry rest => simp [behindMark, scalar?]

theorem behindMark_nil (indent column : Nat) (compact : Bool) :
    behindMark indent column compact (.list []) = [' ', '[', ']'] ∧
      behindMark indent column compact (.map []) = [' ', '\x7b', '\x7d'] := by
  have htexts : "[]".toList = ['[', ']'] ∧ "\x7b\x7d".toList = ['\x7b', '\x7d'] := ⟨rfl, rfl⟩
  constructor
  · simp [behindMark, scalar?, scalarChars]
  · simp [behindMark, scalar?, scalarChars]

theorem endsWord_behindMark (h : Storable n v) (indent column : Nat) (compact : Bool) (tail : List Char) :
    endsWord (behindMark indent column compact v ++ tail).head? := by
  have hspace : endsWord (some ' ') := by decide
  have hline : endsWord (some '\n') := by decide
  cases h with
  | scalar hs =>
    rw [behindMark_scalar hs]
    exact hspace
  | @list n items _ =>
    by_cases hi : items = []
    · rw [hi, (behindMark_nil indent column compact).1]
      exact hspace
    · rw [behindMark_sequence hi]
      cases compact with
      | true => exact hspace
      | false => exact hline
  | @map n entries =>
    by_cases he : entries = []
    · rw [he]
      exact hspace
    · rw [behindMark_mapping (by simpa [textEntries] using he)]
      cases compact with
      | true => exact hspace
      | false => exact hline

end Begin

section Unsplit

variable {text : List Char}

theorem plainChars_unsplit (indent column : Nat) (afterSpace : Bool) :
    plainChars indent false afterSpace column text = text := by
  induction text generalizing afterSpace column with
  | nil => rfl
  | cons c text ih => rw [plainChars_char fun _ => by simp [folds], ih]

theorem singleChars_unsplit (h : isMultiline text = false) (indent indent' column column' : Nat)
    (afterSpace afterSpace' afterBreak afterBreak' : Bool) :
    singleChars indent false afterSpace afterBreak column text =
      singleChars indent' false afterSpace' afterBreak' column' text := by
  induction text generalizing afterSpace afterSpace' afterBreak afterBreak' column column' with
  | nil => rfl
  | cons c text ih =>
    rw [isMultiline, List.any_cons, Bool.or_eq_false_iff] at h
    by_cases hq : c = '\''
    · subst hq
      rw [singleChars_quote, singleChars_quote, ih h.2]
    · rw [singleChars_char h.1 hq fun _ => by simp [folds], singleChars_char h.1 hq fun _ => by simp [folds], ih h.2]

theorem doubleChars_unsplit (indent indent' column column' : Nat) (first first' fresh fresh' : Bool) :
    doubleChars indent false first fresh column text = doubleChars indent' false first' fresh' column' text := by
  induction text generalizing first first' fresh fresh' column column' with
  | nil => rfl
  | cons c text ih =>
    rw [doubleChars, doubleChars]
    simp only [Bool.false_and, Bool.false_eq_true, if_false]
    split
    · exact congrArg (escaped c ++ ·) (ih _ _ _ _ _ _)
    · exact congrArg (c :: ·) (ih _ _ _ _ _ _)

theorem chars_unsplit (h : isMultiline text = false) (form : Form) (indent column : Nat) :
    chars form indent column false text = chars form 0 0 false text := by
  cases form with
  | plain => exact (plainChars_unsplit indent column true).trans (plainChars_unsplit 0 0 true).symm
  | single =>
    exact congrArg (fun body => '\'' :: body ++ ['\'']) (singleChars_unsplit h _ _ _ _ _ _ _ _)
  | double =>
    exact congrArg (fun body => '"' :: body ++ ['"']) (doubleChars_unsplit _ _ _ _ _ _ _ _)

theorem length_escaped_le (c : Char) : (escaped c).length ≤ 10 := by
  unfold escaped
  split
  case h_16 =>
    rw [List.length_cons]
    split
    · simp [length_upperHex]
    · split <;> simp [length_upperHex]
  all_goals decide

theorem length_singleChars_unsplit_le (column : Nat) (afterSpace afterBreak : Bool) (text : List Char) :
    (singleChars 0 false afterSpace afterBreak column text).length ≤ 2 * text.length := by
  induction text generalizing afterSpace afterBreak column with
  | nil => exact Nat.zero_le _
  | cons c text ih =>
    by_cases hk : isBreak c
    · have hrest := ih 0 false true
      have hdoubled : (if !afterBreak && c = '\n' then ['\n'] else []).length ≤ 1 := by split <;> decide
      have hspaces : (if text.head?.any isBreak then [] else spaces 0) = [] := ite_self _
      rw [singleChars_break hk, hspaces, ite_self, List.nil_append, List.length_append, List.length_cons,
        List.length_cons]
      omega
    · by_cases hq : c = '\''
      · have hrest := ih (column + 2) false false
        rw [hq, singleChars_quote, List.length_cons, List.length_cons, List.length_cons]
        omega
      · have hrest := ih (column + 1) (c = ' ') false
        rw [singleChars_char (by simpa using hk) hq fun _ => by simp [folds], List.length_cons, List.length_cons]
        omega

theorem length_doubleChars_unsplit_le (indent column : Nat) (first fresh : Bool) (text : List Char) :
    (doubleChars indent false first fresh column text).length ≤ 10 * text.length := by
  induction text generalizing first fresh column with
  | nil => exact Nat.zero_le _
  | cons c text ih =>
    rw [doubleChars, List.length_cons]
    simp only [Bool.false_and, Bool.false_eq_true, if_false]
    split
    · have hescaped := length_escaped_le c
      have hrest := ih (column + (escaped c).length) false true
      rw [List.length_append]
      omega
    · have hrest := ih (column + 1) false false
      rw [List.length_cons]
      omega

theorem length_chars_unsplit_le (form : Form) (column : Nat) (text : List Char) :
    (chars form 0 column false text).length ≤ 10 * text.length + 2 := by
  cases form with
  | plain =>
    rw [chars, plainChars_unsplit]
    omega
  | single =>
    have h := length_singleChars_unsplit_le (column + 1) true false text
    rw [chars, List.length_append, List.length_cons, List.length_singleton]
    omega
  | double =>
    have h := length_doubleChars_unsplit_le 0 (column + 1) true true text
    rw [chars, List.length_append, List.length_cons, List.length_singleton]
    omega

end Unsplit

section Keys

variable {s : String} {tail : List Char}

theorem tagOf_empty : isOwn "" Tag.text = false := by decide

theorem IsKey.fits (h : IsKey s) : Fits (formOf (isOwn s Tag.text) s.toList) s.toList := by
  refine fits_formOf h.breaks fun hown hnil => ?_
  rw [String.toList_eq_nil_iff.1 hnil, tagOf_empty] at hown
  cases hown

/-- So many characters fit in front of a colon even if each of them has to be escaped. -/
theorem IsShortKey.of_length (h : '\u0085' ∉ s.toList) (hlength : s.toList.length ≤ 102) : IsShortKey s := by
  have hchars := length_chars_unsplit_le (formOf (isOwn s Tag.text) s.toList) 0 s.toList
  refine ⟨h, ?_⟩
  rw [keyText, Scanner.maxKey]
  omega

theorem isMultiline_of_isSimpleKey (h : isSimpleKey s Tag.text) : isMultiline s.toList = false := by
  have htag : Tag.text.isEmpty = false := by decide
  rw [isSimpleKey, htag] at h
  simp only [Bool.false_or, Bool.and_eq_true, Bool.not_eq_true'] at h
  exact h.1.2

theorem keyChars_simple (h : isSimpleKey s Tag.text) (indent : Nat) :
    keyChars indent (.text s) = (keyText s ++ [':'], true) := by
  have htag : Tag.text.isEmpty = false := by decide
  have hchars := chars_unsplit (isMultiline_of_isSimpleKey h) (formOf (isOwn s Tag.text) s.toList) (indent + 2) indent
  unfold keyChars
  simp only [scalar?, Option.getD_some, h, if_true, scalarChars, htag, Bool.false_eq_true, if_false, hchars, keyText]

theorem keyChars_marked (h : isSimpleKey s Tag.text = false) (indent : Nat) :
    keyChars indent (.text s) = ('?' :: ' ' :: chars (formOf (isOwn s Tag.text) s.toList) (indent + 2) (indent + 2) true
      s.toList ++ newLine indent ++ [':'], false) := by
  have htag : Tag.text.isEmpty = false := by decide
  unfold keyChars
  simp only [scalar?, Option.getD_some, h, Bool.false_eq_true, if_false, scalarChars, htag]

end Keys

/-- What is left for a scanner comes to an end without a fault, with these tokens in all. -/
def Scans (s : Scanner) (tokens : List Token) : Prop :=
  ∀ fuel, s.cursor.rest.length < fuel → scanAll fuel s = (tokens, none)

section Runs

variable {s t : Scanner} {allowed : Bool} {text : List Char} {column : Nat} {tokens whole : List Token}
  {indent : Int} {indents : List Int}

theorem Scans.step (ht : Scans t whole) (h : s.scanToken = .ok (some t))
    (hl : t.cursor.rest.length < s.cursor.rest.length) : Scans s whole := by
  intro fuel hf
  cases fuel with
  | zero => omega
  | succ fuel =>
    rw [scanAll, h]
    exact ht fuel (by omega)

theorem Scans.of_poised (h : Poised s allowed text column tokens indent indents) (hi : indent ≤ column)
    (hstep : ∀ c : Cursor, c.rest = text → c.column = column → ∃ t,
      (poised c allowed tokens indent indents).scanToken = .ok (some t) ∧ t.cursor.rest.length < c.rest.length ∧
        Scans t whole) : Scans s whole := by
  obtain ⟨c, hrest, hcolumn, hscan⟩ := h.scanToken hi
  obtain ⟨t, ht, hl, hwhole⟩ := hstep c hrest hcolumn
  have hlength := h.length
  refine hwhole.step (hscan.trans ht) ?_
  rw [hrest] at hl
  omega

theorem Scans.finish (h : Poised s allowed [] 0 tokens 0 [-1]) : Scans s (tokens ++ [.blockEnd]) := by
  intro fuel hf
  obtain ⟨fuel, rfl⟩ : ∃ m, fuel = m + 1 := ⟨fuel - 1, by omega⟩
  obtain ⟨c, hrest, hcolumn, hscan⟩ := h.scanToken (Int.le_refl 0)
  have hnone : s.scanToken = .ok none := by
    have hsolid : Solid c.rest := hrest ▸ h.solid
    have hcursor : (poised c allowed tokens 0 [-1]).cursor = c := rfl
    have hindent : (0 : Int) ≤ c.column := Int.natCast_nonneg c.column
    rw [hscan, Scanner.scanToken, hcursor, poised_settled hsolid]
    simp only [bind, Except.bind, Scanner.column, hcursor, unwind_poised hindent, hrest]
    rfl
  obtain ⟨inner, hstack, hinner, htokens⟩ := h.stack
  obtain ⟨_, -, -, -, hpending⟩ := h.settled
  have hflow : s.inFlow = false := by simp [inFlow, h.flow]
  have hunwind : s.unwind (-1) = { s with
      tokens := (s.tokens.toList ++ List.replicate (inner ++ [0]).length Token.blockEnd).toArray
      indent := -1
      indents := [] } := by
    rw [unwind, hflow, if_neg Bool.false_ne_true]
    refine unwindTo_stack (-1) (inner ++ [0]) (by rw [hstack, List.append_assoc]; rfl) (fun i hi => ?_) (Int.le_refl _)
    rcases List.mem_append.1 hi with hi | hi
    · have hpos := hinner i hi
      omega
    · rw [List.mem_singleton.1 hi]
      decide
  have hdrop : (s.unwind (-1)).pendingHere?.any (·.required) = false := by
    rw [hunwind]
    cases hl : s.pending.lookup s.flowLevel with
    | none => simp [pendingHere?, hl]
    | some key =>
      obtain ⟨front, back, hsplit, -⟩ := List.lookup_eq_some_iff.1 hl
      have hkey := hpending (s.flowLevel, key) (by rw [hsplit]; simp)
      simpa [pendingHere?, hl] using hkey.1
  have htail : tokens ++ [Token.blockEnd] =
      s.tokens.toList ++ List.replicate (inner ++ [0]).length Token.blockEnd := by
    rw [htokens, List.length_append, List.length_singleton, List.replicate_succ', List.append_assoc]
  rw [scanAll, hnone]
  simp only [dropPending, hdrop]
  rw [htail, hunwind]
  simp [pure, Except.pure, forgetPending]

end Runs

/-- Behind a mark that ends at some column, a value is scanned as its tokens, up to a line that is not further
in than the block around it. -/
def ScansValue (n : Nat) (v : Value) : Prop :=
  ∀ {c : Cursor} {compact : Bool} {m column k : Nat} {next : List Char} {tokens whole : List Token}
    {indents : List Int}, c.rest = behindMark m column compact v ++ (newLine k ++ next) → Solid next → k ≤ m →
    m < c.column → (compact → c.column = m + 1) → m + 2 * n + 2 < width →
    (∀ t, Poised t true next k (tokens ++ valueTokens compact v) m indents → Scans t whole) →
      Scans (poised c compact tokens m indents) whole

section Values

variable {c : Cursor} {compact : Bool} {m column k n : Nat} {next : List Char} {tokens whole : List Token}
  {indents : List Int} {v : Value}

theorem IsScalar.fits {text tag : String} (h : IsScalar v text tag) :
    Fits (formOf (isOwn text tag) text.toList) text.toList :=
  fits_formOf h.breaks fun hown hnil => h.filled hown (String.toList_eq_nil_iff.1 hnil)

theorem head_newLine (k : Nat) (next : List Char) : (newLine k ++ next).head?.all fun c => c = '\n' || c = ':' := rfl

theorem scansValue_scalar {text tag : String} (h : IsScalar v text tag) : ScansValue n v := by
  intro c compact m column k next tokens whole indents hc hs hk hm _ hw ht
  rw [behindMark_scalar h, List.cons_append] at hc
  have hpoised := Poised.behind_space compact tokens m indents hc
    (solid_chars h.fits (head_newLine k next) (m + 2) (column + 1) true)
  refine Scans.of_poised hpoised (by omega) fun d hrest hcolumn => ?_
  obtain ⟨t, hscan, hlength, hnext⟩ := poised_chars compact tokens m indents h.fits (by omega) (by omega)
    (by omega) (by omega) hs (by omega) hrest
  refine ⟨t, hscan, hlength, ht t ?_⟩
  rw [h.valueTokens]
  exact hnext

theorem scansValue_empty {first last : Char} {start finish : Token} (he : IsEmpty first last start finish)
    (hb : ∀ indent column compact, behindMark indent column compact v = [' ', first, last])
    (ht : ∀ compact, valueTokens compact v = [start, finish]) : ScansValue n v := by
  intro c compact m column k next tokens whole indents hc hs hk hm _ hw hwhole
  have hsolid (text : List Char) : Solid (first :: text) := by
    cases he <;> exact solid_cons (by decide) (by decide) (by decide) (atSeparator_cons (by decide) (by decide))
  rw [hb, List.cons_append] at hc
  have hpoised := Poised.behind_space compact tokens m indents hc
    (hsolid _)
  refine Scans.of_poised hpoised (by omega) fun d hrest hcolumn => ?_
  have hopening := (advance_opening he hrest).1
  refine ⟨_, scanToken_opening he hrest (by omega), Cursor.length_advance hrest, ?_⟩
  refine Scans.step (hwhole _ ?_) (scanToken_closing he hrest) (Cursor.length_advance hopening)
  rw [ht]
  exact poised_empty he (by omega) hs hrest

section Sequences

variable {s : Scanner} {items : List Value} {indent : Int}

theorem sequence_cons (m : Nat) (item : Value) (rest : List Value) (tail : List Char) :
    sequence m (item :: rest) ++ tail = '-' :: (behindMark m (m + 1) true item ++
      if rest = [] then tail else newLine m ++ (sequence m rest ++ tail)) := by
  rw [Written.sequence]
  by_cases hrest : rest = []
  · simp [hrest]
  · simp [hrest]

theorem solid_sequence (hitems : ∀ item ∈ items, Storable n item) (hne : items ≠ []) (tail : List Char) :
    Solid (sequence m items ++ tail) := by
  cases items with
  | nil => exact absurd rfl hne
  | cons item rest =>
    rw [sequence_cons]
    exact solid_mark .entry (endsWord_behindMark (hitems item List.mem_cons_self) _ _ _ _)

theorem scans_sequence (hitems : ∀ item ∈ items, Storable n item) (hscans : ∀ item ∈ items, ScansValue n item)
    (hne : items ≠ []) (hs : Solid next) (hk : k ≤ m) (hw : m + 2 * n + 2 < width) (hi : indent ≤ m)
    (h : Poised s true (sequence m items ++ (newLine k ++ next)) m tokens indent indents)
    (ht : ∀ t, Poised t true next k (tokens ++ opening .blockSequenceStart indent m ++ itemTokens items) m
      (enclosing indent m indents) → Scans t whole) : Scans s whole := by
  induction items generalizing s tokens indent indents with
  | nil => exact absurd rfl hne
  | cons item rest ih =>
    have hitem : ScansValue n item := hscans item List.mem_cons_self
    have hbegin := endsWord_behindMark (hitems item List.mem_cons_self) m (m + 1) true
    rw [sequence_cons] at h
    refine Scans.of_poised h hi fun c hrest hcolumn => ?_
    subst hcolumn
    refine ⟨_, scanToken_mark _ _ _ .entry (hbegin _) hrest hi, Cursor.length_advance hrest, ?_⟩
    have hadvance := Cursor.advance_rest hrest
    have hnext := Cursor.advance_column hrest (by decide) (by decide)
    by_cases hlast : rest = []
    · subst hlast
      rw [if_pos rfl] at hadvance
      refine hitem hadvance hs hk (by omega) (fun _ => hnext) hw fun t hpoised => ht t ?_
      simpa [itemTokens] using hpoised
    · rw [if_neg hlast] at hadvance
      have hothers : ∀ item ∈ rest, Storable n item := fun other hin => hitems other (List.mem_cons_of_mem _ hin)
      refine hitem hadvance (solid_sequence hothers hlast _) (Nat.le_refl _) (by omega) (fun _ => hnext) hw
        fun t hpoised => ?_
      refine ih hothers (fun other hin => hscans other (List.mem_cons_of_mem _ hin)) hlast (Int.le_refl _) hpoised
        fun u hu => ht u ?_
      simpa [itemTokens] using hu

end Sequences

section Mappings

variable {s : Scanner} {entries : List (String × Value)} {indent : Int} {key : String}

def behindEntry (m : Nat) (rest : List (String × Value)) (tail : List Char) : List Char :=
  if rest = [] then tail else newLine m ++ (mapping m (textEntries rest) ++ tail)

def keyColumn (m : Nat) (key : String) : Nat := columnBehind m (keyChars m (.text key)).1

theorem mapping_cons (m : Nat) (key : String) (v : Value) (rest : List (String × Value)) (tail : List Char) :
    mapping m (textEntries ((key, v) :: rest)) ++ tail = (keyChars m (.text key)).1 ++
      (behindMark m (keyColumn m key) (!(keyChars m (.text key)).2) v ++ behindEntry m rest tail) := by
  unfold behindEntry
  by_cases hrest : rest = []
  · simp [textEntries, mapping, hrest, keyColumn]
  · simp [textEntries, mapping, hrest, keyColumn]

theorem solid_mapping (hkeys : ∀ entry ∈ entries, IsKey entry.1) (hne : entries ≠ []) (tail : List Char) :
    Solid (mapping m (textEntries entries) ++ tail) := by
  cases entries with
  | nil => exact absurd rfl hne
  | cons entry rest =>
    obtain ⟨key, v⟩ := entry
    have hkey : IsKey key := hkeys (key, v) List.mem_cons_self
    rw [mapping_cons]
    cases hsimple : isSimpleKey key Tag.text with
    | true =>
      rw [keyChars_simple hsimple, List.append_assoc]
      exact solid_chars hkey.fits (by simp) 0 0 false
    | false =>
      rw [keyChars_marked hsimple]
      exact solid_mark .key rfl

theorem scans_simpleKey (hkey : IsKey key) (hsimple : isSimpleKey key Tag.text) (hw : m + 2 < width)
    (hi : indent ≤ m) {more : List Char} (hmore : endsWord more.head?)
    (h : Poised s true (keyText key ++ ':' :: more) m tokens indent indents)
    (ht : ∀ c : Cursor, c.rest = more → m < c.column →
      Scans (poised c false (tokens ++ opening .blockMappingStart indent m ++
        [.key, scalarToken key Tag.text, .value]) m (enclosing indent m indents)) whole) : Scans s whole := by
  refine Scans.of_poised h hi fun c hrest hcolumn => ?_
  subst hcolumn
  have hmultiline := isMultiline_of_isSimpleKey hsimple
  have hchars : chars (formOf (isOwn key Tag.text) key.toList) (c.column + 2) c.column false key.toList =
      keyText key := chars_unsplit hmultiline _ _ _
  have hlength := hkey.length hsimple
  rw [← hchars] at hrest hlength
  obtain ⟨t, hscan, hbehind, hshort, d, hd, hcolumn, hcolon⟩ := scanToken_key tokens indents
    hkey.fits (by omega) hw (by omega) hi hmultiline hlength hmore hrest
  refine ⟨t, hscan, hshort, Scans.step (ht d hd hcolumn) hcolon ?_⟩
  have hnext : d.rest.length < t.cursor.rest.length := by
    rw [hd, hbehind]
    exact Nat.lt_succ_self _
  exact hnext

theorem scans_markedKey (hkey : IsKey key) (hw : m + 2 < width) (hi : indent ≤ m) {more : List Char}
    (hmore : endsWord more.head?)
    (h : Poised s true ('?' :: ' ' :: (chars (formOf (isOwn key Tag.text) key.toList) (m + 2) (m + 2) true
      key.toList ++ (newLine m ++ ':' :: more))) m tokens indent indents)
    (ht : ∀ c : Cursor, c.rest = more → c.column = m + 1 →
      Scans (poised c true (tokens ++ opening .blockMappingStart indent m ++
        [.key, scalarToken key Tag.text, .value]) m (enclosing indent m indents)) whole) : Scans s whole := by
  refine Scans.of_poised h hi fun c hrest hcolumn => ?_
  subst hcolumn
  have hadvance := Cursor.advance_rest hrest
  have hcolumn := Cursor.advance_column hrest (by decide) (by decide)
  refine ⟨_, scanToken_mark _ _ _ .key rfl hrest hi, Cursor.length_advance hrest, ?_⟩
  have hspace := Poised.behind_space true (tokens ++ opening .blockMappingStart indent c.column ++ [.key]) c.column
    (enclosing indent c.column indents) hadvance
    (solid_chars hkey.fits (head_newLine c.column _) (c.column + 2) (c.column + 2) true)
  refine Scans.of_poised hspace (by omega) fun d hd hdcolumn => ?_
  obtain ⟨t, hscan, hshort, hcolon⟩ := poised_chars true
    (tokens ++ opening .blockMappingStart indent c.column ++ [.key]) c.column
    (enclosing indent c.column indents) hkey.fits (by omega) hw (by omega) (by omega)
    (solid_mark .value hmore) (Int.le_refl _) hd
  refine ⟨t, hscan, hshort, Scans.of_poised hcolon (Int.le_refl _) fun e he hecolumn => ?_⟩
  have hbehind := Cursor.advance_rest he
  have hnext := Cursor.advance_column he (by decide) (by decide)
  have hvalue := scanToken_mark (tokens ++ opening .blockMappingStart indent c.column ++ [.key] ++
    [scalarToken key Tag.text]) c.column (enclosing indent c.column indents) .value hmore he (by omega)
  rw [hecolumn, opening_self, enclosing_self, List.append_nil] at hvalue
  refine ⟨_, hvalue, Cursor.length_advance he, ?_⟩
  have hscans := ht e.advance hbehind (by omega)
  simpa using hscans

theorem scans_key (hkey : IsKey key) (hw : m + 2 < width) (hi : indent ≤ m) {more : List Char}
    (hmore : endsWord more.head?) (h : Poised s true ((keyChars m (.text key)).1 ++ more) m tokens indent indents)
    (ht : ∀ c : Cursor, c.rest = more → m < c.column → ((!isSimpleKey key Tag.text) → c.column = m + 1) →
      Scans (poised c (!isSimpleKey key Tag.text) (tokens ++ opening .blockMappingStart indent m ++
        [.key, scalarToken key Tag.text, .value]) m (enclosing indent m indents)) whole) : Scans s whole := by
  cases hsimple : isSimpleKey key Tag.text with
  | true =>
    rw [hsimple] at ht
    rw [keyChars_simple hsimple, List.append_assoc] at h
    exact scans_simpleKey hkey hsimple hw hi hmore h fun c hc hcolumn => ht c hc hcolumn fun hne => by cases hne
  | false =>
    rw [hsimple] at ht
    rw [keyChars_marked hsimple] at h
    refine scans_markedKey hkey hw hi hmore (by simpa using h) fun c hc hcolumn => ?_
    exact ht c hc (by omega) fun _ => hcolumn

theorem scans_mapping (hkeys : ∀ entry ∈ entries, IsKey entry.1) (hvalues : ∀ entry ∈ entries, Storable n entry.2)
    (hscans : ∀ entry ∈ entries, ScansValue n entry.2) (hne : entries ≠ []) (hs : Solid next) (hk : k ≤ m)
    (hw : m + 2 * n + 2 < width) (hi : indent ≤ m)
    (h : Poised s true (mapping m (textEntries entries) ++ (newLine k ++ next)) m tokens indent indents)
    (ht : ∀ t, Poised t true next k
      (tokens ++ opening .blockMappingStart indent m ++ entryTokens (textEntries entries)) m
      (enclosing indent m indents) → Scans t whole) : Scans s whole := by
  induction entries generalizing s tokens indent indents with
  | nil => exact absurd rfl hne
  | cons entry rest ih =>
    obtain ⟨key, v⟩ := entry
    have hkey : IsKey key := hkeys (key, v) List.mem_cons_self
    have hvalue : Storable n v := hvalues (key, v) List.mem_cons_self
    have hscan : ScansValue n v := hscans (key, v) List.mem_cons_self
    have hcompact : (!(keyChars m (.text key)).2) = !isSimpleKey key Tag.text := by
      cases hsimple : isSimpleKey key Tag.text with
      | true => rw [keyChars_simple hsimple]
      | false => rw [keyChars_marked hsimple]
    have hentry : entryTokens (textEntries ((key, v) :: rest)) = [.key, scalarToken key Tag.text, .value] ++
        valueTokens (!isSimpleKey key Tag.text) v ++ entryTokens (textEntries rest) := by
      simp [textEntries, entryTokens, scalar?]
    rw [mapping_cons, hcompact] at h
    rw [hentry] at ht
    -- Only the first key opens the block: behind it the indentation is that of the keys, so that `ih` opens none.
    refine scans_key hkey (by omega) hi (endsWord_behindMark hvalue _ _ _ _) h fun c hrest hcolumn hmark => ?_
    unfold behindEntry at hrest
    by_cases hlast : rest = []
    · subst hlast
      rw [if_pos rfl] at hrest
      refine hscan hrest hs hk hcolumn hmark hw fun t hpoised => ht t ?_
      simpa [textEntries, entryTokens] using hpoised
    · rw [if_neg hlast] at hrest
      have hothers : ∀ entry ∈ rest, IsKey entry.1 := fun other hin => hkeys other (List.mem_cons_of_mem _ hin)
      refine hscan hrest (solid_mapping hothers hlast _) (Nat.le_refl _) hcolumn hmark hw fun t hpoised => ?_
      refine ih hothers (fun other hin => hvalues other (List.mem_cons_of_mem _ hin))
        (fun other hin => hscans other (List.mem_cons_of_mem _ hin)) hlast (Int.le_refl _) hpoised fun u hu => ht u ?_
      simpa using hu

end Mappings

section Collections

variable {items : List Value} {entries : List (String × Value)}

theorem scansValue_sequence (hitems : ∀ item ∈ items, Storable n item) (hscans : ∀ item ∈ items, ScansValue n item)
    (hne : items ≠ []) : ScansValue (n + 1) (.list items) := by
  intro c compact m column k next tokens whole indents hc hs hk hm hcompact hw ht
  rw [behindMark_sequence hne] at hc
  rw [valueTokens_sequence compact hne] at ht
  cases compact with
  | true =>
    have hblock := Poised.behind_space true tokens m indents hc
      (solid_sequence hitems hne _)
    rw [hcompact rfl] at hblock
    have hlt : (m : Int) < (m + 2 : Nat) := by omega
    refine scans_sequence hitems hscans hne hs (by omega) (by omega) (Int.le_of_lt hlt) hblock fun t hpoised => ht t ?_
    rw [opening_of_lt hlt, enclosing_of_lt hlt] at hpoised
    have hclosed := hpoised.close (by omega)
    simpa using hclosed
  | false =>
    rw [if_neg Bool.false_ne_true, List.append_assoc] at hc
    have hblock := Poised.behind_newLine false tokens m indents hc
      (solid_sequence hitems hne _)
    refine scans_sequence hitems hscans hne hs hk (by omega) (Int.le_refl _) hblock fun t hpoised => ht t ?_
    simpa using hpoised

theorem scansValue_mapping (hkeys : ∀ entry ∈ entries, IsKey entry.1) (hvalues : ∀ entry ∈ entries, Storable n entry.2)
    (hscans : ∀ entry ∈ entries, ScansValue n entry.2) (hne : entries ≠ []) :
    ScansValue (n + 1) (.map (textEntries entries)) := by
  intro c compact m column k next tokens whole indents hc hs hk hm hcompact hw ht
  have hfilled : textEntries entries ≠ [] := by simpa [textEntries] using hne
  rw [behindMark_mapping hfilled, List.append_assoc] at hc
  rw [valueTokens_mapping compact hfilled] at ht
  have hsolid := solid_mapping (m := m + 2) hkeys hne (newLine k ++ next)
  have hblock : Poised (poised c compact tokens m indents) true (mapping (m + 2) (textEntries entries) ++
      (newLine k ++ next)) (m + 2) tokens m indents := by
    cases compact with
    | true =>
      have hspace := Poised.behind_space true tokens m indents hc hsolid
      rwa [hcompact rfl] at hspace
    | false => exact Poised.behind_newLine false tokens m indents hc hsolid
  have hlt : (m : Int) < (m + 2 : Nat) := by omega
  refine scans_mapping hkeys hvalues hscans hne hs (by omega) (by omega) (Int.le_of_lt hlt) hblock fun t hpoised =>
    ht t ?_
  rw [opening_of_lt hlt, enclosing_of_lt hlt] at hpoised
  have hclosed := hpoised.close (by omega)
  simpa using hclosed

end Collections

/-- Every value that can be stored is scanned as its tokens. -/
theorem Storable.scans (h : Storable n v) : ScansValue n v := by
  induction h with
  | scalar h => exact scansValue_scalar h
  | @list n items hitems ih =>
    rcases Classical.em (items = []) with rfl | hne
    · exact scansValue_empty .sequence
        (fun indent column compact => (behindMark_nil indent column compact).1) fun _ => rfl
    · exact scansValue_sequence hitems ih hne
  | @map n entries _ hkeys hvalues ih =>
    rcases Classical.em (entries = []) with rfl | hne
    · exact scansValue_empty .mapping
        (fun indent column compact => (behindMark_nil indent column compact).2) fun _ => rfl
    · exact scansValue_mapping hkeys hvalues ih hne

/-- The tokens of a document that is a mapping. -/
theorem scan_document {entries : List (String × Value)} (hkeys : ∀ entry ∈ entries, IsKey entry.1)
    (hvalues : ∀ entry ∈ entries, Storable n entry.2) (hne : entries ≠ []) (hw : 2 * n + 2 < width) :
    Token.scan (document (.map (textEntries entries))) =
      (.blockMappingStart :: entryTokens (textEntries entries) ++ [.blockEnd], none) := by
  have htext : document (.map (textEntries entries)) = mapping 0 (textEntries entries) ++ (newLine 0 ++ []) := by
    cases entries with
    | nil => exact absurd rfl hne
    | cons entry rest => simp [document, scalar?, textEntries, newLine, spaces]
  have hpoised := Poised.of_text (s := poised ⟨mapping 0 (textEntries entries) ++ (newLine 0 ++ []), 0, 0, 0⟩ true []
    (-1) []) rfl (solid_mapping hkeys hne _) rfl fun _ hin => absurd hin List.not_mem_nil
  have hlt : (-1 : Int) < (0 : Nat) := by decide
  have hscans := scans_mapping hkeys hvalues (fun entry hin => (hvalues entry hin).scans) hne solid_nil (Nat.le_refl 0)
    (by omega) (Int.le_of_lt hlt) hpoised fun t ht => by
      rw [opening_of_lt hlt, enclosing_of_lt hlt] at ht
      exact Scans.finish ht
  rw [htext, Token.scan]
  exact hscans _ (Nat.lt_succ_self _)

end Values

end CaveMap.Yaml
