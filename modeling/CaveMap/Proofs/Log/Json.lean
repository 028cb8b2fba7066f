import CaveMap.Log.Json
import CaveMap.Proofs.Number.Notation

namespace CaveMap.Log.Json

def isSpacing (c : Char) : Bool := [' ', '\t', '\n', '\r'].contains c

def hexValue? (c : Char) : Option Nat :=
  if c.isDigit then some (c.toNat - '0'.toNat)
  else if 'a' ≤ c ∧ c ≤ 'f' then some (c.toNat - 'a'.toNat + 10)
  else if 'A' ≤ c ∧ c ≤ 'F' then some (c.toNat - 'A'.toNat + 10)
  else none

def hexUnit? (digits : List Char) : Option Nat := digits.foldlM (fun n c => (hexValue? c).map (n * 16 + ·)) 0

/-- The unit that one letter behind a backslash stands for. -/
def escapeUnit? : Char → Option Nat
  | '"' => some 0x22
  | '\\' => some 0x5C
  | '/' => some 0x2F
  | 'b' => some 0x08
  | 'f' => some 0x0C
  | 'n' => some 0x0A
  | 'r' => some 0x0D
  | 't' => some 0x09
  | _ => none

def preceded (units : List Nat) (found : Option (List Nat × List Char)) : Option (List Nat × List Char) :=
  found.map fun (more, rest) => (units ++ more, rest)

/-- The units of sixteen bits up to the closing quote, and what follows it. -/
def units? : List Char → Option (List Nat × List Char)
  | [] => none
  | '"' :: rest => some ([], rest)
  | '\\' :: 'u' :: a :: b :: c :: d :: rest => do preceded [← hexUnit? [a, b, c, d]] (units? rest)
  | '\\' :: c :: rest => do preceded [← escapeUnit? c] (units? rest)
  | c :: rest => if c < ' ' then none else preceded (Text.unitsOf c) (units? rest)

/-- The characters of units, unless half of a pair stands alone. -/
def charsOf? : List Nat → Option (List Char)
  | [] => some []
  | n :: rest =>
    if Text.isTrailingUnit n then none
    else if Text.isLeadingUnit n then
      match rest with
      | [] => none
      | m :: more => if Text.isTrailingUnit m then (charsOf? more).map (Text.pairedChar n m :: ·) else none
    else (charsOf? rest).map (Char.ofNat n :: ·)

def string? (text : List Char) : Option (String × List Char) := do
  let (units, rest) ← units? text
  let chars ← charsOf? units
  return (String.ofList chars, rest)

def fraction? : List Char → Option (Option (List Char) × List Char)
  | '.' :: rest =>
    if rest.takeWhile Char.isDigit = [] then none
    else some (some (rest.takeWhile Char.isDigit), rest.dropWhile Char.isDigit)
  | rest => some (none, rest)

def exponent? : List Char → Option (Option Int × List Char)
  | [] => some (none, [])
  | c :: rest =>
    if c = 'e' ∨ c = 'E' then
      let (negative, digits) := Numeral.splitSign rest
      if digits.takeWhile Char.isDigit = [] then none
      else some (some (Binary64.signed negative (Nat.ofDigitChars 10 (digits.takeWhile Char.isDigit) 0)),
        digits.dropWhile Char.isDigit)
    else some (none, c :: rest)

/-- A number is an integer if it has neither a fraction nor an exponent. -/
def numberOf (negative : Bool) (whole : List Char) : Option (List Char) → Option Int → Value
  | none, none => .int (Binary64.signed negative (Nat.ofDigitChars 10 whole 0))
  | fraction, exponent =>
    let fraction := fraction.getD []
    .float (Binary64.ofDecimal negative (Nat.ofDigitChars 10 (whole ++ fraction) 0)
      (exponent.getD 0 - fraction.length))

/-- A number behind its sign. No zero comes before other digits of its whole part. -/
def magnitude? (negative : Bool) (text : List Char) : Option (Value × List Char) :=
  let whole := text.takeWhile Char.isDigit
  if whole = [] ∨ (whole.head? = some '0' ∧ whole ≠ ['0']) then none
  else do
    let (fraction, rest) ← fraction? (text.dropWhile Char.isDigit)
    let (exponent, rest) ← exponent? rest
    return (numberOf negative whole fraction exponent, rest)

def number? : List Char → Option (Value × List Char)
  | '-' :: rest => magnitude? true rest
  | rest => magnitude? false rest

mutual

/-- The value at the beginning of a text, and what follows it. -/
def value? : (fuel : Nat) → List Char → Option (Value × List Char)
  | 0, _ => none
  | fuel + 1, text =>
    match text.dropWhile isSpacing with
    | '"' :: rest => (string? rest).map fun (s, rest) => (.text s, rest)
    | '[' :: rest =>
      match rest.dropWhile isSpacing with
      | ']' :: rest => some (.list [], rest)
      | _ => (items? fuel rest).map fun (items, rest) => (.list items, rest)
    | '\x7b' :: rest =>
      match rest.dropWhile isSpacing with
      | '\x7d' :: rest => some (.map [], rest)
      | _ => (members? fuel rest).map fun (entries, rest) => (.map entries, rest)
    | 'n' :: 'u' :: 'l' :: 'l' :: rest => some (.null, rest)
    | 't' :: 'r' :: 'u' :: 'e' :: rest => some (.bool true, rest)
    | 'f' :: 'a' :: 'l' :: 's' :: 'e' :: rest => some (.bool false, rest)
    | rest => number? rest

def items? : (fuel : Nat) → List Char → Option (List Value × List Char)
  | 0, _ => none
  | fuel + 1, text => do
    let (item, rest) ← value? fuel text
    match rest.dropWhile isSpacing with
    | ',' :: rest => (items? fuel rest).map fun (items, rest) => (item :: items, rest)
    | ']' :: rest => some ([item], rest)
    | _ => none

def members? : (fuel : Nat) → List Char → Option (List (Value × Value) × List Char)
  | 0, _ => none
  | fuel + 1, text =>
    match text.dropWhile isSpacing with
    | '"' :: rest => do
      let (key, rest) ← string? rest
      match rest.dropWhile isSpacing with
      | ':' :: rest => do
        let (v, rest) ← value? fuel rest
        match rest.dropWhile isSpacing with
        | ',' :: rest => (members? fuel rest).map fun (entries, rest) => ((.text key, v) :: entries, rest)
        | '\x7d' :: rest => some ([(.text key, v)], rest)
        | _ => none
      | _ => none
    | _ => none

end

/-- The value that a JSON text says. Every bracket and every item takes a character of the text, so that its length is
fuel enough. -/
def decode? (text : String) : Option Value := do
  let (v, rest) ← value? (text.length + 1) text.toList
  if rest.all isSpacing then some v else none

/-- An array in an object, a number with an exponent, and a pair of halves; a leading zero, a comma too many, a line
break in a text and half of a pair. -/
example :
    (decode? " \x7b \"a\" : [-25e-1, null, \"\\ud83d\\ude00\\/\"]\x7d ").map Value.quoted =
      some "\x7b'a': [-2.5, None, '😀/']\x7d" ∧
    ["[01]", "[1,]", "\"\n\"", "\"\\ud83d\""].all fun text => (decode? text).isNone := by
  decide +kernel

theorem hexValue?_hexDigit {d : Nat} (h : d < 16) : hexValue? (Text.hexDigit d) = some d := by
  have hall : ∀ d < 16, hexValue? (Text.hexDigit d) = some d := by decide
  exact hall d h

theorem units?_unitEscape {n : Nat} (h : n < 0x10000) (rest : List Char) :
    units? (unitEscape n ++ rest) = preceded [n] (units? rest) := by
  have hunit : hexUnit? (Text.hexDigits 4 n) = some n := by
    have hlow (m : Nat) := hexValue?_hexDigit (Nat.mod_lt m (by decide : 16 > 0))
    simp only [Text.hexDigits, hexUnit?, List.nil_append, List.cons_append, List.foldlM_cons, List.foldlM_nil, hlow,
      Option.map_some, bind, Option.bind_some, pure, Option.some.injEq]
    omega
  simp only [Text.hexDigits, List.nil_append, List.cons_append] at hunit
  simp only [unitEscape, Text.hexDigits, List.nil_append, List.cons_append, units?, hunit, bind, Option.bind_some]

theorem units?_plain {c : Char} (hquote : c ≠ '"') (hslash : c ≠ '\\') (hlow : ' ' ≤ c) (rest : List Char) :
    units? (c :: rest) = preceded (Text.unitsOf c) (units? rest) := by
  have hnot : ¬ c < ' ' := Char.not_lt.2 hlow
  rw [units?]
  · rw [if_neg hnot]
  all_goals simp_all

theorem preceded_preceded (units more : List Nat) (found : Option (List Nat × List Char)) :
    preceded units (preceded more found) = preceded (units ++ more) found := by
  cases found with
  | none => rfl
  | some => simp [preceded]

theorem toNat_lt (c : Char) : c.toNat < 0xD800 ∨ (0xDFFF < c.toNat ∧ c.toNat < 0x110000) := c.valid

theorem units?_unitsOf (c : Char) (rest : List Char) :
    units? ((Text.unitsOf c).flatMap unitEscape ++ rest) = preceded (Text.unitsOf c) (units? rest) := by
  unfold Text.unitsOf
  split
  · next h => rw [List.flatMap_singleton, units?_unitEscape h]
  · have hvalid := toNat_lt c
    rw [List.flatMap_cons, List.flatMap_singleton, List.append_assoc, units?_unitEscape (by omega),
      units?_unitEscape (by omega), preceded_preceded]
    rfl

/-- Each character is read as its units, however it is written. -/
theorem units?_escapedChar (c : Char) (rest : List Char) :
    units? (escapedChar c ++ rest) = preceded (Text.unitsOf c) (units? rest) := by
  have hletter {letter : Char} {n : Nat} (hn : escapeUnit? letter = some n) (hc : Text.unitsOf c = [n])
      (hu : letter ≠ 'u') : units? ('\\' :: letter :: rest) = preceded (Text.unitsOf c) (units? rest) := by
    rw [units?]
    · rw [hn, hc]
      rfl
    · simp [hu]
  unfold escapedChar
  split
  · next h =>
    rcases h with rfl | rfl
    · exact hletter rfl rfl (by decide)
    · exact hletter rfl rfl (by decide)
  · next hspecial =>
    rw [not_or] at hspecial
    split
    · next h => exact units?_plain hspecial.1 hspecial.2 h.1 rest
    · split
      · exact hletter rfl rfl (by decide)
      · exact hletter rfl rfl (by decide)
      · exact hletter rfl rfl (by decide)
      · exact hletter rfl rfl (by decide)
      · exact hletter rfl rfl (by decide)
      · exact units?_unitsOf c rest

theorem charsOf?_unit {n : Nat} (htrailing : Text.isTrailingUnit n = false) (hleading : Text.isLeadingUnit n = false)
    (rest : List Nat) : charsOf? (n :: rest) = (charsOf? rest).map (Char.ofNat n :: ·) := by
  cases rest <;> simp [charsOf?, htrailing, hleading]

theorem charsOf?_pair {n m : Nat} (htrailing : Text.isTrailingUnit n = false) (hleading : Text.isLeadingUnit n)
    (hpaired : Text.isTrailingUnit m) (rest : List Nat) :
    charsOf? (n :: m :: rest) = (charsOf? rest).map (Text.pairedChar n m :: ·) := by
  simp [charsOf?, htrailing, hleading, hpaired]

theorem charsOf?_unitsOf (c : Char) (rest : List Nat) :
    charsOf? (Text.unitsOf c ++ rest) = (charsOf? rest).map (c :: ·) := by
  have hvalid := toNat_lt c
  unfold Text.unitsOf
  split
  · rw [List.singleton_append, charsOf?_unit, Char.ofNat_toNat]
    · simp only [Text.isTrailingUnit, Bool.and_eq_false_iff, decide_eq_false_iff_not]
      omega
    · simp only [Text.isLeadingUnit, Bool.and_eq_false_iff, decide_eq_false_iff_not]
      omega
  · have hpaired :
        Text.pairedChar (0xD800 + (c.toNat - 0x10000) / 0x400) (0xDC00 + (c.toNat - 0x10000) % 0x400) = c := by
      have hcode : 0x10000 + (0xD800 + (c.toNat - 0x10000) / 0x400 - 0xD800) * 0x400 +
          (0xDC00 + (c.toNat - 0x10000) % 0x400 - 0xDC00) = c.toNat := by omega
      rw [Text.pairedChar, hcode, Char.ofNat_toNat]
    rw [List.cons_append, List.singleton_append, charsOf?_pair, hpaired]
    · simp only [Text.isTrailingUnit, Bool.and_eq_false_iff, decide_eq_false_iff_not]
      omega
    · simp only [Text.isLeadingUnit, Bool.and_eq_true, decide_eq_true_eq]
      omega
    · simp only [Text.isTrailingUnit, Bool.and_eq_true, decide_eq_true_eq]
      omega

theorem charsOf?_flatMap (text : List Char) : charsOf? (text.flatMap Text.unitsOf) = some text := by
  induction text with
  | nil => rfl
  | cons c rest ih => rw [List.flatMap_cons, charsOf?_unitsOf, ih, Option.map_some]

theorem units?_escaped (text rest : List Char) :
    units? (text.flatMap escapedChar ++ '"' :: rest) = some (text.flatMap Text.unitsOf, rest) := by
  induction text with
  | nil => rfl
  | cons c text ih =>
    rw [List.flatMap_cons, List.append_assoc, units?_escapedChar, ih, List.flatMap_cons]
    rfl

theorem string?_quoted (s : String) (rest : List Char) :
    string? (s.toList.flatMap escapedChar ++ '"' :: rest) = some (s, rest) := by
  rw [string?, units?_escaped]
  change (do return (String.ofList (← charsOf? _), rest)) = _
  rw [charsOf?_flatMap]
  exact congrArg (fun s => some (s, rest)) String.ofList_toList

/-- What follows a number without going on with it. -/
def Ends (rest : List Char) : Prop := rest.head?.all fun c => !(c.isDigit || c = '.' || c = 'e' || c = 'E')

section

variable {digits rest : List Char}

theorem Ends.whole (h : Ends rest) (hdigits : IsDigits digits) :
    (digits ++ rest).takeWhile Char.isDigit = digits ∧ (digits ++ rest).dropWhile Char.isDigit = rest := by
  rw [List.takeWhile_append_of_pos hdigits, List.dropWhile_append_of_pos hdigits]
  cases rest with
  | nil => simp
  | cons c rest =>
    have hc : c.isDigit = false := by
      simp only [Ends, List.head?_cons, Option.all_some, Bool.not_eq_true', Bool.or_eq_false_iff] at h
      exact h.1.1.1
    simp [hc]

theorem Ends.fraction (h : Ends rest) : fraction? rest = some (none, rest) := by
  unfold fraction?
  split
  · exact absurd h (by simp [Ends])
  · rfl

theorem Ends.exponent (h : Ends rest) : exponent? rest = some (none, rest) := by
  unfold exponent?
  split
  · rfl
  · next c rest =>
    have hc : ¬ (c = 'e' ∨ c = 'E') := by
      rintro (rfl | rfl) <;> exact absurd h (by simp [Ends])
    rw [if_neg hc]

theorem magnitude?_digits (negative : Bool) (h : IsDigits digits) (hne : digits ≠ [])
    (hzero : digits.head? = some '0' → digits = ['0']) (hends : Ends rest) :
    magnitude? negative (digits ++ rest) =
      some (.int (Binary64.signed negative (Nat.ofDigitChars 10 digits 0)), rest) := by
  obtain ⟨hwhole, hrest⟩ := hends.whole h
  have hguard : ¬ (digits = [] ∨ (digits.head? = some '0' ∧ digits ≠ ['0'])) := by
    rintro (hnil | ⟨hhead, hmore⟩)
    · exact hne hnil
    · exact hmore (hzero hhead)
  simp only [magnitude?, hwhole, hrest, if_neg hguard, hends.fraction, bind, Option.bind_some]
  rw [hends.exponent]
  rfl

theorem number?_unsigned (h : IsDigits digits) (hne : digits ≠ []) :
    number? (digits ++ rest) = magnitude? false (digits ++ rest) := by
  obtain ⟨c, more, rfl⟩ := List.exists_cons_of_ne_nil hne
  have hc : c ≠ '-' := by
    rintro rfl
    exact absurd (h '-' List.mem_cons_self) (by decide)
  rw [List.cons_append, number?]
  simp [hc]

theorem number?_integerText (i : Int) (hends : Ends rest) :
    number? ((Text.integerText i).toList ++ rest) = some (.int i, rest) := by
  have hdigits := IsDigits.toDigits i.natAbs
  have hne : Nat.toDigits 10 i.natAbs ≠ [] := Nat.toDigits_ne_nil
  have hzero : (Nat.toDigits 10 i.natAbs).head? = some '0' → Nat.toDigits 10 i.natAbs = ['0'] := by
    rcases Nat.eq_zero_or_pos i.natAbs with hi | hi
    · rw [hi]
      exact fun _ => rfl
    · exact fun hhead => absurd hhead (head?_toDigits hi)
  have hread := magnitude?_digits (decide (i < 0)) hdigits hne hzero hends
  rw [Nat.ofDigitChars_ten_toDigits, Binary64.signed_natAbs] at hread
  unfold Text.integerText Text.decimalText
  by_cases hi : i < 0
  · rw [decide_eq_true hi] at hread
    rw [if_pos hi, String.toList_append, String.toList_ofList, String.toList_ofList]
    exact hread
  · rw [decide_eq_false hi] at hread
    rw [if_neg hi, String.toList_ofList, number?_unsigned hdigits hne, hread]

end

def Printable (text : List Char) : Prop := ∀ c ∈ text, ' ' ≤ c ∧ c ≤ '~'

instance (text : List Char) : Decidable (Printable text) :=
  decidable_of_iff (text.all fun c => decide (' ' ≤ c ∧ c ≤ '~')) List.all_iff_forall_prop

theorem Printable.append {text more : List Char} (h : Printable text) (h' : Printable more) :
    Printable (text ++ more) :=
  List.forall_mem_append.2 ⟨h, h'⟩

theorem printable_unitEscape (n : Nat) : Printable (unitEscape n) := by
  have hhex (m : Nat) : ' ' ≤ Text.hexDigit (m % 16) ∧ Text.hexDigit (m % 16) ≤ '~' := by
    have hall : ∀ d < 16, ' ' ≤ Text.hexDigit d ∧ Text.hexDigit d ≤ '~' := by decide
    exact hall _ (Nat.mod_lt m (by decide))
  simp only [Printable, unitEscape, Text.hexDigits, List.nil_append, List.cons_append, List.forall_mem_cons]
  exact ⟨by decide, by decide, hhex _, hhex _, hhex _, hhex _, by simp⟩

theorem printable_escapedChar (c : Char) : Printable (escapedChar c) := by
  unfold escapedChar
  split
  · next h => rcases h with rfl | rfl <;> decide
  · split
    · next h => exact List.forall_mem_singleton.2 h
    · split
      · decide
      · decide
      · decide
      · decide
      · decide
      · exact List.forall_mem_flatMap.2 fun n _ => printable_unitEscape n

theorem printable_quoted (s : String) : Printable (quoted s).toList := by
  rw [quoted, String.toList_ofList]
  have hchars : Printable (s.toList.flatMap escapedChar) := List.forall_mem_flatMap.2 fun c _ => printable_escapedChar c
  exact Printable.append (List.forall_mem_cons.2 ⟨by decide, hchars⟩) (by decide)

theorem figures_integerText (i : Int) : ∀ c ∈ (Text.integerText i).toList, IsFigure c := by
  have hdigits : ∀ c ∈ Nat.toDigits 10 i.natAbs, IsFigure c := fun c hc =>
    isFigure_of_isDigit (IsDigits.toDigits i.natAbs c hc)
  unfold Text.integerText Text.decimalText
  split
  · rw [String.toList_append, String.toList_ofList, String.toList_ofList]
    exact List.forall_mem_append.2 ⟨List.forall_mem_singleton.2 (by decide), hdigits⟩
  · rwa [String.toList_ofList]

theorem printable_integerText (i : Int) : Printable (Text.integerText i).toList := fun c hc => by
  have hall : Printable figures := by decide
  exact hall c (figures_integerText i c hc)

/-- Texts, integers that can be written, truth values and null. -/
inductive Plain : Value → Prop
  | null : Plain .null
  | bool (b : Bool) : Plain (.bool b)
  | int {i : Int} (h : Text.isWritable i) : Plain (.int i)
  | text (s : String) : Plain (.text s)

/-- A value that is written as a text and read back from it. -/
structure Written (v : Value) (s : String) : Prop where
  written : text v = .ok s
  printable : Printable s.toList
  read : ∀ fuel rest, Ends rest → value? (fuel + 1) (s.toList ++ rest) = some (v, rest)

theorem value?_figure {c : Char} (hc : IsFigure c) (fuel : Nat) (rest : List Char) :
    value? (fuel + 1) (c :: rest) = number? (c :: rest) := by
  have hall : ∀ c ∈ figures,
      isSpacing c = false ∧ c ≠ '"' ∧ c ≠ '[' ∧ c ≠ '\x7b' ∧ c ≠ 'n' ∧ c ≠ 't' ∧ c ≠ 'f' :=
    List.all_iff_forall_prop.1 (by decide)
  obtain ⟨hspacing, hquote, hlist, hmap, hn, ht, hf⟩ := hall c hc
  rw [value?, List.dropWhile_cons_of_neg (by rw [hspacing]; exact Bool.false_ne_true)]
  split <;> simp_all

theorem written_int {i : Int} (h : Text.isWritable i) : Written (.int i) (Text.integerText i) := by
  refine ⟨if_pos h, printable_integerText i, fun fuel rest hends => ?_⟩
  have hread := number?_integerText i hends
  have hfigures := figures_integerText i
  have hne : (Text.integerText i).toList ≠ [] := by
    unfold Text.integerText Text.decimalText
    split <;> simp [Nat.toDigits_ne_nil]
  obtain ⟨c, more, he⟩ := List.exists_cons_of_ne_nil hne
  rw [he] at hread hfigures ⊢
  rw [List.cons_append, value?_figure (hfigures c List.mem_cons_self)]
  exact hread

theorem written_text (s : String) : Written (.text s) (quoted s) := by
  refine ⟨rfl, printable_quoted s, fun fuel rest _ => ?_⟩
  have hquoted : (quoted s).toList ++ rest = '"' :: (s.toList.flatMap escapedChar ++ '"' :: rest) := by
    simp [quoted]
  rw [hquoted, value?, List.dropWhile_cons_of_neg (by decide)]
  change (string? _).map _ = _
  rw [string?_quoted]
  rfl

theorem Plain.written {v : Value} (h : Plain v) : ∃ s, Written v s := by
  cases h with
  | null => exact ⟨"null", rfl, by decide, fun _ _ _ => rfl⟩
  | bool b =>
    cases b with
    | false => exact ⟨"false", rfl, by decide, fun _ _ _ => rfl⟩
    | true => exact ⟨"true", rfl, by decide, fun _ _ _ => rfl⟩
  | int h => exact ⟨_, written_int h⟩
  | text s => exact ⟨_, written_text s⟩

def memberText (key said : String) : String := quoted key ++ ": " ++ said

theorem toList_memberText (key said : String) :
    (memberText key said).toList = '"' :: (key.toList.flatMap escapedChar ++ '"' :: ':' :: ' ' :: said.toList) := by
  simp [memberText, quoted]

theorem value?_spaced (fuel : Nat) (rest : List Char) : value? (fuel + 1) (' ' :: rest) = value? (fuel + 1) rest := by
  rw [value?, value?, List.dropWhile_cons_of_pos rfl]

theorem members?_spaced (fuel : Nat) (rest : List Char) :
    members? (fuel + 1) (' ' :: rest) = members? (fuel + 1) rest := by
  rw [members?, members?, List.dropWhile_cons_of_pos rfl]

variable {key said : String} {v : Value} {fuel : Nat} {rest : List Char}

/-- What comes behind a member decides how it goes on. -/
theorem members?_member (h : Written v said) (hends : Ends rest) :
    members? (fuel + 2) ((memberText key said).toList ++ rest) =
      match rest.dropWhile isSpacing with
      | ',' :: rest => (members? (fuel + 1) rest).map fun (entries, rest) => ((.text key, v) :: entries, rest)
      | '\x7d' :: rest => some ([(.text key, v)], rest)
      | _ => none := by
  have hread := h.read fuel rest hends
  rw [toList_memberText, members?]
  simp only [List.cons_append, List.append_assoc]
  rw [List.dropWhile_cons_of_neg (by decide)]
  simp only [string?_quoted, bind, Option.bind_some]
  rw [List.dropWhile_cons_of_neg (by decide)]
  simp only [value?_spaced, hread, Option.bind_some]

theorem members?_last (h : Written v said) :
    members? (fuel + 2) ((memberText key said).toList ++ '\x7d' :: rest) = some ([(.text key, v)], rest) := by
  rw [members?_member h (by simp [Ends]), List.dropWhile_cons_of_neg (by decide)]
  rfl

theorem members?_more (h : Written v said) :
    members? (fuel + 2) ((memberText key said).toList ++ ',' :: ' ' :: rest) =
      (members? (fuel + 1) rest).map fun (entries, rest) => ((.text key, v) :: entries, rest) := by
  rw [members?_member h (by simp [Ends]), List.dropWhile_cons_of_neg (by decide)]
  simp only [members?_spaced]

theorem value?_members {entries : List (Value × Value)} {body : List Char}
    (h : members? fuel body = some (entries, rest)) :
    value? (fuel + 1) ('\x7b' :: body) = some (.map entries, rest) := by
  have hopen : ∃ tail, body.dropWhile isSpacing = '"' :: tail := by
    cases fuel with
    | zero => cases h
    | succ fuel =>
      rw [members?] at h
      split at h
      · next tail htail => exact ⟨tail, htail⟩
      · cases h
  obtain ⟨tail, htail⟩ := hopen
  rw [value?, List.dropWhile_cons_of_neg (by decide)]
  simp only [htail, h, Option.map_some]
  rfl

theorem printable_intercalate {texts : List String} (h : ∀ text ∈ texts, Printable text.toList) :
    Printable (String.intercalate ", " texts).toList := by
  induction texts with
  | nil => decide
  | cons first rest ih =>
    rw [List.forall_mem_cons] at h
    cases rest with
    | nil => simpa using h.1
    | cons second more =>
      rw [String.intercalate_cons_cons, String.toList_append, String.toList_append]
      exact (h.1.append (by decide)).append (ih h.2)

theorem length_le_intercalate (texts : List String) :
    texts.length ≤ (String.intercalate ", " texts).toList.length + 1 := by
  induction texts with
  | nil => simp
  | cons first rest ih =>
    cases rest with
    | nil => simp
    | cons second more =>
      have htwo : ", ".toList.length = 2 := rfl
      rw [String.intercalate_cons_cons, String.toList_append, String.toList_append, List.length_append,
        List.length_append, List.length_cons]
      omega

/-- Members that are written as texts and read back from them in their order. -/
structure WrittenAll (fields : List (String × Value)) (texts : List String) : Prop where
  length_eq : texts.length = fields.length
  written : entryTexts (fields.map fun (key, v) => (.text key, v)) = .ok texts
  printable : ∀ text ∈ texts, Printable text.toList
  read : fields ≠ [] → ∀ fuel rest, fields.length < fuel →
    members? fuel ((String.intercalate ", " texts).toList ++ '\x7d' :: rest) =
      some (fields.map fun (key, v) => (.text key, v), rest)

theorem WrittenAll.cons {fields : List (String × Value)} {texts : List String} (h : Written v said)
    (hall : WrittenAll fields texts) : WrittenAll ((key, v) :: fields) (memberText key said :: texts) := by
  refine ⟨?_, ?_, ?_, fun _ fuel rest hfuel => ?_⟩
  · rw [List.length_cons, List.length_cons, hall.length_eq]
  · rw [List.map_cons, entryTexts, keyText, h.written, hall.written]
    rfl
  · refine List.forall_mem_cons.2 ⟨?_, hall.printable⟩
    rw [memberText, String.toList_append, String.toList_append]
    exact ((printable_quoted key).append (by decide)).append h.printable
  · rw [List.length_cons] at hfuel
    obtain ⟨fuel, rfl⟩ : ∃ more, fuel = more + 2 := ⟨fuel - 2, by omega⟩
    cases fields with
    | nil =>
      rw [List.length_eq_zero_iff.1 hall.length_eq, String.intercalate_singleton]
      exact members?_last h
    | cons second more =>
      obtain ⟨next, others, rfl⟩ := List.exists_cons_of_length_eq_add_one hall.length_eq
      have hread := hall.read (List.cons_ne_nil second more) (fuel + 1) rest (by omega)
      rw [String.intercalate_cons_cons, String.toList_append, String.toList_append, List.append_assoc,
        List.append_assoc]
      change members? (fuel + 2) ((memberText key said).toList ++ ',' :: ' ' ::
        ((String.intercalate ", " (next :: others)).toList ++ '\x7d' :: rest)) = _
      rw [members?_more h, hread]
      rfl

theorem writtenAll {fields : List (String × Value)} (h : ∀ field ∈ fields, Plain field.2) :
    ∃ texts, WrittenAll fields texts := by
  induction fields with
  | nil => exact ⟨[], rfl, rfl, by simp, by simp⟩
  | cons field rest ih =>
    rw [List.forall_mem_cons] at h
    obtain ⟨said, hsaid⟩ := h.1.written
    obtain ⟨texts, hall⟩ := ih h.2
    exact ⟨_, hall.cons hsaid⟩

theorem toList_braced (body : String) : ("\x7b" ++ body ++ "\x7d").toList = '\x7b' :: (body.toList ++ ['\x7d']) := by
  rw [String.toList_append, String.toList_append]
  rfl

theorem object_decode {fields : List (String × Value)} (h : ∀ field ∈ fields, Plain field.2) :
    ∃ line, object fields = .ok line ∧ Printable line.toList ∧
      decode? line = some (.map (fields.map fun (key, v) => (.text key, v))) := by
  obtain ⟨texts, hall⟩ := writtenAll h
  refine ⟨"\x7b" ++ String.intercalate ", " texts ++ "\x7d", ?_, ?_, ?_⟩
  · rw [object, text, hall.written]
    rfl
  · rw [toList_braced]
    exact List.forall_mem_cons.2 ⟨by decide, (printable_intercalate hall.printable).append (by decide)⟩
  · cases fields with
    | nil =>
      rw [List.length_eq_zero_iff.1 hall.length_eq]
      rfl
    | cons field rest =>
      have hlong := length_le_intercalate texts
      rw [decode?, ← String.length_toList, toList_braced, List.length_cons, List.length_append, List.length_singleton]
      rw [value?_members (hall.read (List.cons_ne_nil field rest) _ [] (by rw [← hall.length_eq]; omega))]
      rfl

end CaveMap.Log.Json
