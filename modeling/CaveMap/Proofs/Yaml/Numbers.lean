import CaveMap.Proofs.Number.Notation
import CaveMap.Proofs.Yaml.Tokens

namespace CaveMap.Yaml

open Written Text

def signedText (negative : Bool) (magnitude : List Char) : String :=
  Binary64.signMark negative ++ String.ofList magnitude

section Signed

variable {negative : Bool} {magnitude : List Char}

theorem toList_signedText (negative : Bool) (magnitude : List Char) :
    (signedText negative magnitude).toList = (if negative then ['-'] else []) ++ magnitude := by
  rw [signedText, String.toList_append, String.toList_ofList]
  cases negative <;> rfl

theorem figures_signedText (h : ∀ c ∈ magnitude, IsFigure c) :
    ∀ c ∈ (signedText negative magnitude).toList, IsFigure c := by
  rw [toList_signedText]
  intro c hc
  rcases List.mem_append.1 hc with hc | hc
  · cases negative with
    | false => cases hc
    | true =>
      rw [List.mem_singleton.1 hc]
      decide
  · exact h c hc

theorem tag_figures {text : String} (hne : text ≠ "") (h : ∀ c ∈ text.toList, IsFigure c) :
    Implicit.nulls.contains text = false ∧ Implicit.flags.contains text = false := by
  have hnull : ∀ s ∈ Implicit.nulls, s = "" ∨ s.toList.all figures.contains = false := by decide
  have hflag : ∀ s ∈ Implicit.flags, s.toList.all figures.contains = false := by decide
  have hall : text.toList.all figures.contains := List.all_eq_true.2 fun c hc => List.contains_iff_mem.2 (h c hc)
  constructor
  · rw [← Bool.not_eq_true, List.contains_iff_mem]
    intro hin
    rcases hnull text hin with hempty | hnot
    · exact hne hempty
    · rw [hall] at hnot
      cases hnot
  · rw [← Bool.not_eq_true, List.contains_iff_mem]
    intro hin
    rw [hflag text hin] at hall
    cases hall

theorem tagOf_number {text : String} (hne : text ≠ "") (h : ∀ c ∈ text.toList, IsFigure c)
    (hn : Implicit.isNumber text.toList) : Implicit.tagOf text = Tag.number := by
  obtain ⟨hnull, hflag⟩ := tag_figures hne h
  unfold Implicit.tagOf
  rw [hnull, hflag, hn]
  rfl

theorem tagOf_integer {text : String} (hne : text ≠ "") (h : ∀ c ∈ text.toList, IsFigure c)
    (hn : Implicit.isNumber text.toList = false) (hi : Implicit.isInteger text.toList) :
    Implicit.tagOf text = Tag.integer := by
  obtain ⟨hnull, hflag⟩ := tag_figures hne h
  unfold Implicit.tagOf
  rw [hnull, hflag, hn, hi]
  rfl

section Leading

variable {c : Char} {rest : List Char}

variable (negative rest) in
theorem unsigned_signedText (hc : c.isDigit) :
    Implicit.unsigned (signedText negative (c :: rest)).toList = c :: rest := by
  have hsign : Implicit.isSign c = false := by
    rw [← Bool.not_eq_true]
    intro hs
    simp only [Implicit.isSign, Bool.or_eq_true, decide_eq_true_eq] at hs
    rcases hs with rfl | rfl <;> cases hc
  rw [toList_signedText]
  cases negative with
  | false => simp [Implicit.unsigned, hsign]
  | true => rfl

theorem splitSign_signedText (hc : c.isDigit) :
    Numeral.splitSign (signedText negative (c :: rest)).toList = (negative, c :: rest) := by
  rw [toList_signedText]
  cases negative with
  | false => exact Numeral.splitSign_of_isDigit hc
  | true => rfl

theorem signedText_ne_empty : signedText negative (c :: rest) ≠ "" := by
  intro he
  have hlist := toList_signedText negative (c :: rest)
  rw [he] at hlist
  cases negative <;> cases hlist

theorem signed_signedText (hc : c.isDigit) (h : ∀ d ∈ c :: rest, IsFigure d) :
    Scalar.signed (signedText negative (c :: rest)).toList = .ok (negative, c :: rest) := by
  have hbars : Scalar.withoutBars (signedText negative (c :: rest)).toList =
      (signedText negative (c :: rest)).toList := by
    refine List.filter_eq_self.2 fun d hd => decide_eq_true ?_
    exact (figures_signedText h d hd).ne_underscore
  have hfilled : (signedText negative (c :: rest)).toList.isEmpty = false := by
    rw [toList_signedText]
    cases negative <;> rfl
  unfold Scalar.signed
  dsimp only
  rw [hbars, hfilled, splitSign_signedText hc]
  rfl

theorem inner_figures {text : List Char} (h : ∀ d ∈ text, IsFigure d) (afterGap : Bool) :
    hasInnerIndicator afterGap text = false := by
  have hmarks : ∀ d ∈ figures, d ≠ ':' ∧ d ≠ '#' := List.all_iff_forall_prop.1 (by decide)
  induction text generalizing afterGap with
  | nil => rfl
  | cons d text ih =>
    obtain ⟨hcolon, hhash⟩ := hmarks d (h d List.mem_cons_self)
    rw [hasInnerIndicator, ih fun e he => h e (List.mem_cons_of_mem d he)]
    simp [hcolon, hhash]

variable (negative) in
theorem hasIndicator_signedText (hc : c.isDigit) (h : ∀ d ∈ c :: rest, IsFigure d) :
    hasIndicator (signedText negative (c :: rest)).toList = false := by
  have hlead : ∀ d ∈ figures, d.isDigit → "#,[]\x7b\x7d&*!|>'\"%@\x60".toList.contains d = false ∧
      isSeparated d = false ∧ d ≠ '-' ∧ d ≠ '.' ∧ d ≠ '?' ∧ d ≠ ':' := List.all_iff_forall_prop.1 (by decide)
  obtain ⟨hmark, hgap, hminus, hpoint, hask, hcolon⟩ := hlead c (h c List.mem_cons_self) hc
  rw [toList_signedText]
  cases negative with
  | false =>
    have hrest : ∀ d ∈ rest, IsFigure d := fun d hd => h d (List.mem_cons_of_mem c hd)
    have hruns : startsWith "---" (c :: rest) = false ∧ startsWith "..." (c :: rest) = false := by
      simp [startsWith, List.isPrefixOf, hminus.symm, hpoint.symm]
    change hasIndicator (c :: rest) = false
    unfold hasIndicator
    dsimp only
    rw [hruns.1, hruns.2, hmark, inner_figures hrest]
    simp [hask, hcolon, hminus]
  | true =>
    have hruns : startsWith "---" ('-' :: c :: rest) = false ∧ startsWith "..." ('-' :: c :: rest) = false := by
      simp [startsWith, List.isPrefixOf, hminus.symm]
    have hfirst : gapFirst (c :: rest) = false := hgap
    change hasIndicator ('-' :: c :: rest) = false
    unfold hasIndicator
    dsimp only
    rw [hruns.1, hruns.2, inner_figures h, hfirst, Bool.and_false]
    rfl

theorem allowsPlain_signedText (hc : c.isDigit) (h : ∀ d ∈ c :: rest, IsFigure d) :
    allowsPlain (signedText negative (c :: rest)).toList := by
  have hclass : ∀ d ∈ figures, isOrdinary d ∧ isBreak d = false ∧ Written.isSpace d = false :=
    List.all_iff_forall_prop.1 (by decide)
  have hindicator := hasIndicator_signedText negative hc h
  have hall : ∀ d ∈ (signedText negative (c :: rest)).toList, IsFigure d := figures_signedText h
  generalize (signedText negative (c :: rest)).toList = text at hindicator hall
  have hordinary : text.all isOrdinary := List.all_eq_true.2 fun d hd => (hclass d (hall d hd)).1
  have hline : isMultiline text = false := List.any_eq_false.2 fun d hd => by simp [(hclass d (hall d hd)).2.1]
  have hedge : edgeIs Written.isSpace text = false := by
    have hnone : ∀ edge : Option Char, (∀ d, edge = some d → d ∈ text) → edge.any Written.isSpace = false := by
      rintro (_ | d) hin
      · rfl
      · exact (hclass d (hall d (hin d rfl))).2.2
    rw [edgeIs, hnone _ fun d hd => List.mem_of_mem_head? hd, hnone _ fun d hd => List.mem_of_getLast? hd]
    rfl
  rw [allowsPlain, hordinary, hline, hedge, hindicator]
  rfl

end Leading

theorem isScalar_signedText {v : Value} {tag : String} (hv : v.isWritable)
    (hdigit : magnitude.head?.any Char.isDigit) (h : ∀ c ∈ magnitude, IsFigure c)
    (hs : scalar? v = some (signedText negative magnitude, tag)) (hempty : tag.isEmpty = false)
    (htag : Implicit.tagOf (signedText negative magnitude) = tag)
    (hread : ∀ fuel, (Node.scalar tag (signedText negative magnitude)).value (fuel + 1) = .ok v) :
    IsScalar v (signedText negative magnitude) tag := by
  cases magnitude with
  | nil => cases hdigit
  | cons c rest =>
    have hc : c.isDigit := by simpa using hdigit
    refine ⟨hv, hs, hempty, fun _ => signedText_ne_empty, fun hin => ?_, .inr ?_, hread⟩
    · exact absurd (figures_signedText h _ hin) (by decide)
    · have hown : isOwn (signedText negative (c :: rest)) tag = true := decide_eq_true htag
      unfold formOf
      rw [hown, allowsPlain_signedText hc h]
      rfl

end Signed

section Integers

variable {negative : Bool} {c : Char} {rest : List Char}

theorem bars_of_isDigits (h : IsDigits rest) : ∀ d ∈ rest, Implicit.isDigitOrBar d := fun d hd => by
  rw [Implicit.isDigitOrBar, h d hd]
  rfl

theorem isNumber_of_isDigits (hc : c.isDigit) (h : IsDigits rest) :
    Implicit.isNumber (signedText negative (c :: rest)).toList = false := by
  have hdigits : IsDigits (c :: rest) := fun d hd => (List.mem_cons.1 hd).elim (fun he => he ▸ hc) (h d)
  have hpoint : '.' ∉ c :: rest := hdigits.not_mem (by decide)
  have hall : '.' ∉ (signedText negative (c :: rest)).toList := by
    rw [toList_signedText]
    cases negative <;> simpa using hpoint
  have hunsigned := unsigned_signedText negative rest hc
  have hpositional : Implicit.isPositional (signedText negative (c :: rest)).toList = false := by
    have hdrop : rest.dropWhile Implicit.isDigitOrBar = [] := by
      simpa using bars_of_isDigits h
    rw [Implicit.isPositional, hunsigned]
    dsimp only
    rw [hdrop, Bool.and_false]
  have hpointed : Implicit.isPointed (signedText negative (c :: rest)).toList = false := by
    unfold Implicit.isPointed
    split
    · next he => exact absurd (by rw [he]; exact List.mem_cons_self) hall
    · rfl
  have hsexagesimal : Implicit.isPointedSexagesimal (signedText negative (c :: rest)).toList = false := by
    have hdrop : (c :: rest).dropWhile (· ≠ '.') = [] := by
      rw [List.dropWhile_eq_nil_iff]
      exact fun d hd => decide_eq_true fun he => hpoint (he ▸ hd)
    rw [Implicit.isPointedSexagesimal, hunsigned, hdrop]
  have hname : ∀ names : List String, (∀ s ∈ names, '.' ∈ s.toList) → ∀ text : String, '.' ∉ text.toList →
      names.contains text = false := by
    intro names hnames text htext
    rw [← Bool.not_eq_true, List.contains_iff_mem]
    exact fun hin => htext (hnames text hin)
  rw [Implicit.isNumber, hpositional, hpointed, hsexagesimal, hunsigned,
    hname Implicit.infinities (by decide) _ (by rwa [String.toList_ofList]),
    hname Implicit.nans (by decide) _ (by rwa [String.toList_ofList])]
  rfl

theorem isInteger_of_isDigits (hc : c.isDigit) (h : IsDigits rest) (hz : c = '0' → rest = []) :
    Implicit.isInteger (signedText negative (c :: rest)).toList := by
  unfold Implicit.isInteger
  dsimp only
  rw [unsigned_signedText negative rest hc]
  split
  · next he => cases (hz (List.cons.inj he).1).symm.trans (List.cons.inj he).2
  · next he => cases (hz (List.cons.inj he).1).symm.trans (List.cons.inj he).2
  · rfl
  · next hnot he =>
    obtain ⟨rfl, rfl⟩ := List.cons.inj he
    exact absurd (hz rfl) hnot
  · next he =>
    obtain ⟨rfl, rfl⟩ := List.cons.inj he
    rw [hc, List.all_eq_true.2 (bars_of_isDigits h)]
    rfl
  · next he => cases he

theorem magnitude_of_isDigits (hc : c.isDigit) (h : IsDigits rest) (hz : c = '0' → rest = []) {n : Nat}
    (hn : Numeral.integer? 10 (String.ofList (c :: rest)) = some (n : Int)) (hzero : c = '0' → n = 0)
    (hlength : (c :: rest).length ≤ maxDigits) : Scalar.magnitude (c :: rest) = .ok (n : Int) := by
  have hdigits : IsDigits (c :: rest) := fun d hd => (List.mem_cons.1 hd).elim (fun he => he ▸ hc) (h d)
  have hcolon : (c :: rest).contains ':' = false := by
    rw [← Bool.not_eq_true, List.contains_iff_mem]
    exact hdigits.not_mem (by decide)
  have hcount : ((c :: rest).filter Char.isDigit).length = (c :: rest).length := by
    rw [List.filter_eq_self.2 hdigits]
  unfold Scalar.magnitude
  split
  · next he => cases he
  · next he =>
    rw [hzero (List.cons.inj he).1]
    rfl
  · next he => cases (hz (List.cons.inj he).1).symm.trans (List.cons.inj he).2
  · next he => cases (hz (List.cons.inj he).1).symm.trans (List.cons.inj he).2
  · next hnot _ _ he =>
    obtain ⟨rfl, rfl⟩ := List.cons.inj he
    exact absurd (hz rfl) (by simpa using hnot)
  · rw [hcolon, if_neg Bool.false_ne_true, Scalar.numeral, hcount]
    rw [hn]
    exact if_neg fun hlong => absurd hlong.2 (not_lt.2 hlength)

end Integers

theorem integerText_eq (i : Int) : integerText i = signedText (decide (i < 0)) (Nat.toDigits 10 i.natAbs) := by
  unfold integerText decimalText signedText Binary64.signMark
  by_cases hi : i < 0
  · rw [if_pos hi, if_pos (decide_eq_true hi)]
  · rw [if_neg hi, if_neg (by simpa using hi), String.empty_append]

theorem isScalar_int (i : Int) (hi : Text.isWritable i) : IsScalar (.int i) (integerText i) Tag.integer := by
  have h : (Nat.toDigits 10 i.natAbs).length ≤ maxDigits := of_decide_eq_true hi
  have hdigits := IsDigits.toDigits i.natAbs
  have hfigures : ∀ c ∈ Nat.toDigits 10 i.natAbs, IsFigure c := fun c hc => isFigure_of_isDigit (hdigits c hc)
  have hread := Numeral.integer?_toDigits i.natAbs
  have hhead : 0 < i.natAbs → (Nat.toDigits 10 i.natAbs).head? ≠ some '0' := head?_toDigits
  have hzero : i.natAbs = 0 → Nat.toDigits 10 i.natAbs = ['0'] := fun he => by rw [he]; rfl
  have hne : Nat.toDigits 10 i.natAbs ≠ [] := Nat.toDigits_ne_nil
  rw [integerText_eq]
  generalize htext : Nat.toDigits 10 i.natAbs = digits at *
  obtain ⟨c, rest, rfl⟩ := List.exists_cons_of_ne_nil hne
  have hc : c.isDigit := hdigits c List.mem_cons_self
  have hrest : IsDigits rest := hdigits.sublist (List.sublist_cons_self c rest)
  have hnull : c = '0' → i.natAbs = 0 := by
    rintro rfl
    by_contra hpos
    exact hhead (Nat.pos_of_ne_zero hpos) rfl
  have hone : c = '0' → rest = [] := fun hc => (List.cons.inj (hzero (hnull hc))).2
  refine isScalar_signedText hi (by simpa using hc) hfigures ?_ (by decide) ?_ fun fuel => ?_
  · rw [scalar?, integerText_eq, htext]
  · exact tagOf_integer signedText_ne_empty (figures_signedText hfigures) (isNumber_of_isDigits hc hrest)
      (isInteger_of_isDigits hc hrest hone)
  · have hvalue : Scalar.integer (signedText (decide (i < 0)) (c :: rest)) = .ok i := by
      unfold Scalar.integer
      rw [signed_signedText hc hfigures]
      change (Scalar.magnitude (c :: rest) >>= fun n => pure (if decide (i < 0) then -n else n)) = .ok i
      rw [magnitude_of_isDigits hc hrest hone hread hnull h]
      change Except.ok (Binary64.signed (decide (i < 0)) i.natAbs) = .ok i
      rw [Binary64.signed_natAbs]
    have htag : ∀ text, (Node.scalar Tag.integer text).tag = Tag.integer := fun _ => rfl
    rw [Node.value, htag]
    rw [if_neg (by decide), if_neg (by decide), if_pos rfl]
    change ((Scalar.integer _).mapError fun fault => (⟨0, fault⟩ : Trouble)).map Value.int = .ok (.int i)
    rw [hvalue]
    rfl

def withPoint (text : List Char) : List Char :=
  if text.contains '.' then text else text.flatMap fun c => if c = 'e' then ".0e".toList else [c]

theorem withPoint_of_mem {text : List Char} (h : '.' ∈ text) : withPoint text = text :=
  if_pos (List.contains_iff_mem.2 h)

theorem withPoint_of_notMem {front tail : List Char} (hf : ∀ c ∈ front, c ≠ '.' ∧ c ≠ 'e')
    (ht : ∀ c ∈ tail, c ≠ '.' ∧ c ≠ 'e') : withPoint (front ++ 'e' :: tail) = front ++ '.' :: '0' :: 'e' :: tail := by
  have hnone : ¬ (front ++ 'e' :: tail).contains '.' = true := by
    rw [List.contains_iff_mem, List.mem_append, List.mem_cons]
    rintro (hin | hin | hin)
    · exact (hf '.' hin).1 rfl
    · cases hin
    · exact (ht '.' hin).1 rfl
  have hself : ∀ text : List Char, (∀ c ∈ text, c ≠ '.' ∧ c ≠ 'e') →
      text.flatMap (fun c => if c = 'e' then ".0e".toList else [c]) = text :=
    fun text h => flatMap_self fun c hc => if_neg (h c hc).2
  rw [withPoint, if_neg hnone, List.flatMap_append, List.flatMap_cons, hself front hf, hself tail ht]
  rfl

theorem digits_apart {digits : List Char} (h : IsDigits digits) : ∀ c ∈ digits, c ≠ '.' ∧ c ≠ 'e' :=
  fun c hc => ⟨fun he => h.not_mem (by decide) (he ▸ hc), fun he => h.not_mem (by decide) (he ▸ hc)⟩

theorem exponentText_tail (power : Int) :
    ∃ tail, Binary64.exponentText power = 'e' :: tail ∧ ∀ c ∈ tail, c ≠ '.' ∧ c ≠ 'e' := by
  refine ⟨_, rfl, fun c hc => ?_⟩
  rcases List.mem_cons.1 hc with rfl | hc
  · split <;> decide
  · exact digits_apart (isDigits_paddedText 2 power.natAbs) c hc

theorem withPoint_scientific (d : Decimal) (negative : Bool) :
    withPoint (signedText negative d.scientific.toList).toList =
      (signedText negative (pointedText ((Nat.toDigits 10 d.digits).take 1)
        (if (Nat.toDigits 10 d.digits).length ≤ 1 then ['0'] else (Nat.toDigits 10 d.digits).drop 1)
        (some d.leadingPower))).toList := by
  have hdigits := IsDigits.toDigits d.digits
  obtain ⟨tail, htail, hmarks⟩ := exponentText_tail d.leadingPower
  rw [toList_signedText, toList_signedText, Decimal.toList_scientific, Decimal.mantissa]
  generalize Nat.toDigits 10 d.digits = digits at *
  by_cases hone : digits.length ≤ 1
  · have hfront : ∀ c ∈ (if negative then ['-'] else []) ++ digits.take 1, c ≠ '.' ∧ c ≠ 'e' := by
      intro c hc
      rcases List.mem_append.1 hc with hc | hc
      · cases negative with
        | false => cases hc
        | true =>
          rw [List.mem_singleton.1 hc]
          decide
      · exact digits_apart (hdigits.sublist (List.take_sublist 1 digits)) c hc
    rw [if_pos hone, if_pos hone, List.append_nil, ← List.append_assoc, htail, withPoint_of_notMem hfront hmarks,
      pointedText, Option.elim_some, htail, List.append_assoc]
    rfl
  · have hpoint : '.' ∈ (if negative then ['-'] else []) ++
        (digits.take 1 ++ '.' :: digits.drop 1 ++ Binary64.exponentText d.leadingPower) := by
      refine List.mem_append_right _ (List.mem_append_left _ (List.mem_append_right _ List.mem_cons_self))
    rw [if_neg hone, if_neg hone, withPoint_of_mem hpoint, pointedText, Option.elim_some, List.append_assoc]
    rfl

theorem floatText_finite (negative : Bool) (code : Fin magnitudeCount) :
    ∃ whole fraction power, Notates (Binary64.shortest code) whole fraction power ∧
      floatText (.finite negative code) = signedText negative (pointedText whole fraction power) := by
  have htext : floatText (.finite negative code) =
      String.ofList (withPoint (Binary64.text (.finite negative code)).toList) := by
    change (if _ then _ else _) = String.ofList (if _ then _ else _)
    split <;> rfl
  rw [htext]
  unfold Binary64.text
  dsimp only
  split
  · refine ⟨_, _, none, (Binary64.shortest code).notates_positional, ?_⟩
    rw [withPoint_of_mem]
    · rw [String.ofList_toList, signedText, pointedText]
      simp
    · simp
  · refine ⟨_, _, _, (Binary64.shortest code).notates_scientific, ?_⟩
    have hsci : Binary64.signMark negative ++ (Binary64.shortest code).scientific =
        signedText negative (Binary64.shortest code).scientific.toList := by
      rw [signedText, String.ofList_toList]
    rw [hsci, withPoint_scientific, String.ofList_toList]

end CaveMap.Yaml
