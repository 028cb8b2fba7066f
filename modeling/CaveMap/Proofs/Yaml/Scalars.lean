import CaveMap.Proofs.Yaml.Numbers
import CaveMap.Proofs.Yaml.Reading

namespace CaveMap.Yaml

open Written Text

theorem isScalar_text {s : String} (h : '\u0085' ∉ s.toList) : IsScalar (.text s) s Tag.text where
  writable := rfl
  written := rfl
  tagged := by decide
  filled hown := by
    rintro rfl
    rw [tagOf_empty] at hown
    cases hown
  breaks := h
  form := .inl rfl
  read := Node.value_text s

theorem isScalar_bool (b : Bool) : IsScalar (.bool b) (if b then "true" else "false") Tag.flag := by
  have hread (fuel : Nat) (text : String) (hvalue : Scalar.flag text = .ok b) :
      (Node.scalar Tag.flag text).value (fuel + 1) = .ok (.bool b) := by
    have htag : (Node.scalar Tag.flag text).tag = Tag.flag := rfl
    rw [Node.value, htag, if_neg (by decide), if_pos rfl]
    change ((Scalar.flag text).mapError fun fault => (⟨0, fault⟩ : Trouble)).map Value.bool = .ok (.bool b)
    rw [hvalue]
    rfl
  cases b with
  | false => exact ⟨rfl, rfl, by decide, by decide, by decide, .inr (by decide), fun fuel => hread fuel _ rfl⟩
  | true => exact ⟨rfl, rfl, by decide, by decide, by decide, .inr (by decide), fun fuel => hread fuel _ rfl⟩

section Number

variable {whole fraction : List Char} {power : Option Int}

theorem value_number {text : String} {x : Binary64} (h : Scalar.number text = .ok x) (fuel : Nat) :
    (Node.scalar Tag.number text).value (fuel + 1) = .ok (.float x) := by
  have htag : (Node.scalar Tag.number text).tag = Tag.number := rfl
  rw [Node.value, htag, if_neg (by decide), if_neg (by decide), if_neg (by decide), if_pos rfl]
  change ((Scalar.number text).mapError fun fault => (⟨0, fault⟩ : Trouble)).map Value.float = .ok (.float x)
  rw [h]
  rfl

theorem isExponent_exponentText (power : Int) : Implicit.isExponent (Binary64.exponentText power) := by
  have hdigits : Implicit.filled Char.isDigit (paddedText 2 power.natAbs).toList := by
    have hne : (paddedText 2 power.natAbs).toList.isEmpty = false := by
      rw [paddedText, String.toList_ofList, List.isEmpty_eq_false_iff]
      exact List.append_ne_nil_of_right_ne_nil _ Nat.toDigits_ne_nil
    rw [Implicit.filled, hne, List.all_eq_true.2 (isDigits_paddedText 2 power.natAbs)]
    rfl
  unfold Binary64.exponentText Implicit.isExponent
  dsimp only
  rw [hdigits]
  split <;> rfl

theorem isFraction_digits (hf : IsDigits fraction) :
    Implicit.isFraction (fraction ++ power.elim [] Binary64.exponentText) := by
  have hrun : ∀ c ∈ fraction, Implicit.isDigitOrBar c := by
    intro c hc
    rw [Implicit.isDigitOrBar, hf c hc, Bool.true_or]
  unfold Implicit.isFraction
  cases power with
  | none =>
    rw [(Numeral.takeWhile_run Implicit.isDigitOrBar _ hrun rfl).2]
    rfl
  | some power =>
    rw [(Numeral.takeWhile_run Implicit.isDigitOrBar _ hrun (by rfl)).2]
    exact isExponent_exponentText power

theorem isNumber_signedText (negative : Bool) (hw : IsDigits whole) (hf : IsDigits fraction) (hne : whole ≠ [])
    (power : Option Int) :
    Implicit.isNumber (signedText negative (pointedText whole fraction power)).toList := by
  obtain ⟨c, rest, rfl⟩ := List.exists_cons_of_ne_nil hne
  have hc : c.isDigit := hw c List.mem_cons_self
  have hrun : ∀ d ∈ rest, Implicit.isDigitOrBar d := by
    intro d hd
    rw [Implicit.isDigitOrBar, hw d (List.mem_cons_of_mem c hd), Bool.true_or]
  have hbehind := (Numeral.takeWhile_run Implicit.isDigitOrBar
    ('.' :: (fraction ++ power.elim [] Binary64.exponentText)) hrun (by rfl)).2
  have hpositional : Implicit.isPositional (signedText negative (pointedText (c :: rest) fraction power)).toList := by
    unfold Implicit.isPositional
    rw [pointedText, List.cons_append, unsigned_signedText negative _ hc]
    dsimp only
    rw [hbehind, hc, Bool.true_and]
    exact isFraction_digits hf
  rw [Implicit.isNumber, hpositional]
  rfl

theorem isScalar_finite (negative : Bool) (code : Fin magnitudeCount) :
    IsScalar (.float (.finite negative code)) (floatText (.finite negative code)) Tag.number := by
  obtain ⟨whole, fraction, power, hnotates, htext⟩ := floatText_finite negative code
  obtain ⟨hw, hf⟩ := hnotates.isDigits
  have hfigures := pointedText_figures hw hf power
  have hnumber := isNumber_signedText negative hw hf hnotates.whole_ne power
  have hfloat := Numeral.float?_pointedText hnotates
  have hcolon : ':' ∉ pointedText whole fraction power := fun hin => absurd (hfigures ':' hin) (by decide)
  obtain ⟨c, rest, hcons⟩ : ∃ c rest, whole = c :: rest := List.exists_cons_of_ne_nil hnotates.whole_ne
  have hc : c.isDigit := hw c (hcons ▸ List.mem_cons_self)
  have hpointed : pointedText whole fraction power =
      c :: (rest ++ '.' :: (fraction ++ power.elim [] Binary64.exponentText)) := by
    rw [pointedText, hcons, List.cons_append]
  generalize hmagnitude : rest ++ '.' :: (fraction ++ power.elim [] Binary64.exponentText) = tail at hpointed
  rw [hpointed] at htext hfigures hnumber hfloat hcolon
  rw [htext]
  refine isScalar_signedText rfl (by simpa using hc) hfigures ?_ (by decide) ?_ fun fuel => ?_
  · rw [scalar?, htext]
  · exact tagOf_number signedText_ne_empty (figures_signedText hfigures) hnumber
  · have hvalue : Scalar.number (signedText negative (c :: tail)) = .ok (.finite negative code) := by
      have hname (name : String) (d : Char) (hd : name.toList.head? = some d) (hnot : d.isDigit = false) :
          c :: tail ≠ name.toList := by
        intro he
        rw [← he] at hd
        cases hd
        rw [hc] at hnot
        cases hnot
      have hcontains : (c :: tail).contains ':' = false := by simpa using hcolon
      have hfloating : Scalar.floating (c :: tail) = .ok (.finite false code) := by
        rw [Scalar.floating, hfloat]
        rfl
      unfold Scalar.number
      rw [lower_figures (figures_signedText hfigures), signed_signedText hc hfigures]
      simp only [bind, Except.bind, hname ".inf" '.' rfl rfl, hname ".nan" '.' rfl rfl, hcontains, hfloating,
        Bool.false_eq_true, if_false]
      cases negative <;> rfl
    exact value_number hvalue fuel

end Number

theorem isScalar_infinite (negative : Bool) :
    IsScalar (.float (.infinite negative)) (floatText (.infinite negative)) Tag.number := by
  cases negative with
  | false => exact ⟨rfl, rfl, by decide, by decide, by decide, .inr (by decide), value_number rfl⟩
  | true => exact ⟨rfl, rfl, by decide, by decide, by decide, .inr (by decide), value_number rfl⟩

theorem isScalar_nan : IsScalar (.float .nan) (floatText .nan) Tag.number :=
  ⟨rfl, rfl, by decide, by decide, by decide, .inr (by decide), value_number rfl⟩

theorem isScalar_float (x : Binary64) : IsScalar (.float x) (floatText x) Tag.number := by
  cases x with
  | nan => exact isScalar_nan
  | infinite negative => exact isScalar_infinite negative
  | finite negative code => exact isScalar_finite negative code

namespace Storable

variable {n : Nat}

theorem text {s : String} (h : '\u0085' ∉ s.toList) : Storable n (.text s) := .scalar (isScalar_text h)

theorem bool (b : Bool) : Storable n (.bool b) := .scalar (isScalar_bool b)

theorem float (x : Binary64) : Storable n (.float x) := .scalar (isScalar_float x)

theorem int {i : Int} (h : Text.isWritable i) : Storable n (.int i) :=
  .scalar (isScalar_int i h)

theorem texts (items : List String) (h : ∀ item ∈ items, '\u0085' ∉ item.toList) :
    Storable (n + 1) (.list (items.map .text)) := by
  refine .list fun item hin => ?_
  obtain ⟨t, ht, rfl⟩ := List.mem_map.1 hin
  exact .text (h t ht)

theorem mapping (keys : List String) {entries : List (String × Value)} (hkeys : entries.map (·.1) = keys)
    (hnodup : keys.Nodup) (hshort : ∀ key ∈ keys, IsShortKey key) (h : ∀ entry ∈ entries, Storable n entry.2) :
    Storable (n + 1) (.map (textEntries entries)) :=
  .map (hkeys ▸ hnodup) (fun _ hin => (hshort _ (hkeys ▸ List.mem_map_of_mem hin)).isKey) h

end Storable

end CaveMap.Yaml
