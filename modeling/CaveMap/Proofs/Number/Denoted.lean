import CaveMap.Proofs.Number.Plain
import CaveMap.Proofs.Text.Lines

namespace CaveMap

open Text

def withSign (negative : Bool) (x : ℚ) : ℚ := if negative then -x else x

@[simp] theorem withSign_zero (negative : Bool) : withSign negative 0 = 0 := by
  cases negative <;> simp [withSign]

theorem withSign_signed (negative : Bool) (n : Nat) : withSign negative n = (Binary64.signed negative n : ℚ) := by
  cases negative <;> simp [withSign, Binary64.signed]

/-- What digits, and perhaps a point with more digits, denote. -/
inductive Positional : List Char → ℚ → Prop
  | whole {digits : List Char} : IsDigits digits → digits ≠ [] → Positional digits (Nat.ofDigitChars 10 digits 0)
  | pointed {digits fraction : List Char} : IsDigits digits → digits ≠ [] → IsDigits fraction → fraction ≠ [] →
      Positional (digits ++ '.' :: fraction) (Nat.ofDigitChars 10 (digits ++ fraction) 0 / 10 ^ fraction.length)

/-- What a decimal number denotes that has a minus or no sign, and perhaps an exponent. -/
inductive Denotes : String → ℚ → Prop
  | plain (negative : Bool) {text : List Char} {x : ℚ} : Positional text x →
      Denotes (Binary64.signMark negative ++ String.ofList text) (withSign negative x)
  | scaled (negative down : Bool) {text power : List Char} {x : ℚ} : Positional text x → IsDigits power → power ≠ [] →
      Denotes (Binary64.signMark negative ++ String.ofList (text ++ 'e' :: (if down then '-' else '+') :: power))
        (withSign negative (x * 10 ^ Binary64.signed down (Nat.ofDigitChars 10 power 0)))

namespace Positional

variable {text text' : List Char} {x y : ℚ}

theorem head_isDigit (h : Positional text x) : ∃ c rest, text = c :: rest ∧ c.isDigit := by
  have hdigits {digits : List Char} (hd : IsDigits digits) (hne : digits ≠ []) :
      ∃ c rest, digits = c :: rest ∧ c.isDigit := by
    obtain ⟨c, rest, rfl⟩ := List.exists_cons_of_ne_nil hne
    exact ⟨c, rest, rfl, hd c List.mem_cons_self⟩
  cases h with
  | whole hd hne => exact hdigits hd hne
  | pointed hd hne _ _ =>
    obtain ⟨c, rest, rfl, hc⟩ := hdigits hd hne
    exact ⟨c, _, List.cons_append, hc⟩

theorem not_mem {c : Char} (h : Positional text x) (hc : c.isDigit = false) (hpoint : c ≠ '.') : c ∉ text := by
  cases h with
  | whole hd _ => exact hd.not_mem hc
  | pointed hd _ hf _ =>
    rw [List.mem_append, List.mem_cons]
    rintro (hin | hin | hin)
    · exact hd.not_mem hc hin
    · exact hpoint hin
    · exact hf.not_mem hc hin

theorem unique (h : Positional text x) (h' : Positional text' y) (he : text = text') : x = y := by
  have hpoint {digits : List Char} (hd : IsDigits digits) : '.' ∉ digits := hd.not_mem (by decide)
  cases h with
  | whole hd _ =>
    cases h' with
    | whole _ _ => rw [he]
    | pointed _ _ _ _ =>
      have hin := hpoint hd
      rw [he] at hin
      exact absurd (List.mem_append_right _ List.mem_cons_self) hin
  | pointed hd _ _ _ =>
    cases h' with
    | whole hd' _ =>
      have hin := hpoint hd'
      rw [← he] at hin
      exact absurd (List.mem_append_right _ List.mem_cons_self) hin
    | pointed hd' _ _ _ =>
      obtain ⟨rfl, rfl⟩ := first_mark_inj (hpoint hd) (hpoint hd') he
      rfl

end Positional

namespace Denotes

theorem sign_inj {negative negative' : Bool} {c c' : Char} {rest rest' : List Char} (hc : c.isDigit)
    (hc' : c'.isDigit)
    (he : Binary64.signMark negative ++ String.ofList (c :: rest) =
      Binary64.signMark negative' ++ String.ofList (c' :: rest')) :
    negative = negative' ∧ c :: rest = c' :: rest' := by
  have hminus {d : Char} (hd : d.isDigit) : d ≠ '-' := by
    rintro rfl
    cases hd
  have hlist (n : Bool) (text : List Char) : (Binary64.signMark n ++ String.ofList text).toList =
      (if n then ['-'] else []) ++ text := by
    rw [String.toList_append, String.toList_ofList]
    cases n <;> rfl
  have hboth := congrArg String.toList he
  rw [hlist, hlist] at hboth
  cases negative <;> cases negative'
  · exact ⟨rfl, hboth⟩
  · exact absurd (List.cons.inj hboth).1 (hminus hc)
  · exact absurd (List.cons.inj hboth).1.symm (hminus hc')
  · exact ⟨rfl, (List.cons.inj hboth).2⟩

theorem unique {text text' : String} {x y : ℚ} (h : Denotes text x) (h' : Denotes text' y) (he : text = text') :
    x = y := by
  cases h with
  | plain negative hp =>
    obtain ⟨c, rest, rfl, hc⟩ := hp.head_isDigit
    cases h' with
    | plain negative' hp' =>
      obtain ⟨c', rest', rfl, hc'⟩ := hp'.head_isDigit
      obtain ⟨rfl, htext⟩ := sign_inj hc hc' he
      rw [hp.unique hp' htext]
    | scaled negative' down hp' _ _ =>
      obtain ⟨c', rest', rfl, hc'⟩ := hp'.head_isDigit
      obtain ⟨-, htext⟩ := sign_inj hc hc' he
      have hmark : 'e' ∉ c :: rest := hp.not_mem (by decide) (by decide)
      rw [htext] at hmark
      exact absurd (List.mem_append_right (c' :: rest') List.mem_cons_self) hmark
  | scaled negative down hp _ _ =>
    obtain ⟨c, rest, rfl, hc⟩ := hp.head_isDigit
    have hmark : 'e' ∉ c :: rest := hp.not_mem (by decide) (by decide)
    cases h' with
    | plain negative' hp' =>
      obtain ⟨c', rest', rfl, hc'⟩ := hp'.head_isDigit
      obtain ⟨-, htext⟩ := sign_inj hc hc' he
      have hmark' : 'e' ∉ c' :: rest' := hp'.not_mem (by decide) (by decide)
      rw [← htext] at hmark'
      exact absurd (List.mem_append_right (c :: rest) List.mem_cons_self) hmark'
    | scaled negative' down' hp' _ _ =>
      obtain ⟨c', rest', rfl, hc'⟩ := hp'.head_isDigit
      obtain ⟨rfl, htext⟩ := sign_inj hc hc' he
      obtain ⟨hfront, hbehind⟩ := first_mark_inj hmark (hp'.not_mem (by decide) (by decide)) htext
      obtain ⟨hdown, rfl⟩ := List.cons.inj hbehind
      rw [hp.unique hp' hfront]
      cases down <;> cases down'
      · rfl
      · cases hdown
      · cases hdown
      · rfl

end Denotes

theorem Text.denotes_integerText (i : Int) : Denotes (integerText i) i := by
  have hpositional := Positional.whole (IsDigits.toDigits i.natAbs) Nat.toDigits_ne_nil
  rw [Nat.ofDigitChars_ten_toDigits] at hpositional
  have hdenotes := Denotes.plain (decide (i < 0)) hpositional
  rw [withSign_signed, Binary64.signed_natAbs] at hdenotes
  unfold integerText decimalText
  by_cases hi : i < 0
  · simpa [hi, Binary64.signMark] using hdenotes
  · simpa [hi, Binary64.signMark] using hdenotes

theorem Text.point_not_mem_integerText (i : Int) : '.' ∉ (integerText i).toList := by
  have hdigits : '.' ∉ (decimalText i.natAbs).toList := by
    rw [decimalText, String.toList_ofList]
    exact (IsDigits.toDigits _).not_mem (by decide)
  unfold integerText
  split
  · rw [String.toList_append, List.mem_append, not_or]
    exact ⟨by decide, hdigits⟩
  · exact hdigits

theorem Notates.positional {d : Decimal} {whole fraction : List Char} (h : Notates d whole fraction none)
    (hne : fraction ≠ []) : Positional (whole ++ '.' :: fraction) d.value := by
  obtain ⟨hw, hf⟩ := h.isDigits
  have hvalue := h.value
  rw [Option.getD_none, zero_sub, zpow_neg, zpow_natCast, ← div_eq_mul_inv] at hvalue
  rw [← hvalue]
  exact .pointed hw h.whole_ne hf hne

namespace Decimal

theorem positional_mantissa (d : Decimal) :
    ∃ x : ℚ, Positional d.mantissa x ∧ x * 10 ^ d.leadingPower = d.value := by
  have hdigits := IsDigits.toDigits d.digits
  have hvalue := Nat.ofDigitChars_ten_toDigits (n := d.digits)
  have hne : Nat.toDigits 10 d.digits ≠ [] := Nat.toDigits_ne_nil
  unfold mantissa leadingPower value
  dsimp only
  generalize Nat.toDigits 10 d.digits = digits at *
  have hpos : 0 < digits.length := List.length_pos_iff.2 hne
  split
  · next hone =>
    refine ⟨d.digits, ?_, ?_⟩
    · rw [List.append_nil, List.take_of_length_le hone, ← hvalue]
      exact .whole hdigits hne
    · congr 2
      omega
  · next hmore =>
    refine ⟨d.digits / 10 ^ (digits.drop 1).length, ?_, ?_⟩
    · have hall := Positional.pointed (hdigits.sublist (List.take_sublist 1 digits)) (by simpa using hne)
        (hdigits.sublist (List.drop_sublist 1 digits)) (by rwa [ne_eq, List.drop_eq_nil_iff])
      rwa [List.take_append_drop, hvalue] at hall
    · rw [List.length_drop, div_mul_eq_mul_div, mul_div_assoc, ← zpow_natCast, ← zpow_sub₀ (by norm_num)]
      congr 2
      omega

theorem denotes_scientific (d : Decimal) (negative : Bool) :
    Denotes (Binary64.signMark negative ++ d.scientific) (withSign negative d.value) := by
  obtain ⟨x, hpositional, hvalue⟩ := d.positional_mantissa
  have htext : d.scientific = String.ofList (d.mantissa ++
      'e' :: (if decide (d.leadingPower < 0) then '-' else '+') :: (paddedText 2 d.leadingPower.natAbs).toList) := by
    rw [← String.toList_inj, toList_scientific, String.toList_ofList]
    simp only [Binary64.exponentText, decide_eq_true_eq]
  have hdenotes := Denotes.scaled negative (decide (d.leadingPower < 0)) hpositional
    (isDigits_paddedText 2 d.leadingPower.natAbs) (paddedText_ne_nil 2 d.leadingPower.natAbs)
  rw [ofDigitChars_paddedText, Binary64.signed_natAbs, hvalue] at hdenotes
  rwa [htext]

end Decimal

namespace Binary64

/-- What is written for a finite number to be read back denotes the shortest number of its magnitude. -/
theorem denotes_text (negative : Bool) (code : Fin magnitudeCount) :
    Denotes (finite negative code).text (withSign negative (shortest code).value) := by
  unfold text
  dsimp only
  split
  · refine .plain negative ((shortest code).notates_positional.positional ?_)
    split
    · exact List.cons_ne_nil _ _
    · next hne => simpa using hne
  · exact (shortest code).denotes_scientific negative

theorem denotes_plainText {negative : Bool} {code : Fin magnitudeCount} (h : (finite negative code).toInt? = none) :
    Denotes (finite negative code).plainText (withSign negative (shortest code).value) ∧
      '.' ∈ (finite negative code).plainText.toList := by
  have hne : (shortest code).positional.2 ≠ [] := by
    intro hempty
    have hsome := toInt?_of_no_fraction negative hempty
    rw [h] at hsome
    cases hsome
  have hnotates := (shortest code).notates_positional
  rw [if_neg (by simpa using hne)] at hnotates
  unfold plainText
  rw [h]
  refine ⟨.plain negative (hnotates.positional hne), ?_⟩
  rw [String.toList_append, String.toList_ofList]
  exact List.mem_append_right _ (List.mem_append_right _ List.mem_cons_self)

end Binary64

end CaveMap
