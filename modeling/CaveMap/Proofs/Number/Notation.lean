import CaveMap.Number.Rounded
import CaveMap.Proofs.Number.Digits
import CaveMap.Proofs.Number.Shortest

namespace CaveMap

open Text

theorem ofDigitChars_append_zeros (digits : List Char) (n : Nat) :
    Nat.ofDigitChars 10 (digits ++ List.replicate n '0') 0 = Nat.ofDigitChars 10 digits 0 * 10 ^ n := by
  rw [Nat.ofDigitChars_append, Nat.ofDigitChars_replicate_zero, Nat.mul_comm]

theorem ofDigitChars_zeros_append (digits : List Char) (n : Nat) :
    Nat.ofDigitChars 10 (List.replicate n '0' ++ digits) 0 = Nat.ofDigitChars 10 digits 0 := by
  rw [Nat.ofDigitChars_append, Nat.ofDigitChars_replicate_zero, Nat.mul_zero]

theorem head?_toDigits {n : Nat} (hn : 0 < n) : (Nat.toDigits 10 n).head? ≠ some '0' := by
  induction n using Nat.strong_induction_on with
  | _ n ih =>
    rcases Nat.lt_or_ge n 10 with hlt | hge
    · have hsingle : ∀ m < 10, 0 < m → [Nat.digitChar m].head? ≠ some '0' := by decide
      rw [Nat.toDigits_of_lt_base hlt]
      exact hsingle n hlt hn
    · have hquot := ih (n / 10) (Nat.div_lt_self hn (by decide)) (Nat.div_pos hge (by decide))
      rw [Nat.toDigits_of_base_le (by decide) hge]
      cases hd : Nat.toDigits 10 (n / 10) with
      | nil => exact absurd hd Nat.toDigits_ne_nil
      | cons c rest => rwa [hd] at hquot

def pointedText (whole fraction : List Char) (power : Option Int) : List Char :=
  whole ++ '.' :: (fraction ++ power.elim [] Binary64.exponentText)

/-- The digits on both sides of the point are those of the number, with zeros around them that the exponent
makes up for. -/
structure Notates (d : Decimal) (whole fraction : List Char) (power : Option Int) : Prop where
  whole_ne : whole ≠ []
  digits : ∃ before behind, whole ++ fraction =
      List.replicate before '0' ++ (Nat.toDigits 10 d.digits ++ List.replicate behind '0') ∧
    power.getD 0 - fraction.length = d.exponent - behind

namespace Notates

variable {d : Decimal} {whole fraction : List Char} {power : Option Int}

theorem isDigits (h : Notates d whole fraction power) : IsDigits whole ∧ IsDigits fraction := by
  obtain ⟨before, behind, hall, -⟩ := h.digits
  have hdigits : IsDigits (whole ++ fraction) := by
    rw [hall]
    exact (IsDigits.zeros before).append ((IsDigits.toDigits _).append (IsDigits.zeros behind))
  exact ⟨hdigits.sublist (List.sublist_append_left _ _), hdigits.sublist (List.sublist_append_right _ _)⟩

theorem value (h : Notates d whole fraction power) :
    (Nat.ofDigitChars 10 (whole ++ fraction) 0 : ℚ) * 10 ^ (power.getD 0 - fraction.length) = d.value := by
  obtain ⟨before, behind, hall, hpower⟩ := h.digits
  rw [hall, hpower, ofDigitChars_zeros_append, ofDigitChars_append_zeros, Nat.ofDigitChars_ten_toDigits,
    Decimal.value, zpow_sub₀ (by norm_num), zpow_natCast]
  push_cast
  field_simp

end Notates

namespace Decimal

theorem notates_positional (d : Decimal) :
    Notates d d.positional.1 (if d.positional.2.isEmpty then ['0'] else d.positional.2) none := by
  unfold positional
  dsimp only
  generalize hdigits : Nat.toDigits 10 d.digits = digits
  have hne : digits ≠ [] := by
    rw [← hdigits]
    exact Nat.toDigits_ne_nil
  have hpos : 0 < digits.length := List.length_pos_iff.2 hne
  split
  · next hpoint =>
    generalize hz : (-(digits.length + d.exponent : Int)).toNat = zeros
    have hfilled : (List.replicate zeros '0' ++ digits).isEmpty = false := by simp [hne]
    dsimp only
    rw [if_neg (by simp [hne])]
    refine ⟨by simp, zeros + 1, 0, ?_, ?_⟩
    · rw [hdigits, List.replicate_succ, List.replicate_zero, List.append_nil]
      rfl
    · rw [List.length_append, List.length_replicate]
      simp
      omega
  · next hpoint =>
    generalize hp : (digits.length + d.exponent : Int).toNat = point
    dsimp only
    split
    · next hempty =>
      rw [List.isEmpty_iff, List.drop_eq_nil_iff] at hempty
      refine ⟨by simp [hne]; omega, 0, point - digits.length + 1, ?_, ?_⟩
      · rw [hdigits, List.take_of_length_le hempty, List.replicate_succ', List.append_assoc]
        rfl
      · simp
        omega
    · next hfilled =>
      rw [List.isEmpty_iff, List.drop_eq_nil_iff] at hfilled
      have hzeros : point - digits.length = 0 := by omega
      refine ⟨by simp [hne]; omega, 0, 0, ?_, ?_⟩
      · rw [hdigits, hzeros]
        simp
      · simp
        omega

theorem notates_scientific (d : Decimal) :
    Notates d ((Nat.toDigits 10 d.digits).take 1)
      (if (Nat.toDigits 10 d.digits).length ≤ 1 then ['0'] else (Nat.toDigits 10 d.digits).drop 1)
      (some d.leadingPower) := by
  unfold leadingPower
  generalize hdigits : Nat.toDigits 10 d.digits = digits
  have hne : digits ≠ [] := by
    rw [← hdigits]
    exact Nat.toDigits_ne_nil
  have hpos : 0 < digits.length := List.length_pos_iff.2 hne
  split
  · next hone =>
    refine ⟨by simp [hne], 0, 1, ?_, ?_⟩
    · rw [hdigits, List.take_of_length_le hone]
      rfl
    · simp
      omega
  · next hmore =>
    refine ⟨by simp [hne], 0, 0, ?_, ?_⟩
    · rw [hdigits, List.take_append_drop]
      simp
    · simp
      omega

def mantissa (d : Decimal) : List Char :=
  let digits := Nat.toDigits 10 d.digits
  digits.take 1 ++ if digits.length ≤ 1 then [] else '.' :: digits.drop 1

theorem toList_scientific (d : Decimal) :
    d.scientific.toList = d.mantissa ++ Binary64.exponentText d.leadingPower := by
  have hsign : (if d.leadingPower < 0 then "-" else "+" : String).toList =
      [if d.leadingPower < 0 then '-' else '+'] := by
    split <;> rfl
  have hmark : "e".toList = ['e'] := rfl
  unfold scientific mantissa Binary64.exponentText
  simp only [String.toList_append, String.toList_ofList, hsign, hmark, List.append_assoc, List.cons_append,
    List.nil_append]

end Decimal

theorem isDigits_paddedText (width n : Nat) : IsDigits (paddedText width n).toList := by
  rw [paddedText, String.toList_ofList]
  exact (IsDigits.zeros _).append (IsDigits.toDigits n)

theorem paddedText_ne_nil (width n : Nat) : (paddedText width n).toList ≠ [] := by
  rw [paddedText, String.toList_ofList]
  exact List.append_ne_nil_of_right_ne_nil _ Nat.toDigits_ne_nil

theorem ofDigitChars_paddedText (width n : Nat) : Nat.ofDigitChars 10 (paddedText width n).toList 0 = n := by
  rw [paddedText, String.toList_ofList, ofDigitChars_zeros_append, Nat.ofDigitChars_ten_toDigits]

theorem exponentText_figures (power : Int) : ∀ c ∈ Binary64.exponentText power, IsFigure c := by
  intro c hc
  rcases List.mem_cons.1 hc with rfl | hc
  · decide
  · rcases List.mem_cons.1 hc with rfl | hc
    · split <;> decide
    · exact isFigure_of_isDigit (isDigits_paddedText _ _ c hc)

theorem pointedText_figures {whole fraction : List Char} (hw : IsDigits whole) (hf : IsDigits fraction)
    (power : Option Int) : ∀ c ∈ pointedText whole fraction power, IsFigure c := by
  intro c hc
  rcases List.mem_append.1 hc with hc | hc
  · exact isFigure_of_isDigit (hw c hc)
  · rcases List.mem_cons.1 hc with rfl | hc
    · decide
    · rcases List.mem_append.1 hc with hc | hc
      · exact isFigure_of_isDigit (hf c hc)
      · cases power with
        | none => cases hc
        | some power => exact exponentText_figures power c hc

namespace Numeral

theorem takeWhile_run (p : Char → Bool) {run : List Char} (rest : List Char) (hrun : ∀ c ∈ run, p c)
    (hrest : rest.head?.all fun c => !p c) :
    (run ++ rest).takeWhile p = run ∧ (run ++ rest).dropWhile p = rest := by
  rw [List.takeWhile_append_of_pos hrun, List.dropWhile_append_of_pos hrun]
  cases rest with
  | nil => exact ⟨List.append_nil run, rfl⟩
  | cons c rest =>
    have hc : ¬ p c = true := by simpa using hrest
    rw [List.takeWhile_cons_of_neg hc, List.dropWhile_cons_of_neg hc]
    exact ⟨List.append_nil run, rfl⟩

theorem digitsValue?_paddedText (width n : Nat) : digitsValue? 10 (paddedText width n).toList = some n := by
  rw [digitsValue?_of_isDigits (isDigits_paddedText width n) (paddedText_ne_nil width n), ofDigitChars_paddedText]

theorem decimal?_pointedText {whole fraction : List Char} (hw : IsDigits whole) (hf : IsDigits fraction)
    (hne : whole ≠ []) (power : Option Int) :
    decimal? (pointedText whole fraction power) =
      some (Nat.ofDigitChars 10 (whole ++ fraction) 0, power.getD 0 - fraction.length) := by
  have hdigit : ∀ {digits : List Char}, IsDigits digits → ∀ c ∈ digits, (decimalDigit? c).isSome = true :=
    fun h c hc => by rw [decimalDigit?_of_isDigit (h c hc)]; rfl
  have hpoint : (!(decimalDigit? '.').isSome) = true := by decide
  have hmark : (!(decimalDigit? 'e').isSome) = true := by decide
  obtain ⟨hwhole, hbehind⟩ := takeWhile_run (fun c => (decimalDigit? c).isSome)
    ('.' :: (fraction ++ power.elim [] Binary64.exponentText)) (hdigit hw) hpoint
  have hvalue := digitsValue?_of_isDigits (hw.append hf) (List.append_ne_nil_of_left_ne_nil hne fraction)
  unfold decimal?
  dsimp only [pointedText]
  rw [hwhole, hbehind]
  cases power with
  | none =>
    obtain ⟨hfraction, hend⟩ := takeWhile_run (fun c => (decimalDigit? c).isSome) [] (hdigit hf) rfl
    simp only [Option.elim_none, hfraction, hend, hvalue, Option.getD_none]
  | some power =>
    obtain ⟨hfraction, hend⟩ := takeWhile_run (fun c => (decimalDigit? c).isSome)
      (Binary64.exponentText power) (hdigit hf) hmark
    have hsign : splitSign ((if power < 0 then '-' else '+') :: (paddedText 2 power.natAbs).toList) =
        (decide (power < 0), (paddedText 2 power.natAbs).toList) := by
      by_cases hneg : power < 0
      · rw [if_pos hneg, decide_eq_true hneg]
        rfl
      · rw [if_neg hneg, decide_eq_false hneg]
        rfl
    simp only [Option.elim_some, hfraction, hend, hvalue]
    simp only [Binary64.exponentText, true_or, if_true, hsign, digitsValue?_paddedText, Option.map_some,
      Binary64.signed_natAbs, Option.getD_some]

theorem named?_of_point {text : List Char} (h : '.' ∈ text) (negative : Bool) : named? negative text = none := by
  have hlower : '.' ∈ text.map Char.toLower := List.mem_map_of_mem (f := Char.toLower) h
  have hname : ∀ name : String, '.' ∉ name.toList → String.ofList (text.map Char.toLower) ≠ name := by
    intro name hpoint heq
    rw [← heq, String.toList_ofList] at hpoint
    exact hpoint hlower
  unfold named?
  dsimp only
  rw [if_neg, if_neg (hname "nan" (by decide))]
  rintro (heq | heq)
  · exact hname "inf" (by decide) heq
  · exact hname "infinity" (by decide) heq

/-- Every notation of the shortest number of a magnitude is read as the magnitude. -/
theorem float?_pointedText {code : Fin magnitudeCount} {whole fraction : List Char} {power : Option Int}
    (h : Notates (Binary64.shortest code) whole fraction power) :
    float? (String.ofList (pointedText whole fraction power)) = some (.finite false code) := by
  obtain ⟨hw, hf⟩ := h.isDigits
  have hfigures := pointedText_figures hw hf power
  have hpoint : '.' ∈ pointedText whole fraction power :=
    List.mem_append_right _ List.mem_cons_self
  have hsign : splitSign (pointedText whole fraction power) = (false, pointedText whole fraction power) := by
    obtain ⟨c, rest, rfl⟩ := List.exists_cons_of_ne_nil h.whole_ne
    exact splitSign_of_isDigit (hw c List.mem_cons_self)
  have hbars : '_' ∉ pointedText whole fraction power := fun hin => (hfigures '_' hin).ne_underscore rfl
  unfold float?
  rw [String.toList_ofList, strip_figures hfigures, hsign]
  dsimp only
  rw [dropUnderscores?_eq _ hbars, Option.bind_some, unsigned?, named?_of_point hpoint,
    decimal?_pointedText hw hf h.whole_ne, Option.none_or, Option.map_some]
  dsimp only
  rw [Binary64.ofDecimal_shortest false code h.value]

end Numeral

end CaveMap
