import CaveMap.Proofs.Number.Notation

namespace CaveMap

/-- An optional minus sign, digits, and perhaps a point with more digits. -/
inductive IsPlain : String → Prop
  | whole (negative : Bool) {digits : List Char} : IsDigits digits → digits ≠ [] →
      IsPlain (Binary64.signMark negative ++ String.ofList digits)
  | pointed (negative : Bool) {digits fraction : List Char} : IsDigits digits → digits ≠ [] →
      IsDigits fraction → fraction ≠ [] →
      IsPlain (Binary64.signMark negative ++ String.ofList (digits ++ '.' :: fraction))

theorem IsPlain.not_letter {text : String} (h : IsPlain text) : 'n' ∉ text.toList := by
  have hsign (negative : Bool) : 'n' ∉ (Binary64.signMark negative).toList := by cases negative <;> decide
  cases h with
  | whole negative hd =>
    rw [String.toList_append, String.toList_ofList, List.mem_append, not_or]
    exact ⟨hsign negative, hd.not_mem (by decide)⟩
  | pointed negative hd _ hf =>
    rw [String.toList_append, String.toList_ofList, List.mem_append, List.mem_append, List.mem_cons]
    rintro (hin | hin | hin | hin)
    · exact hsign negative hin
    · exact hd.not_mem (by decide) hin
    · cases hin
    · exact hf.not_mem (by decide) hin

theorem Text.isPlain_integerText (i : Int) : IsPlain (integerText i) := by
  have hdigits := IsPlain.whole (decide (i < 0)) (IsDigits.toDigits i.natAbs) Nat.toDigits_ne_nil
  unfold integerText decimalText
  by_cases hi : i < 0
  · simpa [hi, Binary64.signMark] using hdigits
  · simpa [hi, Binary64.signMark] using hdigits

namespace Decimal

theorem value_of_no_fraction {d : Decimal} (h : d.positional.2 = []) : ∃ n : Nat, d.value = n := by
  have hvalue := d.notates_positional.value
  rw [h, List.isEmpty_nil, if_pos rfl] at hvalue
  refine ⟨Nat.ofDigitChars 10 d.positional.1 0, ?_⟩
  rw [← hvalue, ← List.replicate_one, ofDigitChars_append_zeros]
  simp

end Decimal

namespace Binary64

theorem Nearest.mod_unit {code n : Nat} (h : Nearest code n) :
    significand code % 2 ^ (-exponent code).toNat = 0 := by
  rcases Int.le_total 0 (exponent code) with he | he
  · rw [Int.toNat_of_nonpos (by omega), Nat.pow_zero, Nat.mod_one]
  · have hpower : power (exponent code) = 1 / 2 ^ (-exponent code).toNat := by
      rw [power_eq_quotient, Int.toNat_of_nonpos he, pow_zero]
    have hlow := h.low_half
    have hhigh := h.high
    generalize (-exponent code).toNat = k at hpower ⊢
    have hk : (0 : ℚ) < 2 ^ k := by positivity
    rw [hpower, mul_one_div, div_le_iff₀ hk] at hlow
    rw [hpower, mul_one_div, le_div_iff₀ hk] at hhigh
    -- Half a step is the most that the two can be apart, and both are whole numbers of steps.
    have habove : 2 * significand code ≤ 2 * (n * 2 ^ k) + 1 := by
      have : (2 * significand code : ℚ) ≤ 2 * (n * 2 ^ k) + 1 := by linarith
      exact_mod_cast this
    have hbelow : 2 * (n * 2 ^ k) ≤ 2 * significand code + 1 := by
      have : (2 * (n * 2 ^ k) : ℚ) ≤ 2 * significand code + 1 := by linarith
      exact_mod_cast this
    have heq : significand code = n * 2 ^ k := by omega
    rw [heq, Nat.mul_mod_left]

theorem toInt?_of_no_fraction (negative : Bool) {code : Fin magnitudeCount}
    (h : (shortest code).positional.2 = []) : (finite negative code).toInt?.isSome := by
  have hwhole : significand code % 2 ^ (-exponent code).toNat = 0 := by
    rcases Nat.eq_zero_or_pos code.val with hzero | hpos
    · have hnone : significand code = 0 := by
        rw [hzero]
        rfl
      rw [hnone, Nat.zero_mod]
    · obtain ⟨n, hn⟩ := Decimal.value_of_no_fraction h
      exact Nearest.mod_unit (hn ▸ nearest_shortest hpos)
  simp only [toInt?, Nat.pow_eq, if_pos hwhole, Option.isSome_some]

theorem plainText_of_toInt? {x : Binary64} {i : Int} (h : x.toInt? = some i) :
    x.plainText = Text.integerText i := by
  unfold plainText
  rw [h]

theorem isPlain_plainText {x : Binary64} (h : x.isFinite) : IsPlain x.plainText := by
  cases x with
  | nan => cases h
  | infinite => cases h
  | finite negative code =>
    unfold plainText
    cases hint : (finite negative code).toInt? with
    | some i => exact Text.isPlain_integerText i
    | none =>
      obtain ⟨hwhole, hfraction⟩ := (shortest code).notates_positional.isDigits
      have hne : (shortest code).positional.2 ≠ [] := by
        intro hempty
        have hsome := toInt?_of_no_fraction negative hempty
        rw [hint] at hsome
        cases hsome
      rw [if_neg (by simpa using hne)] at hfraction
      exact .pointed negative hwhole (shortest code).notates_positional.whole_ne hfraction hne

theorem plainText_not_finite {x : Binary64} (h : x.isFinite = false) :
    x = .nan ∧ x.plainText = "nan" ∨ x = .infinite true ∧ x.plainText = "-inf" ∨
      x = .infinite false ∧ x.plainText = "inf" := by
  cases x with
  | nan => exact .inl ⟨rfl, rfl⟩
  | infinite negative =>
    cases negative with
    | true => exact .inr (.inl ⟨rfl, by decide⟩)
    | false => exact .inr (.inr ⟨rfl, by decide⟩)
  | finite => cases h

theorem isPlain_plainText_iff {x : Binary64} : IsPlain x.plainText ↔ x.isFinite := by
  constructor
  · intro hplain
    by_contra hnot
    have hletter := hplain.not_letter
    rcases plainText_not_finite (by simpa using hnot) with ⟨-, he⟩ | ⟨-, he⟩ | ⟨-, he⟩ <;>
      exact absurd (by rw [he]; decide) hletter
  · exact isPlain_plainText

end Binary64

end CaveMap
