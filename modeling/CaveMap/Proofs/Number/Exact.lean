import CaveMap.Proofs.Number.Characters
import CaveMap.Proofs.Number.Denoted
import CaveMap.Proofs.Number.Fewest

namespace CaveMap

theorem abs_withSign (negative : Bool) {x : ℚ} (h : 0 ≤ x) : |withSign negative x| = x := by
  cases negative with
  | false => exact abs_of_nonneg h
  | true => exact (abs_neg x).trans (abs_of_nonneg h)

theorem withSign_inj {negative negative' : Bool} {x y : ℚ} (hx : 0 < x) (hy : 0 < y)
    (h : withSign negative x = withSign negative' y) : negative = negative' ∧ x = y := by
  have habs := congrArg abs h
  rw [abs_withSign _ hx.le, abs_withSign _ hy.le] at habs
  refine ⟨?_, habs⟩
  cases negative <;> cases negative' <;> simp only [withSign, if_true, Bool.false_eq_true, if_false] at h ⊢ <;>
    linarith

namespace Binary64

def magnitude (code : Nat) : ℚ := significand code * power (exponent code)

theorem magnitude_zero : magnitude 0 = 0 := by
  have hzero : significand 0 = 0 := rfl
  rw [magnitude, hzero, Nat.cast_zero, zero_mul]

theorem magnitude_pos {code : Nat} (h : 0 < code) : 0 < magnitude code :=
  mul_pos (by exact_mod_cast significand_pos h) (power_pos _)

theorem magnitude_nonneg (code : Nat) : 0 ≤ magnitude code := by
  rcases Nat.eq_zero_or_pos code with rfl | h
  · exact magnitude_zero.ge
  · exact (magnitude_pos h).le

theorem Nearest.unique {a b : Nat} {v : ℚ} (ha : Nearest a v) (hb : Nearest b v) (hpos : 0 < a) :
    a = b := by
  have hv := ha.pos hpos
  have hnum : 0 < v.num.toNat := Int.pos_iff_toNat_pos.1 (Rat.num_pos.2 hv)
  have hquotient : v = v.num.toNat / v.den := by
    conv_lhs => rw [← Rat.num_div_den v]
    congr 1
    exact_mod_cast (Int.toNat_of_nonneg (Rat.num_nonneg.2 hv.le)).symm
  rw [hquotient] at ha hb
  exact (nearestCode_eq hnum v.den_pos ha).symm.trans (nearestCode_eq hnum v.den_pos hb)

theorem magnitude_inj {a b : Nat} : magnitude a = magnitude b ↔ a = b := by
  refine ⟨fun h => ?_, fun h => congrArg magnitude h⟩
  rcases Nat.eq_zero_or_pos a with rfl | ha
  · rcases Nat.eq_zero_or_pos b with rfl | hb
    · rfl
    · exact absurd (h.symm.trans magnitude_zero) (magnitude_pos hb).ne'
  · rcases Nat.eq_zero_or_pos b with rfl | hb
    · exact absurd (h.trans magnitude_zero) (magnitude_pos ha).ne'
    · have hnearest : Nearest b (magnitude b) := nearest_self b
      rw [← h] at hnearest
      exact (nearest_self a).unique hnearest ha

theorem toInt?_eq_some_iff {negative : Bool} {code : Fin magnitudeCount} {i : Int} :
    (finite negative code).toInt? = some i ↔ withSign negative (magnitude code) = i := by
  have hcast {j : Int} (h : (finite negative code).toInt? = some j) : withSign negative (magnitude code) = j := by
    have hsign : signed negative j.natAbs = j := by
      simp only [toInt?] at h
      split at h
      · rw [← Option.some.inj h, natAbs_signed]
      · cases h
    rw [magnitude, ← natAbs_of_toInt? h, withSign_signed, hsign]
  refine ⟨hcast, fun h => ?_⟩
  have hvalue : magnitude code = i.natAbs := by
    rw [← abs_withSign negative (magnitude_nonneg code), h, Nat.cast_natAbs, Int.cast_abs]
  have hmod : significand code % 2 ^ (-exponent code).toNat = 0 := by
    refine Nearest.mod_unit (n := i.natAbs) ?_
    rw [← hvalue]
    exact nearest_self code
  cases hint : (finite negative code).toInt? with
  | none => simp [toInt?, hmod] at hint
  | some j => exact congrArg some (Int.cast_injective ((hcast hint).symm.trans h))

theorem finite_equals_iff {s t : Bool} {a b : Fin magnitudeCount} :
    (finite s a).equals (finite t b) ↔ withSign s (magnitude a) = withSign t (magnitude b) := by
  have hequals : (finite s a).equals (finite t b) ↔ a = b ∧ (s = t ∨ a.val = 0) := by simp [equals]
  rw [hequals]
  constructor
  · rintro ⟨rfl, rfl | hzero⟩
    · rfl
    · rw [hzero, magnitude_zero, withSign_zero, withSign_zero]
  · intro h
    have habs := congrArg abs h
    rw [abs_withSign _ (magnitude_nonneg _), abs_withSign _ (magnitude_nonneg _), magnitude_inj] at habs
    refine ⟨Fin.ext habs, ?_⟩
    rcases Nat.eq_zero_or_pos a.val with hzero | hpos
    · exact .inr hzero
    · exact .inl (withSign_inj (magnitude_pos hpos) (magnitude_pos (habs ▸ hpos)) h).1

theorem plainText_of_equals {x y : Binary64} (h : x.equals y) : x.plainText = y.plainText := by
  cases x with
  | nan => simp [equals] at h
  | infinite s =>
    cases y with
    | infinite t =>
      have hst : s = t := by simpa [equals] using h
      rw [hst]
    | _ => simp [equals] at h
  | finite s a =>
    cases y with
    | finite t b =>
      have hab : a = b ∧ (s = t ∨ a.val = 0) := by simpa [equals] using h
      obtain ⟨rfl, rfl | hzero⟩ := hab
      · rfl
      · have hsigned (negative : Bool) : (finite negative a).toInt? = some 0 := by
          rw [toInt?_eq_some_iff, hzero, magnitude_zero, withSign_zero, Int.cast_zero]
        rw [plainText_of_toInt? (hsigned s), plainText_of_toInt? (hsigned t)]
    | _ => simp [equals] at h

end Binary64

open Binary64

namespace Value

variable {v w : Value} {q r : ℚ}

theorem plain_of_equals (hv : v.IsNumber) (hw : w.IsNumber) (h : v.equals w) : v.plain = w.plain := by
  cases v with
  | int i =>
    cases w with
    | int j =>
      have hij : i = j := by simpa [equals, integer?] using h
      rw [hij]
    | float y =>
      have hy : y.toInt? = some i := by simpa [equals, integer?, Binary64.equalsInt] using h
      exact (Binary64.plainText_of_toInt? hy).symm
    | _ => exact hw.elim
  | float x =>
    cases w with
    | int j =>
      have hx : x.toInt? = some j := by simpa [equals, integer?, Binary64.equalsInt] using h
      exact Binary64.plainText_of_toInt? hx
    | float y =>
      have hxy : x.equals y := by simpa [equals] using h
      exact Binary64.plainText_of_equals hxy
    | _ => exact hw.elim
  | _ => exact hv.elim

theorem isWritable_of_equals (hv : v.IsNumber) (hw : w.IsNumber) (h : v.equals w) :
    v.isWritable = w.isWritable := by
  cases v with
  | int i =>
    cases w with
    | int j =>
      have hij : i = j := by simpa [equals, integer?] using h
      rw [hij]
    | float y =>
      have hy : y.toInt? = some i := by simpa [equals, integer?, Binary64.equalsInt] using h
      exact isWritable_of_toInt? hy
    | _ => exact hw.elim
  | float x =>
    cases w with
    | int j =>
      have hx : x.toInt? = some j := by simpa [equals, integer?, Binary64.equalsInt] using h
      exact (isWritable_of_toInt? hx).symm
    | float => rfl
    | _ => exact hw.elim
  | _ => exact hv.elim

/-- Integers and finite floating-point numbers, each with what it is exactly. -/
inductive AmountsTo : Value → ℚ → Prop
  | int (i : Int) : AmountsTo (int i) i
  | float (negative : Bool) (code : Fin magnitudeCount) :
      AmountsTo (float (finite negative code)) (withSign negative (magnitude code))

namespace AmountsTo

theorem isNumber (h : v.AmountsTo q) : v.IsNumber := by
  cases h <;> trivial

theorem equals_iff (hv : v.AmountsTo q) (hw : w.AmountsTo r) : v.equals w ↔ q = r := by
  cases hv with
  | int i =>
    cases hw with
    | int j => simp [equals, integer?]
    | float t b =>
      rw [@eq_comm ℚ, ← toInt?_eq_some_iff]
      simp [equals, integer?, equalsInt]
  | float s a =>
    cases hw with
    | int j =>
      rw [← toInt?_eq_some_iff]
      simp [equals, integer?, equalsInt]
    | float t b =>
      rw [← finite_equals_iff]
      simp [equals]

theorem plain_integral {i : Int} (h : v.AmountsTo i) : v.plain = Text.integerText i := by
  generalize hq : (i : ℚ) = q at h
  cases h with
  | int j => rw [Int.cast_injective hq]; rfl
  | float negative code => exact plainText_of_toInt? (toInt?_eq_some_iff.2 hq.symm)

theorem plain_fractional (h : v.AmountsTo q) (hq : ∀ i : Int, q ≠ i) : ∃ negative code d,
    v = .float (finite negative code) ∧ Fewest code d ∧ Denotes v.shown (withSign negative d.value) ∧
      Denotes v.plain (withSign negative d.value) ∧ '.' ∈ v.plain.toList := by
  cases h with
  | int i => exact absurd rfl (hq i)
  | float negative code =>
    have hnone : (finite negative code).toInt? = none :=
      Option.eq_none_iff_forall_ne_some.2 fun i hi => hq i (toInt?_eq_some_iff.1 hi)
    obtain ⟨hdenotes, hpoint⟩ := denotes_plainText hnone
    exact ⟨negative, code, shortest code, rfl, fewest_shortest code, denotes_text negative code, hdenotes, hpoint⟩

theorem isWritable_iff (h : v.AmountsTo q) : v.isWritable ↔ |q| < 10 ^ Text.maxDigits := by
  cases h with
  | int i =>
    have hint : (Value.int i).isWritable = Text.isWritable i := rfl
    rw [← Int.cast_abs, ← Nat.cast_natAbs, ← Nat.cast_ofNat, ← Nat.cast_pow, Nat.cast_lt, hint, Text.isWritable_iff,
      Nat.pow_eq]
  | float negative code =>
    rw [abs_withSign negative (magnitude_nonneg code)]
    refine iff_of_true rfl ?_
    calc magnitude code < power 1024 := (nearest_self code).lt_limit code.isLt
      _ ≤ power (3 * (400 : Nat)) := power_le_power.2 (by decide)
      _ ≤ 10 ^ 400 := power_le_ten 400
      _ ≤ 10 ^ Text.maxDigits := pow_le_pow_right₀ (by norm_num) (by decide)

theorem isPlain (h : v.AmountsTo q) : IsPlain v.plain := by
  cases h with
  | int i => exact Text.isPlain_integerText i
  | float negative code => exact isPlain_plainText rfl

theorem eq_of_plain (hv : v.AmountsTo q) (hw : w.AmountsTo r) (h : v.plain = w.plain) : q = r := by
  by_cases hq : ∃ i : Int, q = i
  · obtain ⟨i, rfl⟩ := hq
    by_cases hr : ∃ j : Int, r = j
    · obtain ⟨j, rfl⟩ := hr
      rw [hv.plain_integral, hw.plain_integral] at h
      exact (Text.denotes_integerText i).unique (Text.denotes_integerText j) h
    · obtain ⟨_, _, _, -, -, -, -, hin⟩ := hw.plain_fractional (not_exists.1 hr)
      rw [← h, hv.plain_integral] at hin
      exact absurd hin (Text.point_not_mem_integerText i)
  · obtain ⟨s, a, d, rfl, hd, -, hdenotes, hin⟩ := hv.plain_fractional (not_exists.1 hq)
    by_cases hr : ∃ j : Int, r = j
    · obtain ⟨j, rfl⟩ := hr
      rw [h, hw.plain_integral] at hin
      exact absurd hin (Text.point_not_mem_integerText j)
    · obtain ⟨t, b, e, rfl, he, -, hdenotes', -⟩ := hw.plain_fractional (not_exists.1 hr)
      cases hv with
      | float => cases hw with
        | float =>
          have ha : 0 < a.val := Nat.pos_of_ne_zero fun hzero => hq ⟨0, by simp [hzero, magnitude_zero]⟩
          have hb : 0 < b.val := Nat.pos_of_ne_zero fun hzero => hr ⟨0, by simp [hzero, magnitude_zero]⟩
          obtain ⟨rfl, hvalue⟩ :=
            withSign_inj (hd.nearest.pos ha) (he.nearest.pos hb) (hdenotes.unique hdenotes' h)
          have hnearest := he.nearest
          rw [← hvalue] at hnearest
          rw [hd.nearest.unique hnearest ha]

end AmountsTo

theorem plain?_eq_some {text : String} : v.plain? = some text ↔ v.isWritable ∧ v.plain = text := by
  unfold plain?
  split <;> simp_all

theorem shown?_eq_some {text : String} : v.shown? = some text ↔ v.isWritable ∧ v.shown = text := by
  unfold shown?
  split <;> simp_all

/-- How a number is written that is exactly `q`, always without an exponent: an integral one as it is, zero without
a sign, and any other as the number that it is shown as, whose digits are the fewest that identify it. -/
structure WrittenExactly (v : Value) (q : ℚ) (text : String) : Prop where
  isPlain : IsPlain text
  integral (i : Int) : q = i → Denotes text q ∧ '.' ∉ text.toList
  zero : q = 0 → text = "0"
  fractional : (∀ i : Int, q ≠ i) → ∃ negative code d shown, v = .float (finite negative code) ∧ Fewest code d ∧
    v.shown? = some shown ∧ Denotes shown (withSign negative d.value) ∧ Denotes text (withSign negative d.value)

theorem AmountsTo.writtenExactly (h : v.AmountsTo q) : v.WrittenExactly q v.plain where
  isPlain := h.isPlain
  integral := by
    rintro i rfl
    rw [h.plain_integral]
    exact ⟨Text.denotes_integerText i, Text.point_not_mem_integerText i⟩
  zero := by
    rintro rfl
    rw [← Int.cast_zero] at h
    rw [h.plain_integral]
    rfl
  fractional hq := by
    obtain ⟨negative, code, d, rfl, hd, hshown, hplain, -⟩ := h.plain_fractional hq
    exact ⟨negative, code, d, _, rfl, hd, shown?_eq_some.2 ⟨rfl, rfl⟩, hshown, hplain⟩

/-- Numbers below the limit of digits are written, and no others. They are written exactly, and those of either kind
alike if and only if they are equal. -/
theorem plain_exact (hv : v.AmountsTo q) (hw : w.AmountsTo r) :
    ((∃ a, v.plain? = some a) ↔ |q| < 10 ^ Text.maxDigits) ∧
      ∀ a, v.plain? = some a → v.WrittenExactly q a ∧ ∀ b, w.plain? = some b → (a = b ↔ q = r) := by
  constructor
  · rw [← hv.isWritable_iff]
    simp only [plain?_eq_some, exists_and_left, exists_eq', and_true]
  · intro a ha
    obtain ⟨-, rfl⟩ := plain?_eq_some.1 ha
    refine ⟨hv.writtenExactly, fun b hb => ?_⟩
    obtain ⟨-, rfl⟩ := plain?_eq_some.1 hb
    exact ⟨hv.eq_of_plain hw, fun hqr => plain_of_equals hv.isNumber hw.isNumber ((hv.equals_iff hw).2 hqr)⟩

def tiny : Fin magnitudeCount := ⟨nearestCode 1 10000000, by decide +kernel⟩

theorem plain_exact_tiny :
    (float (finite true tiny)).shown? = some "-1e-07" ∧ (float (finite true tiny)).plain? = some "-0.0000001" ∧
      (int 10).plain? = some "10" ∧
      (float (finite true tiny)).AmountsTo (withSign true (magnitude tiny)) ∧ (int 10).AmountsTo (10 : Int) ∧
      (float (finite true tiny)).WrittenExactly (withSign true (magnitude tiny)) "-0.0000001" ∧
      ("-0.0000001" = "10" ↔ withSign true (magnitude tiny) = (10 : Int)) := by
  have htiny : (float (finite true tiny)).plain? = some "-0.0000001" := by decide +kernel
  have hten : (int 10).plain? = some "10" := by decide +kernel
  obtain ⟨-, hexact⟩ := plain_exact (.float true tiny) (.int 10)
  exact ⟨by decide +kernel, htiny, hten, .float true tiny, .int 10, (hexact _ htiny).1, (hexact _ htiny).2 _ hten⟩

theorem plain?_int_eq_none {i : Int} : (int i).plain? = none ↔ 10 ^ Text.maxDigits ≤ i.natAbs := by
  rw [← Nat.not_lt, ← Nat.pow_eq, ← Text.isWritable_iff, plain?, ite_eq_right_iff]
  simp only [reduceCtorEq, imp_false]
  rfl

/-- An integer of one digit more than is written. -/
theorem plain_of_long_integer :
    (int (10 ^ Text.maxDigits)).AmountsTo ((10 ^ Text.maxDigits : Int) : ℚ) ∧
      (int (10 ^ Text.maxDigits)).plain? = none := by
  refine ⟨.int (10 ^ Text.maxDigits), plain?_int_eq_none.2 ?_⟩
  rw [Int.natAbs_pow]
  exact Nat.pow_le_pow_left (by decide) _

end Value

end CaveMap
