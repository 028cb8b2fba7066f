import CaveMap.Proofs.Number.Nearest

namespace CaveMap

def Decimal.value (d : Decimal) : ℚ := d.digits * 10 ^ d.exponent

namespace Binary64

theorem unit_eq (code : Nat) : (unit code : ℚ) = power (exponent code) * 10 ^ places code := by
  have hten : (10 : ℚ) ^ places code = 5 ^ places code * 2 ^ places code := by
    rw [← mul_pow]
    norm_num
  rw [hten, power_eq_quotient, unit, places]
  push_cast [Nat.pow_eq]
  field_simp

theorem units_eq (code : Nat) : (units code : ℚ) = significand code * power (exponent code) * 10 ^ places code := by
  rw [units, Nat.cast_mul, unit_eq, mul_assoc]

theorem significand_pos {code : Nat} (h : 0 < code) : 0 < significand code := by
  unfold significand
  split
  · exact h
  · exact Nat.add_pos_left (by decide) _

/-- The decimal units between the midpoint below a magnitude and the magnitude, four times. -/
def lowUnits (code : Nat) : Nat := (if narrowBelow code then 1 else 2) * unit code

theorem lowUnits_eq (code : Nat) : (lowUnits code : ℚ) = 4 * (lowGap code * unit code) := by
  unfold lowUnits lowGap
  split <;> push_cast <;> ring

theorem lowUnits_le {code : Nat} (h : 0 < code) : lowUnits code ≤ 4 * units code := by
  have hunit : unit code ≤ units code := Nat.le_mul_of_pos_left _ (significand_pos h)
  unfold lowUnits
  split <;> omega

theorem readsBack_iff {code n : Nat} : readsBack code n = true ↔
    4 * units code - lowUnits code ≤ 4 * n ∧ 4 * n ≤ 4 * units code + 2 * unit code ∧
      (significand code % 2 = 0 ∨
        (4 * units code - lowUnits code < 4 * n ∧ 4 * n < 4 * units code + 2 * unit code)) := by
  unfold readsBack lowUnits
  dsimp only
  split
  · next heven =>
    simp only [Bool.and_eq_true, decide_eq_true_eq]
    exact ⟨fun h => ⟨h.1, h.2, .inl heven⟩, fun h => ⟨h.1, h.2.1⟩⟩
  · next hodd =>
    simp only [Bool.and_eq_true, decide_eq_true_eq]
    exact ⟨fun h => ⟨h.1.le, h.2.le, .inr h⟩, fun h => h.2.2.resolve_left hodd⟩

theorem nearest_iff_readsBack {code n : Nat} (hcode : 0 < code) :
    Nearest code (n / 10 ^ places code) ↔ readsBack code n = true := by
  have hten : (0 : ℚ) < 10 ^ places code := by positivity
  have hlow : (significand code - lowGap code) * power (exponent code) =
      ((4 * units code - lowUnits code : Nat) : ℚ) / (4 * 10 ^ places code) := by
    rw [Nat.cast_sub (lowUnits_le hcode), lowUnits_eq, Nat.cast_mul, units_eq, unit_eq]
    field_simp
    push_cast
    ring
  have hhigh : (significand code + 1 / 2) * power (exponent code) =
      ((4 * units code + 2 * unit code : Nat) : ℚ) / (4 * 10 ^ places code) := by
    push_cast
    rw [units_eq, unit_eq]
    field_simp
    ring
  have hvalue : (n : ℚ) / 10 ^ places code = ((4 * n : Nat) : ℚ) / (4 * 10 ^ places code) := by
    push_cast
    field_simp
  have hfour : (0 : ℚ) < 4 * 10 ^ places code := by positivity
  have hnearest (v : ℚ) : Nearest code v ↔
      (significand code - lowGap code) * power (exponent code) ≤ v ∧
        v ≤ (significand code + 1 / 2) * power (exponent code) ∧
        (significand code % 2 = 0 ∨
          ((significand code - lowGap code) * power (exponent code) < v ∧
            v < (significand code + 1 / 2) * power (exponent code))) :=
    ⟨fun h => ⟨h.low, h.high, h.tie⟩, fun h => ⟨h.1, h.2.1, h.2.2⟩⟩
  rw [hnearest, readsBack_iff, hlow, hhigh, hvalue]
  simp only [div_le_div_iff_of_pos_right hfour, div_lt_div_iff_of_pos_right hfour, Nat.cast_le, Nat.cast_lt]

theorem readsBack_of_nearestOnGrid? {code drop n : Nat} (h : nearestOnGrid? code drop = some n) :
    readsBack code (n * Nat.pow 10 drop) = true := by
  unfold nearestOnGrid? at h
  dsimp only at h
  split at h
  · next hbelow _ => rwa [← Option.some.inj h]
  · next _ habove => rwa [← Option.some.inj h]
  · cases h
  · next hbelow habove =>
    split at h
    · rwa [← Option.some.inj h]
    · rwa [← Option.some.inj h]

theorem nearest_shortestFrom {code : Nat} (hcode : 0 < code) (drop : Nat) :
    Nearest code (shortestFrom code drop).value := by
  induction drop with
  | zero =>
    have hvalue : (shortestFrom code 0).value = significand code * power (exponent code) := by
      rw [shortestFrom, Decimal.value, units_eq, zpow_neg, zpow_natCast]
      field_simp
    rw [hvalue]
    exact nearest_self code
  | succ drop ih =>
    unfold shortestFrom
    split
    · next n hn =>
      have hnear := (nearest_iff_readsBack hcode).2 (readsBack_of_nearestOnGrid? hn)
      have hvalue : (Decimal.mk n ((drop + 1 : Nat) - (places code : Int))).value =
          ((n * Nat.pow 10 (drop + 1) : Nat) : ℚ) / 10 ^ places code := by
        rw [Decimal.value, zpow_sub₀ (by norm_num), zpow_natCast, zpow_natCast, Nat.pow_eq, mul_div_assoc']
        push_cast
        rfl
      rwa [hvalue]
    · exact ih

theorem nearest_shortest {code : Nat} (hcode : 0 < code) : Nearest code (shortest code).value := by
  rw [shortest, if_neg hcode.ne']
  exact nearest_shortestFrom hcode _

theorem toDigits_bounds {n : Nat} (hn : 0 < n) :
    (10 : ℚ) ^ ((Nat.toDigits 10 n).length - 1 : Int) ≤ n ∧ (n : ℚ) < 10 ^ ((Nat.toDigits 10 n).length : Int) := by
  obtain ⟨k, hk⟩ := Nat.exists_eq_succ_of_ne_zero (Nat.length_toDigits_pos (b := 10) (n := n)).ne'
  rw [hk]
  constructor
  · have hlow : 10 ^ k ≤ n := by
      rcases Nat.eq_zero_or_pos k with rfl | hpos
      · exact hn
      · have hlength := Nat.length_toDigits_le_iff (n := n) (by decide : 1 < 10) hpos
        omega
    rw [Nat.cast_succ, add_sub_cancel_right, zpow_natCast]
    exact_mod_cast hlow
  · have hhigh : n < 10 ^ k.succ := (Nat.length_toDigits_le_iff (by decide) k.succ_pos).1 hk.le
    rw [zpow_natCast]
    exact_mod_cast hhigh

theorem power_le_ten (n : Nat) : power (3 * n) ≤ 10 ^ n := by
  rw [power, zpow_mul, zpow_natCast]
  exact pow_le_pow_left₀ (by norm_num) (by norm_num) n

namespace Nearest

variable {code : Nat} {v : ℚ}

theorem power_le (h : Nearest code v) (hcode : 0 < code) : power (-1075) ≤ v := by
  have hs : (1 : ℚ) ≤ significand code := by exact_mod_cast significand_pos hcode
  have he : -1074 ≤ exponent code := by
    unfold exponent
    split
    · rfl
    · next hlarge =>
      have hpos : 0 < code / binade := Nat.div_pos (Nat.le_of_not_lt hlarge) (by decide)
      omega
  calc power (-1075) = (1 - 1 / 2) * power (-1074) := by
        have htwo : power 1 = 2 := by norm_num [power]
        rw [show (-1074 : Int) = 1 + -1075 by omega, power_add, htwo]
        ring
    _ ≤ (significand code - 1 / 2) * power (exponent code) :=
        mul_le_mul (by linarith) (power_le_power.2 he) (power_pos _).le (by linarith)
    _ ≤ v := h.low_half

theorem lt_limit (h : Nearest code v) (hcode : code < magnitudeCount) : v < power 1024 := by
  refine lt_of_lt_of_le h.lt_power (power_le_power.2 ?_)
  have hdiv : code / binade < 0x7FF := Nat.div_lt_of_lt_mul (by rwa [Nat.mul_comm])
  unfold exponent
  split <;> omega

theorem reach_bounds {n : Nat} {e : Int} (h : Nearest code (n * 10 ^ e)) (hn : 0 < n) (hcode : 0 < code)
    (hlimit : code < magnitudeCount) :
    -400 ≤ (Nat.toDigits 10 n).length + e ∧ (Nat.toDigits 10 n).length + e ≤ 400 := by
  obtain ⟨hlow, hhigh⟩ := toDigits_bounds hn
  have hten : (0 : ℚ) < 10 ^ e := by positivity
  constructor
  · by_contra hlt
    have hsmall : (n : ℚ) * 10 ^ e < power (-1075) := by
      calc (n : ℚ) * 10 ^ e < 10 ^ ((Nat.toDigits 10 n).length : Int) * 10 ^ e :=
            mul_lt_mul_of_pos_right hhigh hten
        _ = 10 ^ ((Nat.toDigits 10 n).length + e) := (zpow_add₀ (by norm_num) _ _).symm
        _ ≤ 10 ^ (-(400 : Nat) : Int) := zpow_le_zpow_right₀ (by norm_num) (by omega)
        _ = (10 ^ 400)⁻¹ := by rw [zpow_neg, zpow_natCast]
        _ ≤ (power (3 * (400 : Nat)))⁻¹ := inv_anti₀ (power_pos _) (power_le_ten 400)
        _ = power (-1200) := (zpow_neg 2 _).symm
        _ ≤ power (-1075) := power_le_power.2 (by decide)
    exact absurd (h.power_le hcode) (not_le.2 hsmall)
  · by_contra hlt
    have hlarge : power 1024 ≤ n * 10 ^ e := by
      calc power 1024 ≤ power (3 * (400 : Nat)) := power_le_power.2 (by decide)
        _ ≤ 10 ^ 400 := power_le_ten 400
        _ = 10 ^ ((400 : Nat) : Int) := (zpow_natCast 10 400).symm
        _ ≤ 10 ^ ((Nat.toDigits 10 n).length - 1 + e) := zpow_le_zpow_right₀ (by norm_num) (by omega)
        _ = 10 ^ ((Nat.toDigits 10 n).length - 1 : Int) * 10 ^ e := zpow_add₀ (by norm_num) _ _
        _ ≤ n * 10 ^ e := mul_le_mul_of_nonneg_right hlow hten.le
    exact absurd (h.lt_limit hlimit) (not_lt.2 hlarge)

end Nearest

theorem length_toDigits_of_toInt? {x : Binary64} {i : Int} (h : x.toInt? = some i) :
    (Nat.toDigits 10 i.natAbs).length ≤ 400 := by
  cases x with
  | nan => cases h
  | infinite => cases h
  | finite negative code =>
    have hvalue := natAbs_of_toInt? h
    rcases Nat.eq_zero_or_pos i.natAbs with hzero | hpos
    · rw [hzero]
      decide
    · have hcode : 0 < code.val := by
        refine Nat.pos_of_ne_zero fun hcode => ?_
        have hs : significand 0 = 0 := rfl
        rw [hcode, hs, Nat.cast_zero, zero_mul, Nat.cast_eq_zero] at hvalue
        omega
      have hnearest : Nearest code (i.natAbs * 10 ^ (0 : Int)) := by
        rw [zpow_zero, mul_one, hvalue]
        exact nearest_self _
      have hreach := (hnearest.reach_bounds hpos hcode code.isLt).2
      rwa [add_zero, Nat.cast_le_ofNat] at hreach

theorem isWritable_of_toInt? {x : Binary64} {i : Int} (h : x.toInt? = some i) : Text.isWritable i :=
  decide_eq_true ((length_toDigits_of_toInt? h).trans (by decide))

theorem ofDecimal_eq (negative : Bool) (code : Fin magnitudeCount) {n : Nat} {e : Int} (hcode : 0 < code.val)
    (h : Nearest code (n * 10 ^ e)) : ofDecimal negative n e = finite negative code := by
  have hpos : (0 : ℚ) < n * 10 ^ e := lt_of_lt_of_le (power_pos _) (h.power_le hcode)
  have hn : 0 < n := by
    rcases Nat.eq_zero_or_pos n with rfl | hn
    · simp at hpos
    · exact hn
  obtain ⟨hlow, hhigh⟩ := h.reach_bounds hn hcode code.isLt
  have hvalue : (n : ℚ) * 10 ^ e = ((n * Nat.pow 10 e.toNat : Nat) : ℚ) / (Nat.pow 10 (-e).toNat : Nat) := by
    have hsub : (10 : ℚ) ^ e = 10 ^ e.toNat / 10 ^ (-e).toNat := by
      rw [← zpow_natCast, ← zpow_natCast, ← zpow_sub₀ (by norm_num)]
      congr 1
      omega
    rw [hsub, mul_div_assoc']
    push_cast [Nat.pow_eq]
    rfl
  have hnearest : nearestCode (n * Nat.pow 10 e.toNat) (Nat.pow 10 (-e).toNat) = code := by
    refine nearestCode_eq (Nat.mul_pos hn (Nat.pow_pos (by decide))) (Nat.pow_pos (by decide)) ?_
    rwa [← hvalue]
  unfold ofDecimal
  dsimp only
  rw [if_neg (by omega), if_neg (by omega), ofRatio, hnearest, ofCode, dif_pos code.isLt]

/-- Every notation of the shortest number of a magnitude is read as the magnitude. -/
theorem ofDecimal_shortest (negative : Bool) (code : Fin magnitudeCount) {n : Nat} {e : Int}
    (h : n * 10 ^ e = (shortest code).value) : ofDecimal negative n e = finite negative code := by
  rcases Nat.eq_zero_or_pos code.val with hzero | hpos
  · have hvalue : (shortest code).value = 0 := by
      rw [hzero]
      simp [shortest, Decimal.value]
    rw [hvalue, mul_eq_zero_iff_right (by positivity), Nat.cast_eq_zero] at h
    unfold ofDecimal
    dsimp only
    rw [if_pos (.inl h), ofCode, dif_pos (by decide)]
    congr 1
    exact Fin.ext hzero.symm
  · refine ofDecimal_eq negative code hpos ?_
    rw [h]
    exact nearest_shortest hpos

end Binary64

end CaveMap
