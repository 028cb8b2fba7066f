import CaveMap.Number.Shortest
import Mathlib.Algebra.Order.Field.Power
import Mathlib.Data.Nat.Log
import Mathlib.Tactic.FieldSimp
import Mathlib.Tactic.Linarith
import Mathlib.Tactic.Ring

namespace CaveMap.Binary64

theorem roundedQuotient_eq {num den q : Nat} (hd : 0 < den) (hlow : 2 * (q * den) ≤ 2 * num + den)
    (hhigh : 2 * num ≤ 2 * (q * den) + den)
    (htie : q % 2 = 0 ∨ (2 * (q * den) < 2 * num + den ∧ 2 * num < 2 * (q * den) + den)) :
    roundedQuotient num den = q := by
  have hdiv : num / den * den + num % den = num := Nat.div_add_mod' num den
  have hmod : num % den < den := Nat.mod_lt num hd
  generalize hw : num / den = whole at *
  generalize hr : num % den = rest at *
  have hcases : q = whole ∨ q = whole + 1 := by
    by_contra hne
    rw [not_or] at hne
    rcases Nat.lt_or_ge q whole with hlt | hge
    · have hmul : (q + 1) * den ≤ whole * den := Nat.mul_le_mul_right den hlt
      rw [Nat.add_mul, Nat.one_mul] at hmul
      omega
    · have hmul : (whole + 2) * den ≤ q * den := Nat.mul_le_mul_right den (by omega)
      rw [Nat.add_mul] at hmul
      omega
  unfold roundedQuotient
  rw [hw, hr]
  rcases hcases with rfl | rfl
  · rw [if_pos (by omega)]
  · rw [Nat.add_mul, Nat.one_mul] at hlow hhigh htie
    rw [if_neg (by omega)]

def power (e : Int) : ℚ := 2 ^ e

theorem power_pos (e : Int) : 0 < power e := zpow_pos (by norm_num) e

theorem power_add (e f : Int) : power (e + f) = power e * power f := zpow_add₀ (by norm_num) e f

theorem power_natCast (n : Nat) : power n = 2 ^ n := zpow_natCast 2 n

theorem power_le_power {e f : Int} : power e ≤ power f ↔ e ≤ f :=
  zpow_le_zpow_iff_right₀ (by norm_num)

theorem power_lt_power {e f : Int} : power e < power f ↔ e < f :=
  zpow_lt_zpow_iff_right₀ (by norm_num)

theorem power_add_52 (e : Int) : power (e + 52) = binade * power e := by
  rw [power_add, mul_comm]
  norm_num [power, binade]

theorem power_eq_quotient (e : Int) : power e = 2 ^ e.toNat / 2 ^ (-e).toNat := by
  have hsub : power (e.toNat - (-e).toNat : Int) = power e.toNat / power (-e).toNat :=
    zpow_sub₀ (by norm_num) _ _
  rw [power_natCast, power_natCast] at hsub
  rw [← hsub]
  congr 1
  omega

theorem power_le_quotient {e : Int} {num den : Nat} (hd : 0 < den) :
    den * Nat.pow 2 e.toNat ≤ num * Nat.pow 2 (-e).toNat ↔ power e ≤ num / den := by
  rw [power_eq_quotient, div_le_div_iff₀ (by positivity) (by exact_mod_cast hd), ← Nat.cast_le (α := ℚ)]
  push_cast [Nat.pow_eq]
  rw [mul_comm (den : ℚ)]

theorem floorLog2_spec {num den : Nat} (hn : 0 < num) (hd : 0 < den) :
    power (floorLog2 num den) ≤ num / den ∧ (num / den : ℚ) < power (floorLog2 num den + 1) := by
  have hdq : (0 : ℚ) < den := by exact_mod_cast hd
  have hn1 : power num.log2 ≤ num := by
    rw [power_natCast]
    exact_mod_cast Nat.log2_self_le (by omega)
  have hn2 : (num : ℚ) < power (num.log2 + 1) := by
    rw [← Nat.cast_succ, power_natCast]
    exact_mod_cast Nat.lt_log2_self
  have hd1 : power den.log2 ≤ den := by
    rw [power_natCast]
    exact_mod_cast Nat.log2_self_le (by omega)
  have hd2 : (den : ℚ) < power (den.log2 + 1) := by
    rw [← Nat.cast_succ, power_natCast]
    exact_mod_cast Nat.lt_log2_self
  have hlow : power ((num.log2 : Int) - den.log2 - 1) ≤ num / den := by
    rw [le_div_iff₀ hdq]
    calc power ((num.log2 : Int) - den.log2 - 1) * den
        ≤ power ((num.log2 : Int) - den.log2 - 1) * power (den.log2 + 1) :=
          mul_le_mul_of_nonneg_left hd2.le (power_pos _).le
      _ = power num.log2 := by
          rw [← power_add]
          congr 1
          omega
      _ ≤ num := hn1
  have hhigh : (num / den : ℚ) < power ((num.log2 : Int) - den.log2 + 1) := by
    rw [div_lt_iff₀ hdq]
    calc (num : ℚ) < power (num.log2 + 1) := hn2
      _ = power ((num.log2 : Int) - den.log2 + 1) * power den.log2 := by
          rw [← power_add]
          congr 1
          omega
      _ ≤ power ((num.log2 : Int) - den.log2 + 1) * den :=
          mul_le_mul_of_nonneg_left hd1 (power_pos _).le
  -- The difference of the logarithms is right or one too large; the test tells which.
  unfold floorLog2
  dsimp only
  split
  · next h => exact ⟨(power_le_quotient hd).1 h, hhigh⟩
  · next h =>
    rw [power_le_quotient hd, not_le] at h
    rw [sub_add_cancel]
    exact ⟨hlow, h⟩

theorem floorLog2_eq {num den : Nat} {e : Int} (hn : 0 < num) (hd : 0 < den)
    (hlow : power e ≤ num / den) (hhigh : (num / den : ℚ) < power (e + 1)) : floorLog2 num den = e := by
  obtain ⟨h1, h2⟩ := floorLog2_spec hn hd
  have ha := power_lt_power.1 (lt_of_le_of_lt hlow h2)
  have hb := power_lt_power.1 (lt_of_le_of_lt h1 hhigh)
  omega

theorem floorLog2_lt {num den : Nat} {e : Int} (hn : 0 < num) (hd : 0 < den)
    (hhigh : (num / den : ℚ) < power e) : floorLog2 num den < e :=
  power_lt_power.1 (lt_of_le_of_lt (floorLog2_spec hn hd).1 hhigh)

theorem significand_lt (code : Nat) : significand code < 2 * binade := by
  unfold significand
  have hmod : code % binade < binade := Nat.mod_lt code (by decide)
  split <;> omega

/-- How far below a magnitude, in steps, the midpoint to the next smaller one lies. -/
def lowGap (code : Nat) : ℚ := if narrowBelow code then 1 / 4 else 1 / 2

/-- The numbers between the midpoints to the neighbours of a magnitude; the midpoints belong to it when its
significand is even. -/
structure Nearest (code : Nat) (v : ℚ) : Prop where
  low : (significand code - lowGap code) * power (exponent code) ≤ v
  high : v ≤ (significand code + 1 / 2) * power (exponent code)
  tie : significand code % 2 = 0 ∨
    ((significand code - lowGap code) * power (exponent code) < v ∧
      v < (significand code + 1 / 2) * power (exponent code))

theorem roundedQuotient_scaled {num den q : Nat} {e : Int} (hd : 0 < den)
    (hlow : (q - 1 / 2) * power e ≤ num / den) (hhigh : (num / den : ℚ) ≤ (q + 1 / 2) * power e)
    (htie : q % 2 = 0 ∨ ((q - 1 / 2) * power e < num / den ∧ (num / den : ℚ) < (q + 1 / 2) * power e)) :
    roundedQuotient (num * Nat.pow 2 (-e).toNat) (den * Nat.pow 2 e.toNat) = q := by
  have hp : power e = 2 ^ e.toNat / 2 ^ (-e).toNat := power_eq_quotient e
  have hdq : (0 : ℚ) < den := by exact_mod_cast hd
  have hscale (x : ℚ) : x * power e = x * (den * 2 ^ e.toNat) / (den * 2 ^ (-e).toNat) := by
    rw [hp]
    field_simp
  have hvalue : (num / den : ℚ) = num * 2 ^ (-e).toNat / (den * 2 ^ (-e).toNat) := by
    field_simp
  have hden : (0 : ℚ) < den * 2 ^ (-e).toNat := by positivity
  rw [hscale, hvalue, div_le_div_iff_of_pos_right hden] at hlow hhigh
  rw [hscale, hscale, hvalue, div_lt_div_iff_of_pos_right hden, div_lt_div_iff_of_pos_right hden] at htie
  -- What is left is about the scaled numerator and denominator, two whole numbers.
  generalize hN : num * Nat.pow 2 (-e).toNat = N
  generalize hD : den * Nat.pow 2 e.toNat = D
  have hNq : (num * 2 ^ (-e).toNat : ℚ) = N := by
    rw [← hN]
    push_cast [Nat.pow_eq]
    rfl
  have hDq : (den * 2 ^ e.toNat : ℚ) = D := by
    rw [← hD]
    push_cast [Nat.pow_eq]
    rfl
  rw [hNq, hDq] at hlow hhigh htie
  have hDpos : 0 < D := by
    rw [← hD]
    exact Nat.mul_pos hd (Nat.pow_pos (by decide))
  refine roundedQuotient_eq hDpos ?_ ?_ (htie.imp_right fun h => ⟨?_, ?_⟩)
  · have : (2 * (q * D) : ℚ) ≤ 2 * N + D := by linarith
    exact_mod_cast this
  · have : (2 * N : ℚ) ≤ 2 * (q * D) + D := by linarith
    exact_mod_cast this
  · have : (2 * (q * D) : ℚ) < 2 * N + D := by linarith [h.1]
    exact_mod_cast this
  · have : (2 * N : ℚ) < 2 * (q * D) + D := by linarith [h.2]
    exact_mod_cast this

theorem code_eq (code : Nat) : (exponent code + 1074).toNat * binade + significand code = code := by
  unfold exponent significand
  split
  · simp
  · next h =>
    have hdiv : code / binade * binade + code % binade = code := Nat.div_add_mod' code binade
    have hpos : 0 < code / binade := Nat.div_pos (by omega) (by decide)
    have hsub : (((code / binade : Nat) : Int) - 1075 + 1074).toNat = code / binade - 1 := by omega
    rw [hsub, Nat.sub_mul, Nat.one_mul, ← Nat.add_assoc, Nat.sub_add_cancel, hdiv]
    exact Nat.le_mul_of_pos_left binade hpos

theorem lowGap_le (code : Nat) : lowGap code ≤ 1 / 2 := by
  unfold lowGap
  split <;> norm_num

namespace Nearest

variable {num den code : Nat} {v : ℚ}

theorem low_half (h : Nearest code v) : (significand code - 1 / 2) * power (exponent code) ≤ v :=
  le_trans (mul_le_mul_of_nonneg_right (by linarith [lowGap_le code]) (power_pos _).le) h.low

theorem tie_half (h : Nearest code v) : significand code % 2 = 0 ∨
    ((significand code - 1 / 2) * power (exponent code) < v ∧
      v < (significand code + 1 / 2) * power (exponent code)) := by
  refine h.tie.imp_right fun hlt => ⟨lt_of_le_of_lt ?_ hlt.1, hlt.2⟩
  exact mul_le_mul_of_nonneg_right (by linarith [lowGap_le code]) (power_pos _).le

theorem lt_power (h : Nearest code v) : v < power (exponent code + 53) := by
  have hs : (significand code : ℚ) + 1 ≤ 2 * binade := by exact_mod_cast significand_lt code
  calc v ≤ (significand code + 1 / 2) * power (exponent code) := h.high
    _ < 2 * binade * power (exponent code) := mul_lt_mul_of_pos_right (by linarith) (power_pos _)
    _ = power (exponent code + 53) := by
        rw [show exponent code + 53 = exponent code + 1 + 52 by omega, power_add_52, power_add]
        norm_num [power]
        ring

theorem nearestCode_of_exponent (h : Nearest code (num / den)) (hn : 0 < num) (hd : 0 < den)
    (he : max (floorLog2 num den - 52) (-1074) = exponent code) : nearestCode num den = code := by
  unfold nearestCode
  rw [if_neg hn.ne']
  dsimp only
  rw [he, roundedQuotient_scaled hd h.low_half h.high h.tie_half, code_eq]

theorem nearestCode_of_below (h : Nearest code (num / den)) (hn : 0 < num) (hd : 0 < den)
    (hcode : binade < code) (hmod : code % binade = 0)
    (hlt : (num / den : ℚ) < power (exponent code + 52)) : nearestCode num den = code := by
  have hs : significand code = binade := by
    rw [significand, if_neg (by omega), hmod, Nat.add_zero]
  have he : exponent code = (code / binade : Nat) - 1075 := if_neg (by omega)
  have htwo : 2 ≤ code / binade := by
    have hexact : code / binade * binade = code := Nat.div_mul_cancel (Nat.dvd_of_mod_eq_zero hmod)
    by_contra hle
    have hmul : code / binade * binade ≤ 1 * binade := Nat.mul_le_mul_right binade (by omega)
    omega
  have hhalf : power (exponent code) = 2 * power (exponent code - 1) := by
    rw [show exponent code = 1 + (exponent code - 1) by omega, power_add]
    norm_num [power]
  have hgap : lowGap code = 1 / 4 := if_pos (by simp [narrowBelow, hmod, hcode])
  have hpos := power_pos (exponent code - 1)
  have hlow : (2 * binade - 1 / 2) * power (exponent code - 1) ≤ num / den := by
    have hle := h.low
    rw [hs, hgap, hhalf] at hle
    linarith
  have hhigh : (num / den : ℚ) < 2 * binade * power (exponent code - 1) := by
    rw [power_add_52, hhalf] at hlt
    linarith
  have hlog : floorLog2 num den = exponent code - 1 + 52 := by
    refine floorLog2_eq hn hd (le_trans ?_ hlow) ?_
    · rw [power_add_52]
      exact mul_le_mul_of_nonneg_right (by norm_num [binade]) hpos.le
    · rwa [show exponent code - 1 + 52 + 1 = exponent code + 52 by omega]
  -- The significand comes out as twice the smallest one, which the code carries over into the exponent.
  have hround : roundedQuotient (num * Nat.pow 2 (-(exponent code - 1)).toNat)
      (den * Nat.pow 2 (exponent code - 1).toNat) = 2 * binade := by
    refine roundedQuotient_scaled hd ?_ ?_ (.inl (by decide))
    · exact_mod_cast hlow
    · push_cast
      linarith
  have hsum := code_eq code
  rw [hs, show (exponent code + 1074).toNat = (exponent code - 1 + 1074).toNat + 1 by omega,
    Nat.add_mul] at hsum
  unfold nearestCode
  rw [if_neg hn.ne']
  dsimp only
  rw [show max (floorLog2 num den - 52) (-1074) = exponent code - 1 by omega, hround]
  omega

end Nearest

/-- A magnitude is found again from every number nearest to it. -/
theorem nearestCode_eq {num den code : Nat} (hn : 0 < num) (hd : 0 < den)
    (h : Nearest code (num / den)) : nearestCode num den = code := by
  rcases lt_or_ge code binade with hsmall | hlarge
  · have he : exponent code = -1074 := if_pos hsmall
    have hs : (significand code : ℚ) + 1 ≤ binade := by
      rw [significand, if_pos hsmall]
      exact_mod_cast hsmall
    have hlt : (num / den : ℚ) < power (exponent code + 52) := by
      rw [power_add_52]
      exact lt_of_le_of_lt h.high (mul_lt_mul_of_pos_right (by linarith) (power_pos _))
    have hlog := floorLog2_lt hn hd hlt
    exact h.nearestCode_of_exponent hn hd (by omega)
  · have he : exponent code = (code / binade : Nat) - 1075 := if_neg (by omega)
    have hs : significand code = binade + code % binade := if_neg (by omega)
    have hpos : 0 < code / binade := Nat.div_pos hlarge (by decide)
    rcases le_or_gt (power (exponent code + 52)) (num / den) with hle | hlt
    · have hlog : floorLog2 num den = exponent code + 52 := by
        refine floorLog2_eq hn hd hle ?_
        rw [add_assoc]
        exact h.lt_power
      exact h.nearestCode_of_exponent hn hd (by omega)
    · have hmod : code % binade = 0 := by
        by_contra hne
        have hge : (binade + 1 : ℚ) ≤ significand code := by
          rw [hs]
          exact_mod_cast (by omega : binade + 1 ≤ binade + code % binade)
        have hmul : binade * power (exponent code) ≤ (significand code - 1 / 2) * power (exponent code) :=
          mul_le_mul_of_nonneg_right (by linarith) (power_pos _).le
        rw [power_add_52] at hlt
        linarith [h.low_half]
      rcases Nat.eq_or_lt_of_le hlarge with heq | hgt
      · have hone : code / binade = 1 := by rw [← heq]; decide
        have hlog := floorLog2_lt hn hd hlt
        exact h.nearestCode_of_exponent hn hd (by omega)
      · exact h.nearestCode_of_below hn hd hgt hmod hlt

theorem nearest_self (code : Nat) : Nearest code (significand code * power (exponent code)) := by
  have hpos := power_pos (exponent code)
  have hgap : 0 < lowGap code := by
    unfold lowGap
    split <;> norm_num
  have hlow : (significand code - lowGap code) * power (exponent code) <
      significand code * power (exponent code) := mul_lt_mul_of_pos_right (by linarith) hpos
  have hhigh : significand code * power (exponent code) <
      (significand code + 1 / 2) * power (exponent code) := mul_lt_mul_of_pos_right (by linarith) hpos
  exact ⟨hlow.le, hhigh.le, .inr ⟨hlow, hhigh⟩⟩

theorem natAbs_signed (negative : Bool) (n : Nat) : (signed negative n).natAbs = n := by
  cases negative <;> simp [signed]

theorem signed_natAbs (i : Int) : signed (decide (i < 0)) i.natAbs = i := by
  simp only [signed, decide_eq_true_eq]
  split <;> omega

theorem natAbs_of_toInt? {negative : Bool} {code : Fin magnitudeCount} {i : Int}
    (h : (finite negative code).toInt? = some i) :
    (i.natAbs : ℚ) = significand code * power (exponent code) := by
  simp only [toInt?, Nat.pow_eq] at h
  split at h
  · next hmod =>
    have hdiv : ((significand code / 2 ^ (-exponent code).toNat * 2 ^ (-exponent code).toNat : Nat) : ℚ) =
        significand code := by rw [Nat.div_mul_cancel (Nat.dvd_of_mod_eq_zero hmod)]
    rw [← Option.some.inj h, natAbs_signed, power_eq_quotient, ← hdiv]
    push_cast
    field_simp
  · cases h

theorem toInt?_ofInt {x : Binary64} {i : Int} (h : x.toInt? = some i) : (ofInt i).toInt? = some i := by
  cases x with
  | nan => cases h
  | infinite => cases h
  | finite negative code =>
    have hvalue := natAbs_of_toInt? h
    by_cases hi : i = 0
    · have hzero : ofInt 0 = finite false ⟨0, by decide⟩ := rfl
      have hs : significand 0 = 0 := rfl
      rw [hi, hzero, toInt?]
      simp [hs, signed]
    · have hcode : nearestCode i.natAbs 1 = code := by
        refine nearestCode_eq (by omega) (by decide) ?_
        rw [Nat.cast_one, div_one, hvalue]
        exact nearest_self _
      unfold ofInt ofRatio
      rw [hcode, ofCode, dif_pos code.isLt]
      simp only [toInt?] at h ⊢
      split at h
      · next hmod =>
        rw [if_pos hmod]
        have := congrArg Int.natAbs (Option.some.inj h)
        rw [natAbs_signed] at this
        rw [this, signed_natAbs]
      · cases h

end CaveMap.Binary64
