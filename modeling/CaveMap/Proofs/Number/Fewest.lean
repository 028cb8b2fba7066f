import CaveMap.Proofs.Number.Shortest

namespace CaveMap.Binary64

/-- A decimal number that is read as a magnitude, and no other number that is has fewer digits. -/
structure Fewest (code : Nat) (d : Decimal) : Prop where
  nearest : Nearest code d.value
  length_le (other : Decimal) : Nearest code other.value →
    (Nat.toDigits 10 d.digits).length ≤ (Nat.toDigits 10 other.digits).length

namespace Nearest

variable {code : Nat} {v v' w : ℚ}

theorem between (h : Nearest code v) (h' : Nearest code v') (hlow : v ≤ w) (hhigh : w ≤ v') : Nearest code w where
  low := h.low.trans hlow
  high := hhigh.trans h'.high
  tie := by
    rcases h.tie with heven | hfront
    · exact .inl heven
    · rcases h'.tie with heven | hbehind
      · exact .inl heven
      · exact .inr ⟨hfront.1.trans_le hlow, hhigh.trans_lt hbehind.2⟩

theorem pos (h : Nearest code v) (hcode : 0 < code) : 0 < v :=
  (power_pos _).trans_le (h.power_le hcode)

theorem lt_double (h : Nearest code v) (hcode : 0 < code) : v < 2 * (significand code * power (exponent code)) := by
  have hs : (1 : ℚ) ≤ significand code := by exact_mod_cast significand_pos hcode
  calc v ≤ (significand code + 1 / 2) * power (exponent code) := h.high
    _ < 2 * significand code * power (exponent code) := mul_lt_mul_of_pos_right (by linarith) (power_pos _)
    _ = 2 * (significand code * power (exponent code)) := mul_assoc _ _ _

end Nearest

variable {code : Nat}

theorem magnitude_units (code : Nat) :
    (units code : ℚ) / 10 ^ places code = significand code * power (exponent code) := by
  rw [units_eq, mul_div_assoc, div_self (by positivity), mul_one]

/-- No number on the grid of a power of ten is read as the magnitude. -/
def Off (code drop : Nat) : Prop := ∀ n : Nat, ¬ Nearest code ((n * 10 ^ drop : Nat) / 10 ^ places code)

theorem off_of_nearestOnGrid? (hcode : 0 < code) {drop : Nat} (h : nearestOnGrid? code drop = none) :
    Off code drop := by
  unfold nearestOnGrid? at h
  dsimp only [Nat.pow_eq] at h
  intro n hn
  have hself : Nearest code ((units code : ℚ) / 10 ^ places code) := by
    rw [magnitude_units]
    exact nearest_self code
  have hgrid : 0 < 10 ^ drop := by positivity
  have hle {a b : Nat} (hab : a ≤ b) : (a : ℚ) / 10 ^ places code ≤ b / 10 ^ places code :=
    div_le_div_of_nonneg_right (by exact_mod_cast hab) (by positivity)
  -- One of the two neighbours on the grid lies between the number and the magnitude.
  split at h
  · cases h
  · cases h
  · next hbelow habove =>
    rcases Nat.lt_or_ge (units code / 10 ^ drop) n with hlt | hge
    · have hup : units code ≤ (units code / 10 ^ drop + 1) * 10 ^ drop := by
        rw [Nat.add_mul, Nat.one_mul]
        exact (Nat.lt_div_mul_add hgrid).le
      have hnear := hself.between hn (hle hup) (hle (Nat.mul_le_mul_right _ hlt))
      rw [nearest_iff_readsBack hcode, habove] at hnear
      cases hnear
    · have hdown : units code / 10 ^ drop * 10 ^ drop ≤ units code := Nat.div_mul_le_self _ _
      have hnear := hn.between hself (hle (Nat.mul_le_mul_right _ hge)) (hle hdown)
      rw [nearest_iff_readsBack hcode, hbelow] at hnear
      cases hnear
  · split at h <;> cases h

theorem off_of_units_lt (hcode : 0 < code) {drop : Nat} (h : 2 * units code ≤ 10 ^ drop) : Off code drop := by
  intro n hn
  have hpos := hn.pos hcode
  have hlt := hn.lt_double hcode
  rw [← magnitude_units, ← mul_div_assoc, div_lt_div_iff_of_pos_right (by positivity)] at hlt
  have hnpos : 0 < n := by
    refine Nat.pos_of_ne_zero fun hzero => ?_
    rw [hzero] at hpos
    simp at hpos
  have hle : 10 ^ drop ≤ n * 10 ^ drop := Nat.le_mul_of_pos_left _ hnpos
  have hnat : n * 10 ^ drop < 2 * units code := by exact_mod_cast hlt
  omega

/-- The grid that is taken, and none of the coarser ones that were tried. -/
theorem shortestFrom_grid (hcode : 0 < code) (start : Nat) :
    ∃ drop : Nat, (shortestFrom code start).exponent = drop - (places code : Int) ∧
      ∀ j, drop < j → j ≤ start → Off code j := by
  induction start with
  | zero => exact ⟨0, by simp [shortestFrom], fun j hj hle => by omega⟩
  | succ start ih =>
    unfold shortestFrom
    split
    · exact ⟨start + 1, rfl, fun j hj hle => by omega⟩
    · next hnone =>
      obtain ⟨drop, hdrop, hoff⟩ := ih
      refine ⟨drop, hdrop, fun j hj hle => ?_⟩
      rcases Nat.lt_or_eq_of_le hle with hlt | rfl
      · exact hoff j hj (by omega)
      · exact off_of_nearestOnGrid? hcode hnone

theorem shortest_grid (hcode : 0 < code) :
    ∃ drop : Nat, (shortest code).exponent = drop - (places code : Int) ∧ ∀ j, drop < j → Off code j := by
  obtain ⟨drop, hdrop, hoff⟩ := shortestFrom_grid hcode (Nat.toDigits 10 (units code)).length
  rw [shortest, if_neg hcode.ne']
  refine ⟨drop, hdrop, fun j hj => ?_⟩
  rcases Nat.lt_or_ge (Nat.toDigits 10 (units code)).length j with hgt | hle
  · refine off_of_units_lt hcode ?_
    have hdigits : units code < 10 ^ (Nat.toDigits 10 (units code)).length :=
      (Nat.length_toDigits_le_iff (by decide) Nat.length_toDigits_pos).1 le_rfl
    have hpower : 10 ^ ((Nat.toDigits 10 (units code)).length + 1) ≤ 10 ^ j := Nat.pow_le_pow_right (by decide) hgt
    rw [Nat.pow_succ] at hpower
    omega
  · exact hoff j hj hle

theorem length_shortest_le (hcode : 0 < code) {n : Nat} {e : Int} (h : Nearest code (n * 10 ^ e)) :
    (Nat.toDigits 10 (shortest code).digits).length ≤ (Nat.toDigits 10 n).length := by
  obtain ⟨drop, hdrop, hoff⟩ := shortest_grid hcode
  have hshortest := nearest_shortest hcode
  rw [Decimal.value, hdrop] at hshortest
  by_contra hlt
  rw [Nat.not_le] at hlt
  obtain ⟨k, hk⟩ : ∃ k, (Nat.toDigits 10 (shortest code).digits).length = k + 1 :=
    ⟨_, (Nat.sub_add_cancel (Nat.zero_lt_of_lt hlt)).symm⟩
  have hkpos : 0 < k := by
    have hone : 0 < (Nat.toDigits 10 n).length := Nat.length_toDigits_pos
    omega
  have hn : n < 10 ^ k := (Nat.length_toDigits_le_iff (by decide) hkpos).1 (by omega)
  have hm : 10 ^ k ≤ (shortest code).digits := by
    rw [← Nat.not_lt, ← Nat.length_toDigits_le_iff (by decide) hkpos]
    omega
  have hgrid (a j : Nat) : ((a * 10 ^ j : Nat) : ℚ) / 10 ^ places code = a * 10 ^ (j - places code : Int) := by
    rw [zpow_sub₀ (by norm_num), zpow_natCast, zpow_natCast]
    push_cast
    rw [mul_div_assoc]
  rcases Int.lt_or_le drop (e + places code) with hcoarse | hfine
  · -- The number stands on a coarser grid itself.
    obtain ⟨j, hj⟩ := Int.eq_ofNat_of_zero_le (show 0 ≤ e + places code by omega)
    refine hoff j (by omega) n ?_
    rwa [hgrid, ← hj, add_sub_cancel_right]
  · -- The power of ten between the two numbers stands on one.
    have hscale : ((1 * 10 ^ (k + drop) : Nat) : ℚ) / 10 ^ places code =
        10 ^ k * 10 ^ (drop - places code : Int) := by
      rw [Nat.one_mul, Nat.pow_add, hgrid, Nat.cast_pow, Nat.cast_ofNat]
    refine hoff (k + drop) (by omega) 1 (h.between hshortest ?_ ?_)
    · rw [hscale]
      exact mul_le_mul (by exact_mod_cast hn.le) (zpow_le_zpow_right₀ (by norm_num) (by omega)) (by positivity)
        (by positivity)
    · rw [hscale]
      exact mul_le_mul_of_nonneg_right (by exact_mod_cast hm) (by positivity)

theorem fewest_shortest (code : Nat) : Fewest code (shortest code) := by
  rcases Nat.eq_zero_or_pos code with rfl | hcode
  · have hzero : significand 0 = 0 := rfl
    have hnearest := nearest_self 0
    rw [hzero, Nat.cast_zero, zero_mul] at hnearest
    refine ⟨?_, fun other _ => ?_⟩
    · simpa [shortest, Decimal.value] using hnearest
    · exact Nat.length_toDigits_pos
  · exact ⟨nearest_shortest hcode, fun other h => length_shortest_le hcode h⟩

end CaveMap.Binary64
