/-
The decimal that is written for a value lies in the value's interval, so it is near to the value: on
each grid only points of the interval are taken, and on a grid of seventeen digits one of the two
neighbours of the value is such a point.
-/
import Mathlib.Tactic.NormNum
import Triage.Decimal.Shortest
import Triage.Proofs.Number.Rounding

namespace Triage.Decimal

open Float.Model (Format)
open Number (Near Canonical zpow_mul_toNat zpow_two_pos)

/-! ## Comparisons -/

/-- The number that digits stand for. -/
def Digits.value (d : Digits) : ℚ :=
  d.coefficient * 10 ^ d.exponent

/-- Both numbers are brought over the same denominator. -/
theorem overCommon_eq (a : Nat) (u : ℤ) (b : Nat) (g : ℤ) :
    ∃ k : ℚ, 0 < k ∧ ((overCommon a u b g).1 : ℚ) = a * 2 ^ u * k ∧
      ((overCommon a u b g).2 : ℚ) = b * 10 ^ g * k := by
  refine ⟨2 ^ (-u).toNat * 10 ^ (-g).toNat, by positivity, ?_, ?_⟩
  · simp only [overCommon, Nat.pow_eq]
    push_cast
    rw [← zpow_mul_toNat (by norm_num : (2 : ℚ) ≠ 0) u]
    ring
  · simp only [overCommon, Nat.pow_eq]
    push_cast
    rw [← zpow_mul_toNat (by norm_num : (10 : ℚ) ≠ 0) g]
    ring

theorem overCommon_lt {a b : Nat} {u g : ℤ} :
    (overCommon a u b g).1 < (overCommon a u b g).2 ↔ (a : ℚ) * 2 ^ u < b * 10 ^ g := by
  obtain ⟨k, hk, ha, hb⟩ := overCommon_eq a u b g
  rw [← Nat.cast_lt (α := ℚ), ha, hb]
  exact mul_lt_mul_iff_left₀ hk

theorem overCommon_gt {a b : Nat} {u g : ℤ} :
    (overCommon a u b g).2 < (overCommon a u b g).1 ↔ (b : ℚ) * 10 ^ g < a * 2 ^ u := by
  obtain ⟨k, hk, ha, hb⟩ := overCommon_eq a u b g
  rw [← Nat.cast_lt (α := ℚ), ha, hb]
  exact mul_lt_mul_iff_left₀ hk

namespace Interval

variable {i : Interval} {v : ℚ} {c : Nat} {g : ℤ} {tie : Tie}

/-- Whether a real is in an interval. -/
def Holds (i : Interval) (v : ℚ) : Prop :=
  if i.closed then (i.low : ℚ) * 2 ^ i.unit ≤ v ∧ v ≤ i.high * 2 ^ i.unit
  else (i.low : ℚ) * 2 ^ i.unit < v ∧ v < i.high * 2 ^ i.unit

theorem contains_iff : i.contains c g = true ↔ i.Holds (c * 10 ^ g) := by
  unfold contains Holds
  simp only
  split
  · rw [Bool.and_eq_true, decide_eq_true_iff, decide_eq_true_iff, ← Nat.not_lt, ← Nat.not_lt,
      overCommon_lt, overCommon_gt, not_lt, not_lt]
  · rw [Bool.and_eq_true, decide_eq_true_iff, decide_eq_true_iff, overCommon_lt, overCommon_gt]

/-! ## Grids -/

/-- The middle of an interval. -/
def center (i : Interval) : ℚ :=
  i.middle * 2 ^ i.unit

/-- The middle is between the two grid points around it. -/
theorem below_spec (i : Interval) (g : ℤ) :
    (i.below g : ℚ) * 10 ^ g ≤ i.center ∧ i.center < (i.below g + 1 : ℚ) * 10 ^ g := by
  obtain ⟨k, hk, ha, hb⟩ := overCommon_eq i.middle i.unit 1 g
  have hten : (0 : ℚ) < 10 ^ g := zpow_pos (by norm_num) g
  rw [Nat.cast_one, one_mul] at hb
  have hpos : 0 < (overCommon i.middle i.unit 1 g).2 := by
    have : (0 : ℚ) < (overCommon i.middle i.unit 1 g).2 := by rw [hb]; positivity
    exact_mod_cast this
  have hle : i.below g * (overCommon i.middle i.unit 1 g).2 ≤
      (overCommon i.middle i.unit 1 g).1 := Nat.div_mul_le_self _ _
  have hlt : (overCommon i.middle i.unit 1 g).1 <
      (i.below g + 1) * (overCommon i.middle i.unit 1 g).2 :=
    Nat.lt_mul_of_div_lt (Nat.lt_succ_self _) hpos
  rw [← Nat.cast_le (α := ℚ)] at hle
  rw [← Nat.cast_lt (α := ℚ)] at hlt
  push_cast [ha, hb] at hle hlt
  unfold center
  refine ⟨le_of_mul_le_mul_right ?_ hk, lt_of_mul_lt_mul_right ?_ (le_of_lt hk)⟩ <;> linarith

/-- What is chosen on a grid is a point of the interval. -/
theorem holds_of_onGrid {d : Digits} (h : i.onGrid tie g = some d) : i.Holds d.value := by
  unfold onGrid at h
  simp only at h
  split at h
  · rename_i hc hs
    cases h
    split
    · exact contains_iff.1 hs
    · exact contains_iff.1 hc
  · rename_i hc _
    cases h
    exact contains_iff.1 hc
  · rename_i _ hs
    cases h
    exact contains_iff.1 hs
  · cases h

/-- Something is chosen on a grid if it has a point in the interval next to the middle. -/
theorem onGrid_ne_none (h : i.contains (i.below g) g = true ∨ i.contains (i.below g + 1) g = true) :
    i.onGrid tie g ≠ none := by
  unfold onGrid
  simp only
  split <;> simp_all

/-! ## Magnitudes -/

theorem ten_pow_le_two_pow : 10 ^ 1233 ≤ 2 ^ 4096 := by
  decide +kernel

theorem two_pow_le_ten_pow : 2 ^ 4096 ≤ 10 ^ 1234 := by
  decide +kernel

/-- A decimal exponent guessed from a binary one is too large by one at most: both powers are
compared by their 4096th powers. -/
theorem guess_le {l g : ℤ} (hg : g * 4096 ≤ l * 1233) (hl : -4096 ≤ l) :
    (10 : ℚ) ^ (g - 1) ≤ 2 ^ l := by
  have hten : (10 : ℚ) ^ 1233 ≤ 2 ^ 4096 := by exact_mod_cast ten_pow_le_two_pow
  have htwo : (2 : ℚ) ^ 4096 ≤ 10 ^ 1234 := by exact_mod_cast two_pow_le_ten_pow
  -- To the power 4096 both sides have whole exponents of the two powers compared.
  refine (pow_le_pow_iff_left₀ (by positivity) (by positivity) (by norm_num : 4096 ≠ 0)).1 ?_
  have hleft : ((10 : ℚ) ^ (g - 1)) ^ 4096 = 10 ^ ((g - 1) * 4096) := by
    rw [zpow_mul, ← zpow_natCast]
    rfl
  have hright : ((2 : ℚ) ^ l) ^ 4096 = (2 ^ 4096) ^ l := by
    rw [← zpow_natCast, ← zpow_mul, mul_comm, zpow_mul, zpow_natCast]
  rw [hleft, hright]
  rcases le_or_gt 0 l with h | h
  · calc (10 : ℚ) ^ ((g - 1) * 4096) ≤ 10 ^ (1233 * l) :=
          zpow_le_zpow_right₀ (by norm_num) (by omega)
      _ = (10 ^ 1233) ^ l := by rw [zpow_mul]; rfl
      _ ≤ (2 ^ 4096) ^ l := zpow_le_zpow_left₀ h (by positivity) hten
  · calc (10 : ℚ) ^ ((g - 1) * 4096) ≤ 10 ^ (1234 * l) :=
          zpow_le_zpow_right₀ (by norm_num) (by omega)
      _ = (10 ^ 1234) ^ l := by rw [zpow_mul]; rfl
      _ ≤ (2 ^ 4096) ^ l := by
        have hneg := inv_anti₀ (by positivity)
          (zpow_le_zpow_left₀ (show 0 ≤ -l by omega) (by positivity) htwo)
        simpa only [zpow_neg, inv_inv] using hneg

/-- The middle has as many digits before the point as its magnitude says, or more. -/
theorem magnitude_spec (hm : 0 < i.middle) (hl : -4096 ≤ (i.middle.log2 : ℤ) + i.unit) :
    (10 : ℚ) ^ (i.magnitude - 1) ≤ i.center := by
  have hbinary : (2 : ℚ) ^ ((i.middle.log2 : ℤ) + i.unit) ≤ i.center := by
    rw [zpow_add₀ (by norm_num), zpow_natCast]
    refine mul_le_mul_of_nonneg_right ?_ (le_of_lt (zpow_two_pos _))
    exact_mod_cast Nat.log2_self_le (by omega)
  have hbelow (k : ℤ) : ¬(overCommon i.middle i.unit 1 k).1 < (overCommon i.middle i.unit 1 k).2 →
      (10 : ℚ) ^ k ≤ i.center := by
    rw [overCommon_lt, Nat.cast_one, one_mul, not_lt]
    exact id
  unfold magnitude
  simp only
  split
  · exact le_trans (guess_le (Int.ediv_mul_le _ (by decide)) hl) hbinary
  · rename_i hfirst
    split
    · rw [add_sub_cancel_right]
      exact hbelow _ hfirst
    · rename_i hsecond
      rw [show ∀ a : ℤ, a + 2 - 1 = a + 1 by intro a; ring]
      exact hbelow _ hsecond

/-! ## Seventeen digits -/

theorem holds_of_lt (hlow : (i.low : ℚ) * 2 ^ i.unit < v) (hhigh : v < i.high * 2 ^ i.unit) :
    i.Holds v := by
  unfold Holds
  split
  · exact ⟨le_of_lt hlow, le_of_lt hhigh⟩
  · exact ⟨hlow, hhigh⟩

section

variable {m : Nat} {e : ℤ}

/-- The lower end of an interval is a quarter or a half of a step below the middle. -/
theorem low_ofParts (hm : 0 < m) : ((ofParts (2 ^ 52) (-1074) m e).low : ℚ) ≤ 4 * m - 2 ∨
    m = 2 ^ 52 ∧ ((ofParts (2 ^ 52) (-1074) m e).low : ℚ) ≤ 4 * m - 1 := by
  unfold ofParts
  simp only
  split
  · rename_i h
    refine .inr ⟨h.1, ?_⟩
    rw [Nat.cast_sub (by omega)]
    push_cast
    exact le_refl _
  · refine .inl ?_
    rw [Nat.cast_sub (by omega)]
    push_cast
    exact le_refl _

theorem high_ofParts (m : Nat) (e : ℤ) :
    ((ofParts (2 ^ 52) (-1074) m e).high : ℚ) = 4 * m + 2 := by
  unfold ofParts
  push_cast
  ring

/-- On a grid of seventeen digits the nearer neighbour of the middle is in the interval, as it is
less than a ten-quadrillionth part of the middle away. -/
theorem contains_of_seventeen (hm : 0 < m) (hlt : m < 2 ^ 53)
    (hg : (10 : ℚ) ^ (g + 16) ≤ (ofParts (2 ^ 52) (-1074) m e).center) :
    (ofParts (2 ^ 52) (-1074) m e).contains ((ofParts (2 ^ 52) (-1074) m e).below g) g = true ∨
      (ofParts (2 ^ 52) (-1074) m e).contains ((ofParts (2 ^ 52) (-1074) m e).below g + 1) g =
        true := by
  obtain ⟨hbelow, habove⟩ := (ofParts (2 ^ 52) (-1074) m e).below_spec g
  have hlow := low_ofParts (e := e) hm
  have hcenter : (ofParts (2 ^ 52) (-1074) m e).center = 4 * (m * 2 ^ (e - 2)) := by
    unfold center ofParts
    push_cast
    ring
  have hhigh := high_ofParts m e
  have hunit : (ofParts (2 ^ 52) (-1074) m e).unit = e - 2 := rfl
  have hpos := zpow_two_pos (e - 2)
  rw [contains_iff, contains_iff]
  rw [zpow_add₀ (by norm_num)] at hg
  rw [hcenter] at hbelow habove hg
  generalize ofParts (2 ^ 52) (-1074) m e = i at *
  generalize i.below g = b at hbelow habove ⊢
  rw [← hunit] at hbelow habove hg hpos
  have hsmall : (m : ℚ) * 2 ^ i.unit < 10 ^ 16 * 2 ^ i.unit := by
    have hten : m < 10 ^ 16 := by omega
    exact mul_lt_mul_of_pos_right (by exact_mod_cast hten) hpos
  -- The nearer neighbour is no further away than half a step of the grid.
  rcases le_or_gt (4 * ((m : ℚ) * 2 ^ i.unit) - b * 10 ^ g)
    ((b + 1) * 10 ^ g - 4 * (m * 2 ^ i.unit)) with hnear | hnear
  · refine .inl (holds_of_lt ?_ ?_)
    · rcases hlow with hlow | ⟨hpow, hlow⟩
      · refine lt_of_le_of_lt (mul_le_mul_of_nonneg_right hlow (le_of_lt hpos)) ?_
        linarith
      · refine lt_of_le_of_lt (mul_le_mul_of_nonneg_right hlow (le_of_lt hpos)) ?_
        rw [hpow] at hg hnear ⊢
        push_cast at hg hnear ⊢
        linarith
    · rw [hhigh]
      linarith
  · refine .inr (holds_of_lt ?_ ?_)
    · have hlow : (i.low : ℚ) ≤ 4 * m := by
        rcases hlow with hlow | ⟨-, hlow⟩ <;> linarith
      refine lt_of_le_of_lt (mul_le_mul_of_nonneg_right hlow (le_of_lt hpos)) ?_
      push_cast
      linarith
    · rw [hhigh]
      push_cast
      linarith

/-- What is chosen is in the interval. -/
theorem holds_shortest (hm : 0 < m) (hlt : m < 2 ^ 53) (he : -1074 ≤ e) :
    (ofParts (2 ^ 52) (-1074) m e).Holds ((ofParts (2 ^ 52) (-1074) m e).shortest tie).value := by
  have hmagnitude : (10 : ℚ) ^ ((ofParts (2 ^ 52) (-1074) m e).magnitude - 1) ≤
      (ofParts (2 ^ 52) (-1074) m e).center := by
    refine magnitude_spec (show 0 < 4 * m by omega) ?_
    show -4096 ≤ ((4 * m).log2 : ℤ) + (e - 2)
    omega
  unfold shortest
  simp only
  split
  · rename_i d hd
    obtain ⟨n, -, hn⟩ := List.exists_of_findSome?_eq_some hd
    exact holds_of_onGrid hn
  · rename_i hnone
    -- At the latest something is chosen on the grid of seventeen digits.
    exfalso
    refine onGrid_ne_none (contains_of_seventeen hm hlt ?_)
      (List.findSome?_eq_none_iff.1 hnone 16 (by decide))
    rwa [show ∀ k : ℤ, k - 1 - ((16 : ℕ) : ℤ) + 16 = k - 1 by intro k; push_cast; ring]

/-- What is in the interval of a value is near to the value. -/
theorem near_of_holds (hm : 0 < m) (h : (ofParts (2 ^ 52) (-1074) m e).Holds v) :
    Near Format.binary64 m e v := by
  have hpos := zpow_two_pos e
  have hquarter : (2 : ℚ) ^ (e - 2) = 2 ^ e / 4 := by
    rw [zpow_sub₀ (by norm_num)]
    norm_num
  have hlow : (4 * m - 2 : ℚ) ≤ (ofParts (2 ^ 52) (-1074) m e).low := by
    unfold ofParts
    simp only
    split <;> rw [Nat.cast_sub (by omega)] <;> push_cast <;> linarith
  have hshort : m = 2 ^ 52 → -1074 < e →
      (4 * m - 1 : ℚ) ≤ (ofParts (2 ^ 52) (-1074) m e).low := by
    intro hpow hmin
    unfold ofParts
    simp only
    rw [if_pos ⟨hpow, hmin⟩, Nat.cast_sub (by omega)]
    push_cast
    exact le_refl _
  have hclosed : (ofParts (2 ^ 52) (-1074) m e).closed = (m % 2 == 0) := rfl
  have hunit : (ofParts (2 ^ 52) (-1074) m e).unit = e - 2 := rfl
  unfold Holds at h
  rw [hclosed, hunit, hquarter, high_ofParts] at h
  generalize (ofParts (2 ^ 52) (-1074) m e).low = low at h hlow hshort
  have hscaled := mul_le_mul_of_nonneg_right hlow (le_of_lt hpos)
  have hends : (low : ℚ) * (2 ^ e / 4) ≤ v ∧ v ≤ (4 * m + 2) * (2 ^ e / 4) := by
    split at h
    · exact h
    · exact ⟨le_of_lt h.1, le_of_lt h.2⟩
  refine ⟨by linarith [hends.1], by linarith [hends.2], fun hodd => ?_, fun hpow hmin => ?_⟩
  · rw [if_neg (by simp [hodd])] at h
    refine ⟨ne_of_lt ?_, ne_of_lt ?_⟩ <;> linarith [h.1, h.2]
  · have hscaled := mul_le_mul_of_nonneg_right (hshort hpow hmin) (le_of_lt hpos)
    linarith [hends.1]

end

end Interval

/-! ## Digits -/

/-- Trailing zeros do not count. -/
theorem Digits.value_strip (d : Digits) (fuel : Nat) : (d.strip fuel).value = d.value := by
  induction fuel generalizing d with
  | zero => rfl
  | succ fuel ih =>
    unfold strip
    split
    · rename_i h
      have hdiv : (d.coefficient : ℚ) = 10 * (d.coefficient / 10 : ℕ) := by
        exact_mod_cast (Nat.mul_div_cancel' (Nat.dvd_of_mod_eq_zero h.1)).symm
      rw [ih]
      unfold value
      simp only
      rw [zpow_add_one₀ (by norm_num), hdiv]
      ring
    · rfl

end Triage.Decimal
