/-
Totals that never overflow. Next to a power of two the doubles are so far apart that a small term
taken from it is lost, so a total that is not above the power in magnitude is not above it after any
number of such terms. Singles are small terms, and the logarithm of a positive single is one.
-/
import Triage.Proofs.Number.Finite
import Triage.Proofs.Number.Logarithm

namespace Triage.Number

open Float.Model UnpackedFloat

variable {spec : Format} {s : Sign} {v : ℚ} {m : Nat} {e : ℤ} {x y : Float} {j k : Nat}

/-! ## Small terms -/

/-- A real that is above a power of two by less than half of the last place there becomes no more than
that power. -/
theorem Nearest.le_two_pow {hm : 0 < m} (h : Nearest spec s v (.finite s m e hm)) {k : ℤ}
    (hk : spec.minExponent + spec.mantissaBitsWithoutImplicit ≤ k)
    (hv : v < 2 ^ k + 2 ^ (k - spec.mantissaBitsWithoutImplicit) / 2) :
    (m : ℚ) * 2 ^ e ≤ 2 ^ k := by
  cases h with
  | @finite em t _ _ _ cut place top least lt full value =>
    rw [value]
    rcases le_or_gt v (2 ^ k) with hle | hgt
    · exact cut.rounded_le_two_pow place (by omega) hle
    · have hpos := zpow_two_pos (k - spec.mantissaBitsWithoutImplicit)
      have hsplit : (2 : ℚ) ^ k =
          2 ^ spec.mantissaBitsWithoutImplicit * 2 ^ (k - spec.mantissaBitsWithoutImplicit) := by
        rw [← zpow_natCast, ← zpow_add₀ (by norm_num), add_sub_cancel]
      -- The last place of the real is the one of the power.
      have hlast : t = k - spec.mantissaBitsWithoutImplicit := by
        refine le_antisymm ?_ ?_
        · rcases place with rfl | hlow
          · omega
          · have hone : (1 : ℚ) ≤ 2 ^ spec.mantissaBitsWithoutImplicit :=
              one_le_pow₀ (by norm_num)
            have hhalf : v < 2 ^ (k + 1) := by
              rw [zpow_add_one₀ (by norm_num)]
              nlinarith
            rw [← zpow_natCast, ← zpow_add₀ (by norm_num)] at hlow
            have := zpow_two_lt.1 (hlow.trans_lt hhalf)
            omega
        · rw [← zpow_natCast, ← zpow_add₀ (by norm_num)] at top
          have := zpow_two_lt.1 (hgt.trans top)
          unfold Format.mantissaBits at this
          push_cast at this
          omega
      subst hlast
      have hquotient : v / 2 ^ (k - spec.mantissaBitsWithoutImplicit) <
          2 ^ spec.mantissaBitsWithoutImplicit + 1 / 2 := by
        rw [div_lt_iff₀ hpos, add_mul, ← hsplit]
        linarith
      have hrounded : em.roundedMantissa ≤ 2 ^ spec.mantissaBitsWithoutImplicit := by
        have hlt : (em.roundedMantissa : ℚ) < 2 ^ spec.mantissaBitsWithoutImplicit + 1 := by
          linarith [cut.distance.2]
        exact Nat.lt_succ_iff.1 (by exact_mod_cast hlt)
      rw [hsplit]
      exact mul_le_mul_of_nonneg_right (by exact_mod_cast hrounded) hpos.le

/-- What is rounded from a bounded and a small magnitude together has the same bound. -/
theorem within_normalize_small {n : ℤ} (h : (n.natAbs : ℚ) * 2 ^ e ≤ 2 ^ k + 2 ^ j)
    (hjk : j + 54 ≤ k) (hk : k ≤ 1022) : Within k (Float.ofModel (Float.Model.pack
      (UnpackedFloat.normalize Format.binary64 n e .positive))) := by
  rcases eq_or_ne n 0 with rfl | hn
  · exact within_of_zero (partsOfDouble_zero .positive)
  · have hsmall : (2 : ℚ) ^ j < 2 ^ ((k : ℤ) - 52) / 2 := by
      rw [lt_div_iff₀ (by norm_num), ← zpow_natCast, ← zpow_add_one₀ (by norm_num)]
      exact zpow_two_lt.2 (by omega)
    have hlarge : (2 : ℚ) ^ k + 2 ^ j ≤ 2 ^ ((1023 : ℕ) : ℤ) := by
      rw [zpow_natCast]
      exact (two_pow_add_le k j).trans (pow_le_pow_right₀ (by norm_num) (by omega))
    obtain ⟨s, hs⟩ := @nearest_normalize Format.binary64 n hn e .positive
    generalize UnpackedFloat.normalize Format.binary64 n e .positive = u at hs ⊢
    cases u with
    | notANumber => cases hs
    | infinity => cases hs
    | zero => exact within_of_zero (partsOfDouble_zero _)
    | finite t m f hm =>
      obtain rfl : s = t := by cases hs; rfl
      have hc : Canonical Format.binary64 m f :=
        hs.rounded.canonical (by decide) (h.trans hlarge)
      refine within_of_finite (partsOfDouble_pack hc) ?_
      rw [← zpow_natCast]
      refine hs.le_two_pow (k := k) (by show (-1074 : ℤ) + 52 ≤ k; omega) ?_
      rw [zpow_natCast]
      exact lt_of_le_of_lt h (add_lt_add_right hsmall _)

/-- What is left of a bounded double when a small one is taken from it has the same bound. -/
theorem Within.sub_small (hx : Within k x) (hy : Within j y) (hjk : j + 54 ≤ k)
    (hk : k ≤ 1022) : Within k (x - y) :=
  hx.sub_of hy (le_refl k) (by omega) fun _ _ hle => within_normalize_small hle hjk hk

theorem Within.add_small (hx : Within k x) (hy : Within j y) (hjk : j + 54 ≤ k)
    (hk : k ≤ 1022) : Within k (x + y) :=
  hx.add_of hy (le_refl k) (by omega) fun _ _ hle => within_normalize_small hle hjk hk

/-- A mean is no larger than the total. -/
theorem Within.div_between {l : ℤ} (hx : Within k x) (hy : Between 0 l y) (hk : k ≤ 1023) :
    Within k (x / y) := by
  obtain ⟨n, f, hn, hy, hlow, -⟩ := hy
  rw [zpow_zero] at hlow
  show Within _ (Float.ofModel (Float.Model.pack
    (UnpackedFloat.div Format.binary64 (partsOfDouble x) (partsOfDouble y))))
  rcases hx.cases with ⟨s, hx⟩ | ⟨s, m, e, hm, hx, hhigh⟩
  · rw [hx, hy]
    exact within_of_zero (partsOfDouble_zero _)
  · rw [hx, hy]
    refine (rounded_div s .positive hm hn e f).within ?_ hk
    exact (div_le_self (by positivity) hlow).trans hhigh

theorem within_zero (k : Nat) : Within k 0 :=
  within_of_zero (s := .positive) (by rfl)

/-! ## Singles among the doubles -/

variable {a : Float32}

/-- The parts of a finite single, none of which is larger than the format allows. -/
theorem single_parts_of_isFinite (h : a.isFinite = true) : (∃ s, partsOfSingle a = .zero s) ∨
    ∃ s m e hm, partsOfSingle a = .finite s m e hm ∧ (2 : ℚ) ^ (-149 : ℤ) ≤ m * 2 ^ e ∧
      (m : ℚ) * 2 ^ e ≤ 2 ^ 128 := by
  refine (single_parts h).imp_right ?_
  rintro ⟨s, m, e, hm, hp, hc⟩
  exact ⟨s, m, e, hm, hp, two_pow_le_value hm hc.least, by exact_mod_cast hc.value_lt_top.le⟩

theorem within_widen (h : a.isFinite = true) : Within 128 (widen a) := by
  unfold widen
  rcases single_parts_of_isFinite h with ⟨s, hp⟩ | ⟨s, m, e, hm, hp, -, hhigh⟩ <;>
    rw [hp] <;> simp only [doubleOfParts_eq]
  · exact within_of_zero (partsOfDouble_zero s)
  · exact (rounded_round s hm e).within hhigh (by norm_num)

theorem between_widen (h : a.isFinite = true) (hpos : 0 < a) : Between (-149) 128 (widen a) := by
  rw [lt_iff, partsOfSingle_zero] at hpos
  unfold widen
  rcases single_parts_of_isFinite h with ⟨s, hp⟩ | ⟨s, m, e, hm, hp, hlow, hhigh⟩
  · rw [hp] at hpos
    cases s <;> cases hpos
  · rw [hp] at hpos
    cases s with
    | negative => cases hpos
    | positive =>
      rw [hp]
      simp only [doubleOfParts_eq]
      exact (rounded_round .positive hm e).between hlow (by exact_mod_cast hhigh) (by norm_num)
        (by norm_num)

theorem isFinite_narrow (h : Within 127 x) : (narrow x).isFinite = true := by
  have hmake (u : UnpackedFloat) : singleOfParts u = Float32.ofModel (Float32.Model.pack u) :=
    single_ofModel_pack_parts (Float32.ofModel (Float32.Model.pack u))
  unfold narrow
  rcases h.cases with ⟨s, hp⟩ | ⟨s, m, e, hm, hp, hhigh⟩ <;> rw [hp] <;> simp only [hmake]
  · cases s <;> decide
  · exact (rounded_round s hm e).single_isFinite (by exact_mod_cast hhigh)

theorem isNaN_narrow (h : partsOfDouble x = .notANumber) : (narrow x).isNaN = true := by
  unfold narrow
  rw [h]
  decide

/-- What is not below a positive single is positive. -/
theorem larger_pos {b : Float32} (ha : a.isFinite = true) (hb : b.isFinite = true) (hpos : 0 < b) :
    0 < larger a b := by
  rw [larger_of_numbers (isNaN_of_isFinite ha) (isNaN_of_isFinite hb)]
  split
  · exact hpos
  · rename_i hle
    rw [lt_iff] at hle hpos ⊢
    rw [partsOfSingle_zero] at hpos ⊢
    rcases single_parts_of_isFinite hb with ⟨t, hq⟩ | ⟨t, n, f, hn, hq, -, -⟩ <;> rw [hq] at hle hpos
    · cases hpos
    · cases t with
      | negative => cases hpos
      | positive =>
        rcases single_parts_of_isFinite ha with ⟨s, hp⟩ | ⟨s, m, e, hm, hp, -, -⟩ <;>
          rw [hp] at hle ⊢
        · exact absurd rfl hle
        · cases s with
          | negative => exact absurd rfl hle
          | positive => rfl

/-- The logarithm of a single by way of the doubles. -/
def lnSingle (x : Float32) : Float32 :=
  narrow (ln (widen x))

theorem isFinite_lnSingle (h : a.isFinite = true) (hpos : 0 < a) :
    (lnSingle a).isFinite = true :=
  isFinite_narrow ((within_ln (between_widen h hpos)).mono (by norm_num))

end Triage.Number
