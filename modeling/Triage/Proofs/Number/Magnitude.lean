/-
How large the result of an operation is. Rounding passes no power of two: what is not above one
before is not above it after, and what is not below one stays so. So a bound by a power of two goes
through every operation, and as long as it stays in the range of the format nothing overflows.
-/
import Triage.Proofs.Number.Scientific

namespace Triage.Number

open Float.Model UnpackedFloat

variable {spec : Format} {s : Sign} {v x : ℚ} {m : Nat} {e : ℤ}

/-! ## Values -/

theorem value_pos (hm : 0 < m) (e : ℤ) : (0 : ℚ) < m * 2 ^ e :=
  mul_pos (by exact_mod_cast hm) (zpow_two_pos e)

/-- A value is not below the powers of two up to its last place. -/
theorem two_pow_le_value (hm : 0 < m) {k : ℤ} (hk : k ≤ e) : (2 : ℚ) ^ k ≤ m * 2 ^ e := by
  have hone : (1 : ℚ) ≤ m := by exact_mod_cast hm
  exact (zpow_two_le.2 hk).trans (le_mul_of_one_le_left (zpow_two_pos e).le hone)

/-! ## Rounding -/

/-- A significand is rounded by no more than a half. -/
theorem CutOff.distance {em : ExtendedMantissa} (h : CutOff em x) :
    x - 1 / 2 ≤ em.roundedMantissa ∧ (em.roundedMantissa : ℚ) ≤ x + 1 / 2 := by
  obtain ⟨m, r, t⟩ := em
  obtain ⟨hle, hlt, hs⟩ := h
  simp only [halves] at hle hlt hs
  push_cast at hle hlt hs
  cases r with
  | false =>
    simp only [Bool.toNat_false, Nat.cast_zero, add_zero] at hle hlt
    have hr : (ExtendedMantissa.mk m false t).roundedMantissa = m := by cases t <;> rfl
    rw [hr]
    constructor <;> linarith
  | true =>
    simp only [Bool.toNat_true, Nat.cast_one] at hle hlt hs
    cases t with
    | false =>
      -- Half way the even one of two numbers is taken, and both are as near.
      have hr : (ExtendedMantissa.mk m true false).roundedMantissa = m + m % 2 := rfl
      have hx : 2 * x = 2 * m + 1 := hs.1 rfl
      rcases Nat.mod_two_eq_zero_or_one m with hm | hm <;> rw [hr, hm] <;> push_cast <;>
        constructor <;> linarith
    | true =>
      have hr : (ExtendedMantissa.mk m true true).roundedMantissa = m + 1 := rfl
      rw [hr]
      push_cast
      constructor <;> linarith

/-- A natural number that is not below a real is not below what it is rounded to. -/
theorem CutOff.rounded_le {em : ExtendedMantissa} (h : CutOff em x) {n : Nat} (hx : x ≤ n) :
    em.roundedMantissa ≤ n := by
  have hlt : (em.roundedMantissa : ℚ) < n + 1 := by linarith [h.distance.2]
  exact Nat.lt_succ_iff.1 (by exact_mod_cast hlt)

/-- A natural number that is not above a real is not above what it is rounded to. -/
theorem CutOff.le_rounded {em : ExtendedMantissa} (h : CutOff em x) {n : Nat} (hx : n ≤ x) :
    n ≤ em.roundedMantissa := by
  have hlt : (n : ℚ) < em.roundedMantissa + 1 := by linarith [h.distance.1]
  exact Nat.lt_succ_iff.1 (by exact_mod_cast hlt)

/-- What a real is rounded to: zero if it is no more than half of the least there is, and else parts
as the format keeps them, except that they may be too large for it. No power of two is passed. -/
inductive Rounded (spec : Format) (s : Sign) (v : ℚ) : UnpackedFloat → Prop
  | zero (small : v ≤ 2 ^ spec.minExponent / 2) : Rounded spec s v (.zero s)
  | finite {m : Nat} {e : ℤ} {hm : 0 < m} (least : spec.minExponent ≤ e)
      (lt : m < 2 ^ spec.mantissaBits)
      (full : 2 ^ spec.mantissaBitsWithoutImplicit ≤ m ∨ e = spec.minExponent)
      (below : ∀ k, spec.minExponent ≤ k → v ≤ 2 ^ k → (m : ℚ) * 2 ^ e ≤ 2 ^ k)
      (above : ∀ k, spec.minExponent ≤ k → 2 ^ k ≤ v → (2 : ℚ) ^ k ≤ m * 2 ^ e) :
      Rounded spec s v (.finite s m e hm)

/-- A significand with no bit too many is not shifted again, and one that was rounded up to the next
power is shifted by one bit. -/
theorem shift_rounded {r : Nat} {t : ℤ} (hle : r ≤ 2 ^ spec.mantissaBits)
    (ht : spec.minExponent ≤ t)
    (hfull : 2 ^ spec.mantissaBitsWithoutImplicit ≤ r ∨ t = spec.minExponent) :
    ∃ em e, shiftToTargetExponent spec r t .exact = (em, e) ∧ spec.minExponent ≤ e ∧
      em.mantissa < 2 ^ spec.mantissaBits ∧
      (2 ^ spec.mantissaBitsWithoutImplicit ≤ em.mantissa ∨ e = spec.minExponent) ∧
      (em.mantissa : ℚ) * 2 ^ e = r * 2 ^ t := by
  rcases Nat.lt_or_eq_of_le hle with hlt | heq
  · have hlog : r.log2 < spec.mantissaBits := by
      rcases Nat.eq_zero_or_pos r with rfl | hr
      · exact Nat.lt_of_lt_of_le Nat.one_pos (Nat.le_add_right ..)
      · exact (Nat.log2_lt (by omega)).2 hlt
    have htarget : spec.targetExponent (totalExponent r t) ≤ t := by
      unfold Format.targetExponent totalExponent
      omega
    have hzero : (spec.targetExponent (totalExponent r t) - t).toNat = 0 := by omega
    refine ⟨.ofMantissaAndAccuracy r .exact, t, ?_, ht, hlt, hfull, rfl⟩
    unfold shiftToTargetExponent shiftToExponent
    simp only [hzero]
    rw [Nat.cast_zero, add_zero]
    rfl
  · have htwice := two_pow_mantissaBits spec
    obtain ⟨em, hem, hmant⟩ := shift_power spec (e := t + 1) (by omega)
    rw [add_sub_cancel_right, ← htwice, ← heq] at hem
    refine ⟨em, t + 1, hem, by omega, ?_, .inl hmant.ge, ?_⟩
    · have := Nat.two_pow_pos spec.mantissaBitsWithoutImplicit
      omega
    · rw [hmant, heq, htwice, zpow_add_one₀ (by norm_num)]
      push_cast
      ring

/-- Whether an exponent is the least one, or the first bit of a real is in its place over it. -/
def Placed (spec : Format) (v : ℚ) (t : ℤ) : Prop :=
  t = spec.minExponent ∨ (2 : ℚ) ^ spec.mantissaBitsWithoutImplicit * 2 ^ t ≤ v

/-- The exponent that is aimed at puts the first bit in its place, and no bit before it. -/
theorem placed_target {acc : Accuracy}
    (hcut : CutOff (.ofMantissaAndAccuracy m acc) (v / 2 ^ e))
    (hzero : m = 0 → spec.targetExponent (totalExponent m e) = spec.minExponent) :
    Placed spec v (spec.targetExponent (totalExponent m e)) ∧
      v < 2 ^ spec.mantissaBits * 2 ^ spec.targetExponent (totalExponent m e) := by
  obtain ⟨hlt, hfrom⟩ := hcut.total
  constructor
  · rcases Nat.eq_zero_or_pos m with h | h
    · exact .inl (hzero h)
    · refine Decidable.or_iff_not_imp_left.2 fun hmin => ?_
      have hsame : totalExponent m e - 1 = spec.mantissaBitsWithoutImplicit +
          spec.targetExponent (totalExponent m e) := by
        unfold Format.targetExponent Format.mantissaBits at hmin ⊢
        push_cast at hmin ⊢
        omega
      rw [← zpow_natCast, ← zpow_add₀ (by norm_num), ← hsame]
      exact hfrom h
  · rw [← zpow_natCast, ← zpow_add₀ (by norm_num)]
    refine lt_of_lt_of_le hlt (zpow_two_le.2 ?_)
    unfold Format.targetExponent
    omega

theorem two_pow_lt_of_placed {t k : ℤ} (hplace : Placed spec v t) (hk : spec.minExponent ≤ k)
    (hkt : k < t) : (2 : ℚ) ^ k < 2 ^ t ∧ (2 : ℚ) ^ t ≤ v := by
  have hlow := hplace.resolve_left (by omega)
  have hone : (1 : ℚ) ≤ 2 ^ spec.mantissaBitsWithoutImplicit := one_le_pow₀ (by norm_num)
  exact ⟨zpow_two_lt.2 hkt, (le_mul_of_one_le_left (zpow_two_pos t).le hone).trans hlow⟩

/-- The rounded significand does not pass a power of two that is not below the real. -/
theorem CutOff.rounded_le_two_pow {em : ExtendedMantissa} {t k : ℤ} (h : CutOff em (v / 2 ^ t))
    (hplace : Placed spec v t) (hk : spec.minExponent ≤ k) (hv : v ≤ 2 ^ k) :
    (em.roundedMantissa : ℚ) * 2 ^ t ≤ 2 ^ k := by
  have hpos := zpow_two_pos t
  rcases le_or_gt t k with htk | htk
  · have hle : em.roundedMantissa ≤ 2 ^ (k - t).toNat := h.rounded_le (by
      rw [div_le_iff₀ hpos, Nat.cast_pow, Nat.cast_ofNat, mul_comm, ← zpow_two_split htk]
      exact hv)
    rw [zpow_two_split htk, mul_comm]
    exact mul_le_mul_of_nonneg_left (by exact_mod_cast hle) hpos.le
  · obtain ⟨hlt, hle⟩ := two_pow_lt_of_placed hplace hk htk
    linarith

/-- Nor does it pass one that is not above the real. -/
theorem CutOff.two_pow_le_rounded {em : ExtendedMantissa} {t k : ℤ} (h : CutOff em (v / 2 ^ t))
    (hplace : Placed spec v t) (hk : spec.minExponent ≤ k) (hv : 2 ^ k ≤ v) :
    (2 : ℚ) ^ k ≤ em.roundedMantissa * 2 ^ t := by
  have hpos := zpow_two_pos t
  rcases le_or_gt t k with htk | htk
  · have hle : 2 ^ (k - t).toNat ≤ em.roundedMantissa := h.le_rounded (by
      rw [le_div_iff₀ hpos, Nat.cast_pow, Nat.cast_ofNat, mul_comm, ← zpow_two_split htk]
      exact hv)
    rw [zpow_two_split htk, mul_comm]
    exact mul_le_mul_of_nonneg_right (by exact_mod_cast hle) hpos.le
  · obtain ⟨hlt, hle⟩ := two_pow_lt_of_placed hplace hk htk
    have hone : 1 ≤ em.roundedMantissa := h.le_rounded (by
      rw [Nat.cast_one, one_le_div₀ hpos]
      exact hle)
    exact hlt.le.trans (le_mul_of_one_le_left hpos.le (by exact_mod_cast hone))

/-- The value of the format that is nearest to a real, except that it may be too large for it: the real
is cut off at an exponent that puts its first bit in its place, and what is left is rounded. -/
inductive Nearest (spec : Format) (s : Sign) (v : ℚ) : UnpackedFloat → Prop
  | zero {em : ExtendedMantissa} (cut : CutOff em (v / 2 ^ spec.minExponent))
      (none : em.roundedMantissa = 0) : Nearest spec s v (.zero s)
  | finite {em : ExtendedMantissa} {t : ℤ} {m : Nat} {e : ℤ} {hm : 0 < m}
      (cut : CutOff em (v / 2 ^ t)) (place : Placed spec v t)
      (top : v < 2 ^ spec.mantissaBits * 2 ^ t) (least : spec.minExponent ≤ e)
      (lt : m < 2 ^ spec.mantissaBits)
      (full : 2 ^ spec.mantissaBitsWithoutImplicit ≤ m ∨ e = spec.minExponent)
      (value : (m : ℚ) * 2 ^ e = em.roundedMantissa * 2 ^ t) : Nearest spec s v (.finite s m e hm)

/-- A nearest value is above the real by half of a last place at most, and that place is the least of
the format or no larger than the real. -/
theorem Nearest.exceeds {hm : 0 < m} (h : Nearest spec s v (.finite s m e hm)) :
    ∃ t, (t = spec.minExponent ∨ 2 ^ t ≤ v) ∧ (m : ℚ) * 2 ^ e ≤ v + 2 ^ t / 2 := by
  cases h with
  | @finite em t _ _ _ cut place top least lt full value =>
    refine ⟨t, place.imp_right fun hlow => ?_, ?_⟩
    · have hone : (1 : ℚ) ≤ 2 ^ spec.mantissaBitsWithoutImplicit := one_le_pow₀ (by norm_num)
      exact (le_mul_of_one_le_left (zpow_two_pos t).le hone).trans hlow
    · have hdistance := cut.distance.2
      rw [← sub_le_iff_le_add, le_div_iff₀ (zpow_two_pos t)] at hdistance
      rw [value]
      linarith

/-- What is less than half of the least value becomes zero. -/
theorem Nearest.eq_zero {u : UnpackedFloat} (h : Nearest spec s v u)
    (hv : v < 2 ^ spec.minExponent / 2) : u = .zero s := by
  cases u with
  | notANumber => cases h
  | infinity => cases h
  | zero t =>
    cases h
    rfl
  | finite t m e hm =>
    obtain rfl : s = t := by cases h; rfl
    exfalso
    obtain ⟨t, ht, hvalue⟩ := h.exceeds
    have hleast : (2 : ℚ) ^ spec.minExponent ≤ m * 2 ^ e := by
      cases h with
      | finite cut place top least lt full value => exact two_pow_le_value hm least
    have hpos := zpow_two_pos spec.minExponent
    rcases ht with rfl | ht <;> linarith

/-- A real that is not below the least value is not rounded up by more than its half. -/
theorem Nearest.le_of_least {hm : 0 < m} (h : Nearest spec s v (.finite s m e hm))
    (hv : 2 ^ spec.minExponent ≤ v) : (m : ℚ) * 2 ^ e ≤ 3 / 2 * v := by
  obtain ⟨t, ht, hvalue⟩ := h.exceeds
  rcases ht with rfl | ht <;> linarith

/-- Whatever is cut off with enough bits left becomes the nearest value. -/
theorem nearest_roundWithAccuracy {acc : Accuracy} (s : Sign)
    (hcut : CutOff (.ofMantissaAndAccuracy m acc) (v / 2 ^ e))
    (ht : e ≤ spec.targetExponent (totalExponent m e))
    (hzero : m = 0 → spec.targetExponent (totalExponent m e) = spec.minExponent) :
    Nearest spec s v (roundWithAccuracy spec s m e acc) := by
  obtain ⟨hshifted, hexp⟩ := cutOff_shiftToExponent hcut ht
  obtain ⟨hplace, htop⟩ := placed_target hcut hzero
  have hfirst : shiftToTargetExponent spec m e acc =
      ((shiftToExponent m e acc (spec.targetExponent (totalExponent m e))).1,
        spec.targetExponent (totalExponent m e)) := Prod.ext rfl hexp
  have hleast : spec.minExponent ≤ spec.targetExponent (totalExponent m e) := le_max_right _ _
  unfold roundWithAccuracy
  rw [hfirst]
  simp only
  generalize spec.targetExponent (totalExponent m e) = t at hshifted hplace hleast htop ⊢
  generalize (shiftToExponent m e acc t).1 = em at hshifted ⊢
  have hpos := zpow_two_pos t
  have hle : em.roundedMantissa ≤ 2 ^ spec.mantissaBits := hshifted.rounded_le (by
    rw [div_le_iff₀ hpos]
    push_cast
    exact htop.le)
  have hfull : 2 ^ spec.mantissaBitsWithoutImplicit ≤ em.roundedMantissa ∨
      t = spec.minExponent := by
    refine hplace.symm.imp_left fun hlow => hshifted.le_rounded ?_
    rw [le_div_iff₀ hpos]
    push_cast
    exact hlow
  obtain ⟨em', e', hem, hleast', hlt', hfull', hvalue⟩ := shift_rounded hle hleast hfull
  rw [hem]
  by_cases hnone : em'.mantissa = 0
  · have hr : em.roundedMantissa = 0 := by
      rw [hnone, Nat.cast_zero, zero_mul] at hvalue
      exact_mod_cast (mul_eq_zero.1 hvalue.symm).resolve_right hpos.ne'
    have hmin : t = spec.minExponent := hfull.resolve_left (by
      have := Nat.two_pow_pos spec.mantissaBitsWithoutImplicit
      omega)
    rw [dif_pos hnone]
    exact .zero (hmin ▸ hshifted) hr
  · rw [dif_neg hnone]
    exact .finite hshifted hplace htop hleast' hlt' hfull' hvalue

theorem Nearest.rounded {u : UnpackedFloat} (h : Nearest spec s v u) : Rounded spec s v u := by
  cases h with
  | zero cut none =>
    -- Rounded to zero it was no more than half of the last place, and that place is the least.
    have hdist := cut.distance.1
    rw [none, Nat.cast_zero, sub_nonpos, div_le_iff₀ (zpow_two_pos _)] at hdist
    exact .zero (by linarith)
  | finite cut place top least lt full value =>
    exact .finite least lt full (fun k hk hv => value ▸ cut.rounded_le_two_pow place hk hv)
      fun k hk hv => value ▸ cut.two_pow_le_rounded place hk hv

/-- The quotient of two values becomes the nearest value. -/
theorem nearest_div (s t : Sign) {m₁ m₂ : Nat} (h₁ : 0 < m₁) (h₂ : 0 < m₂) (e₁ e₂ : ℤ) :
    Nearest spec (s / t) ((m₁ * 2 ^ e₁) / (m₂ * 2 ^ e₂))
      (UnpackedFloat.div spec (.finite s m₁ e₁ h₁) (.finite t m₂ e₂ h₂)) :=
  nearest_roundWithAccuracy (s / t) (cutOff_divCore spec m₁ h₂ e₁ e₂)
    (divCore_le_target spec h₁ h₂ e₁ e₂) (divCore_target_of_zero spec h₁ h₂ e₁ e₂)

theorem rounded_div (s t : Sign) {m₁ m₂ : Nat} (h₁ : 0 < m₁) (h₂ : 0 < m₂) (e₁ e₂ : ℤ) :
    Rounded spec (s / t) ((m₁ * 2 ^ e₁) / (m₂ * 2 ^ e₂))
      (UnpackedFloat.div spec (.finite s m₁ e₁ h₁) (.finite t m₂ e₂ h₂)) :=
  (nearest_div s t h₁ h₂ e₁ e₂).rounded

theorem minExponent_nonpos (spec : Format) : spec.minExponent ≤ 0 := by
  rw [minExponent_eq]
  have := spec.hm
  omega

theorem totalExponent_shiftLeft (hm : 0 < m) (n : Nat) (e : ℤ) :
    totalExponent (m <<< n) (e - n) = totalExponent m e := by
  have hpow := Nat.two_pow_pos n
  have hlog : (m <<< n).log2 = m.log2 + n := by
    rw [Nat.shiftLeft_eq, Nat.log2_eq_iff (Nat.mul_pos hm hpow).ne', Nat.add_right_comm,
      Nat.pow_add, Nat.pow_add]
    exact ⟨Nat.mul_le_mul_right _ (Nat.log2_self_le hm.ne'),
      Nat.mul_lt_mul_of_pos_right Nat.lt_log2_self hpow⟩
  unfold totalExponent
  rw [hlog]
  push_cast
  ring

theorem shiftLeft_value (m n : Nat) (e : ℤ) :
    ((m <<< n : ℕ) : ℚ) * 2 ^ (e - n) = m * 2 ^ e := by
  rw [Nat.shiftLeft_eq, zpow_sub₀ (by norm_num), zpow_natCast]
  push_cast
  field_simp

theorem decreaseExponent_value {t : ℤ} (h : t ≤ e) :
    ((decreaseExponent m e t).1 : ℚ) * 2 ^ t = m * 2 ^ e := by
  have hvalue := shiftLeft_value m (e - t).toNat e
  rwa [show e - ((e - t).toNat : ℤ) = t by omega] at hvalue

/-- Parts whose exponent is not too large for the format become the nearest value. -/
theorem nearest_exact (s : Sign) (hm : 0 < m) (ht : e ≤ spec.targetExponent (totalExponent m e)) :
    Nearest spec s (m * 2 ^ e) (roundWithAccuracy spec s m e .exact) := by
  refine nearest_roundWithAccuracy s ?_ ht fun hzero => absurd hzero hm.ne'
  rw [mul_div_cancel_right₀ _ (zpow_two_pos e).ne']
  exact cutOff_exact m

theorem rounded_exact (s : Sign) (hm : 0 < m) (ht : e ≤ spec.targetExponent (totalExponent m e)) :
    Rounded spec s (m * 2 ^ e) (roundWithAccuracy spec s m e .exact) :=
  (nearest_exact s hm ht).rounded

/-- So do any parts, their exponent being lowered where it is too large. -/
theorem nearest_round (s : Sign) (hm : 0 < m) (e : ℤ) :
    Nearest spec s (m * 2 ^ e) (round spec s m e) := by
  have hpos : 0 < m <<< (e - spec.targetExponent (totalExponent m e)).toNat := by
    rw [Nat.shiftLeft_eq]
    exact Nat.mul_pos hm (Nat.two_pow_pos _)
  rw [← shiftLeft_value m (e - spec.targetExponent (totalExponent m e)).toNat e]
  refine nearest_exact s hpos ?_
  rw [totalExponent_shiftLeft hm]
  omega

theorem rounded_round (s : Sign) (hm : 0 < m) (e : ℤ) :
    Rounded spec s (m * 2 ^ e) (round spec s m e) :=
  (nearest_round s hm e).rounded

/-- A signed significand other than zero is rounded by its magnitude. -/
theorem nearest_normalize {n : ℤ} (hn : n ≠ 0) (e : ℤ) (zero : Sign) :
    ∃ s, Nearest spec s (n.natAbs * 2 ^ e) (UnpackedFloat.normalize spec n e zero) := by
  unfold UnpackedFloat.normalize
  rcases lt_trichotomy n 0 with h | h | h
  · rw [Int.compare_eq_lt.2 h, show n.natAbs = (-n).toNat by omega]
    exact ⟨_, nearest_round .negative (by omega) e⟩
  · exact absurd h hn
  · rw [Int.compare_eq_gt.2 h, show n.natAbs = n.toNat by omega]
    exact ⟨_, nearest_round .positive (by omega) e⟩

theorem rounded_normalize {n : ℤ} (hn : n ≠ 0) (e : ℤ) (zero : Sign) :
    ∃ s, Rounded spec s (n.natAbs * 2 ^ e) (UnpackedFloat.normalize spec n e zero) := by
  obtain ⟨s, hs⟩ := @nearest_normalize spec n hn e zero
  exact ⟨s, hs.rounded⟩

/-- What is rounded fits the format if it is below its largest power of two. -/
theorem Rounded.canonical {hm : 0 < m} (hb : 0 < spec.exponentBias)
    (h : Rounded spec s v (.finite s m e hm)) (hv : v ≤ 2 ^ (spec.exponentBias : ℤ)) :
    Canonical spec m e := by
  cases h with
  | finite least lt full below above =>
    refine ⟨least, ?_, lt, full⟩
    rcases full with full | rfl
    · have hbound := below spec.exponentBias (by have := minExponent_nonpos spec; omega) hv
      have hcast : (2 : ℚ) ^ (spec.mantissaBitsWithoutImplicit : ℤ) ≤ m := by exact_mod_cast full
      have hpow :
          (2 : ℚ) ^ (spec.mantissaBitsWithoutImplicit + e : ℤ) ≤ 2 ^ (spec.exponentBias : ℤ) := by
        rw [zpow_add₀ (by norm_num)]
        exact le_trans (mul_le_mul_of_nonneg_right hcast (zpow_two_pos e).le) hbound
      have := zpow_two_le.1 hpow
      omega
    · rw [minExponent_eq]
      omega

/-- Values of a format are below the power of two after its largest. -/
theorem Canonical.value_lt_top (h : Canonical spec m e) :
    (m : ℚ) * 2 ^ e < 2 ^ (spec.exponentBias + 1 : ℤ) := by
  have hlt : (m : ℚ) < 2 ^ (spec.mantissaBits : ℤ) := by exact_mod_cast h.lt
  have hmost := h.most
  refine lt_of_lt_of_le (mul_lt_mul_of_pos_right hlt (zpow_two_pos e)) ?_
  rw [← zpow_add₀ (by norm_num)]
  refine zpow_two_le.2 ?_
  unfold Format.mantissaBits
  push_cast
  omega

/-! ## Bounded doubles -/

/-- Whether a double is finite and its magnitude is not above a power of two. -/
def Within (k : Nat) (x : Float) : Prop :=
  match partsOfDouble x with
  | .zero _ => True
  | .finite _ m e _ => (m : ℚ) * 2 ^ e ≤ 2 ^ k
  | _ => False

variable {x y z : Float} {j k l : Nat}

theorem Within.cases (h : Within k x) :
    (∃ s, partsOfDouble x = .zero s) ∨
      ∃ s m e hm, partsOfDouble x = .finite s m e hm ∧ (m : ℚ) * 2 ^ e ≤ 2 ^ k := by
  unfold Within at h
  split at h
  · exact .inl ⟨_, ‹_›⟩
  · exact .inr ⟨_, _, _, _, ‹_›, h⟩
  · exact h.elim

theorem within_of_zero (h : partsOfDouble x = .zero s) : Within k x := by
  unfold Within
  rw [h]
  trivial

theorem within_of_finite {hm : 0 < m} (h : partsOfDouble x = .finite s m e hm)
    (hk : (m : ℚ) * 2 ^ e ≤ 2 ^ k) : Within k x := by
  unfold Within
  rw [h]
  exact hk

theorem Within.isFinite (h : Within k x) : x.isFinite = true := by
  show (partsOfDouble x).isFinite = true
  rcases h.cases with ⟨s, hx⟩ | ⟨s, m, e, hm, hx, -⟩ <;> rw [hx] <;> rfl

theorem Within.mono (h : Within j x) (hjk : j ≤ k) : Within k x := by
  rcases h.cases with ⟨s, hx⟩ | ⟨s, m, e, hm, hx, hb⟩
  · exact within_of_zero hx
  · exact within_of_finite hx (hb.trans (pow_le_pow_right₀ (by norm_num) hjk))

/-- The double that is packed from what a bounded value is rounded to. -/
theorem Rounded.within {u : UnpackedFloat} (h : Rounded Format.binary64 s v u) (hv : v ≤ 2 ^ k)
    (hk : k ≤ 1023) : Within k (Float.ofModel (Float.Model.pack u)) := by
  rw [← zpow_natCast] at hv
  cases h with
  | zero => exact within_of_zero (partsOfDouble_zero s)
  | @finite m e hm least lt full below above =>
    have hc : Canonical Format.binary64 m e :=
      @Rounded.canonical _ s v m e hm (by decide) (.finite least lt full below above)
        (hv.trans (zpow_two_le.2 (Int.ofNat_le.2 hk)))
    refine within_of_finite (partsOfDouble_pack hc) ?_
    rw [← zpow_natCast]
    exact below k ((minExponent_nonpos _).trans (Int.natCast_nonneg k)) hv

theorem within_normalize {n : ℤ} (h : (n.natAbs : ℚ) * 2 ^ e ≤ 2 ^ k) (hk : k ≤ 1023) :
    Within k (Float.ofModel (Float.Model.pack
      (UnpackedFloat.normalize Format.binary64 n e .positive))) := by
  rcases eq_or_ne n 0 with rfl | hn
  · exact within_of_zero (partsOfDouble_zero .positive)
  · obtain ⟨s, hs⟩ := @rounded_normalize Format.binary64 n hn e .positive
    exact hs.within h hk

/-- A sum of significands over one exponent, with any signs. -/
theorem value_sum_le {n : ℤ} {m₁ m₂ : Nat} {e₁ e₂ : ℤ} {a b : ℚ}
    (hn : n.natAbs ≤ (decreaseExponent m₁ e₁ (min e₁ e₂)).1 +
      (decreaseExponent m₂ e₂ (min e₁ e₂)).1)
    (h₁ : (m₁ : ℚ) * 2 ^ e₁ ≤ a) (h₂ : (m₂ : ℚ) * 2 ^ e₂ ≤ b) :
    (n.natAbs : ℚ) * 2 ^ min e₁ e₂ ≤ a + b := by
  calc (n.natAbs : ℚ) * 2 ^ min e₁ e₂
      ≤ ((decreaseExponent m₁ e₁ (min e₁ e₂)).1 + (decreaseExponent m₂ e₂ (min e₁ e₂)).1) *
          2 ^ min e₁ e₂ :=
        mul_le_mul_of_nonneg_right (by exact_mod_cast hn) (zpow_two_pos _).le
    _ = m₁ * 2 ^ e₁ + m₂ * 2 ^ e₂ := by
        rw [add_mul, decreaseExponent_value (min_le_left ..),
          decreaseExponent_value (min_le_right ..)]
    _ ≤ a + b := add_le_add h₁ h₂

theorem two_pow_add_le (j k : Nat) : (2 : ℚ) ^ j + 2 ^ k ≤ 2 ^ (max j k + 1) := by
  calc (2 : ℚ) ^ j + 2 ^ k ≤ 2 ^ max j k + 2 ^ max j k :=
        add_le_add (pow_le_pow_right₀ (by norm_num) (le_max_left ..))
          (pow_le_pow_right₀ (by norm_num) (le_max_right ..))
    _ = 2 ^ (max j k + 1) := by ring

theorem within_sum {n : ℤ} {m₁ m₂ : Nat} {e₁ e₂ : ℤ}
    (hn : n.natAbs ≤ (decreaseExponent m₁ e₁ (min e₁ e₂)).1 +
      (decreaseExponent m₂ e₂ (min e₁ e₂)).1)
    (h₁ : (m₁ : ℚ) * 2 ^ e₁ ≤ 2 ^ j) (h₂ : (m₂ : ℚ) * 2 ^ e₂ ≤ 2 ^ k) (hk : max j k + 1 ≤ 1023) :
    Within (max j k + 1) (Float.ofModel (Float.Model.pack
      (UnpackedFloat.normalize Format.binary64 n (min e₁ e₂) .positive))) :=
  within_normalize ((value_sum_le hn h₁ h₂).trans (two_pow_add_le j k)) hk

theorem natAbs_apply (s : Sign) (n : Nat) : (s.apply n).natAbs = n := by
  cases s with
  | negative => exact Int.natAbs_neg _
  | positive => rfl

/-- A sum is bounded by whatever bounds the nearest values to reals no larger than both magnitudes
together. -/
theorem Within.add_of (hx : Within j x) (hy : Within k y) (hj : j ≤ l) (hk : k ≤ l)
    (hnear : ∀ (n e : ℤ), (n.natAbs : ℚ) * 2 ^ e ≤ 2 ^ j + 2 ^ k →
      Within l (Float.ofModel (Float.Model.pack
        (UnpackedFloat.normalize Format.binary64 n e .positive)))) : Within l (x + y) := by
  show Within _ (Float.ofModel (Float.Model.pack
    (UnpackedFloat.add Format.binary64 (partsOfDouble x) (partsOfDouble y))))
  rcases hx.cases with ⟨s, h₁⟩ | ⟨s, m, e, hm, h₁, hb₁⟩
  · rcases hy.cases with ⟨t, h₂⟩ | ⟨t, n, f, hn, h₂, -⟩
    · rw [h₁, h₂]
      cases s <;> cases t <;> exact within_of_zero (partsOfDouble_zero _)
    · have hsame : UnpackedFloat.add Format.binary64 (partsOfDouble x) (partsOfDouble y) =
          partsOfDouble y := by rw [h₁, h₂]; rfl
      rw [hsame, ofModel_pack_parts]
      exact hy.mono hk
  · rcases hy.cases with ⟨t, h₂⟩ | ⟨t, n, f, hn, h₂, hb₂⟩
    · have hsame : UnpackedFloat.add Format.binary64 (partsOfDouble x) (partsOfDouble y) =
          partsOfDouble x := by rw [h₁, h₂]; rfl
      rw [hsame, ofModel_pack_parts]
      exact hx.mono hj
    · rw [h₁, h₂]
      refine hnear _ _ (value_sum_le ?_ hb₁ hb₂)
      refine (Int.natAbs_add_le ..).trans ?_
      rw [natAbs_apply, natAbs_apply]
      exact le_refl _

theorem Within.add (hx : Within j x) (hy : Within k y)
    (hk : max j k + 1 ≤ 1023 := by decide) : Within (max j k + 1) (x + y) :=
  hx.add_of hy (by omega) (by omega) fun _ _ hle =>
    within_normalize (hle.trans (two_pow_add_le j k)) hk

/-- A difference is bounded by whatever bounds the nearest values to reals no larger than both
magnitudes together. -/
theorem Within.sub_of (hx : Within j x) (hy : Within k y) (hj : j ≤ l) (hk : k ≤ l)
    (hnear : ∀ (n e : ℤ), (n.natAbs : ℚ) * 2 ^ e ≤ 2 ^ j + 2 ^ k →
      Within l (Float.ofModel (Float.Model.pack
        (UnpackedFloat.normalize Format.binary64 n e .positive)))) : Within l (x - y) := by
  show Within _ (Float.ofModel (Float.Model.pack
    (UnpackedFloat.sub Format.binary64 (partsOfDouble x) (partsOfDouble y))))
  rcases hx.cases with ⟨s, h₁⟩ | ⟨s, m, e, hm, h₁, hb₁⟩
  · rcases hy.cases with ⟨t, h₂⟩ | ⟨t, n, f, hn, h₂, hb₂⟩
    · rw [h₁, h₂]
      cases s <;> cases t <;> exact within_of_zero (partsOfDouble_zero _)
    · have hc : Canonical Format.binary64 n f := canonical_of_unpack (by decide) h₂
      rw [h₁, h₂]
      exact (within_of_finite (@partsOfDouble_pack (-t) n f hn hc) hb₂).mono hk
  · rcases hy.cases with ⟨t, h₂⟩ | ⟨t, n, f, hn, h₂, hb₂⟩
    · have hsame : UnpackedFloat.sub Format.binary64 (partsOfDouble x) (partsOfDouble y) =
          partsOfDouble x := by rw [h₁, h₂]; rfl
      rw [hsame, ofModel_pack_parts]
      exact hx.mono hj
    · rw [h₁, h₂]
      refine hnear _ _ (value_sum_le ?_ hb₁ hb₂)
      refine (Int.natAbs_sub_le ..).trans ?_
      rw [natAbs_apply, natAbs_apply]
      exact le_refl _

theorem Within.sub (hx : Within j x) (hy : Within k y)
    (hk : max j k + 1 ≤ 1023 := by decide) : Within (max j k + 1) (x - y) :=
  hx.sub_of hy (by omega) (by omega) fun _ _ hle =>
    within_normalize (hle.trans (two_pow_add_le j k)) hk

theorem Within.neg (hx : Within k x) : Within k (-x) := by
  show Within k (Float.ofModel (Float.Model.pack (partsOfDouble x).neg))
  rcases hx.cases with ⟨s, h⟩ | ⟨s, m, e, hm, h, hb⟩
  · rw [h]
    exact within_of_zero (partsOfDouble_zero _)
  · have hc : Canonical Format.binary64 m e := canonical_of_unpack (by decide) h
    rw [h]
    exact within_of_finite (@partsOfDouble_pack (-s) m e hm hc) hb

/-- The product of values of a format has bits enough to be rounded. -/
theorem rounded_mul (s : Sign) {m₁ m₂ : Nat} {e₁ e₂ : ℤ} (h₁ : Canonical spec m₁ e₁)
    (h₂ : Canonical spec m₂ e₂) (hm₁ : 0 < m₁) (hm₂ : 0 < m₂) :
    Rounded spec s ((m₁ * 2 ^ e₁) * (m₂ * 2 ^ e₂))
      (roundWithAccuracy spec s (m₁ * m₂) (e₁ + e₂) .exact) := by
  have hvalue : (m₁ * 2 ^ e₁ : ℚ) * (m₂ * 2 ^ e₂) = ((m₁ * m₂ : ℕ) : ℚ) * 2 ^ (e₁ + e₂) := by
    rw [zpow_add₀ (by norm_num)]
    push_cast
    ring
  rw [hvalue]
  refine rounded_exact s (Nat.mul_pos hm₁ hm₂) ?_
  rcases h₁.full with hfull | rfl
  · exact le_targetExponent (hfull.trans (Nat.le_mul_of_pos_right _ hm₂)) _
  · rcases h₂.full with hfull | rfl
    · exact le_targetExponent (hfull.trans (Nat.le_mul_of_pos_left _ hm₁)) _
    · have := minExponent_nonpos spec
      exact le_trans (by omega) (le_max_right _ _)

theorem Within.mul (hx : Within j x) (hy : Within k y) (hk : j + k ≤ 1023 := by decide) :
    Within (j + k) (x * y) := by
  show Within _ (Float.ofModel (Float.Model.pack
    (UnpackedFloat.mul Format.binary64 (partsOfDouble x) (partsOfDouble y))))
  rcases hx.cases with ⟨s, h₁⟩ | ⟨s, m, e, hm, h₁, hb₁⟩
  · rcases hy.cases with ⟨t, h₂⟩ | ⟨t, n, f, hn, h₂, -⟩ <;> rw [h₁, h₂] <;>
      exact within_of_zero (partsOfDouble_zero _)
  · rcases hy.cases with ⟨t, h₂⟩ | ⟨t, n, f, hn, h₂, hb₂⟩
    · rw [h₁, h₂]
      exact within_of_zero (partsOfDouble_zero _)
    · have hc₁ : Canonical Format.binary64 m e := canonical_of_unpack (by decide) h₁
      have hc₂ : Canonical Format.binary64 n f := canonical_of_unpack (by decide) h₂
      rw [h₁, h₂]
      refine (rounded_mul (s * t) hc₁ hc₂ hm hn).within ?_ hk
      rw [pow_add]
      exact mul_le_mul hb₁ hb₂ (by positivity) (by positivity)

theorem doubleOfParts_eq (u : UnpackedFloat) :
    doubleOfParts u = Float.ofModel (Float.Model.pack u) :=
  ofModel_pack_parts (Float.ofModel (Float.Model.pack u))

theorem Within.mulAdd (hx : Within j x) (hy : Within k y) (hz : Within l z)
    (hk : max (j + k) l + 1 ≤ 1023 := by decide) : Within (max (j + k) l + 1) (mulAdd x y z) := by
  have hplain : Within (max (j + k) l + 1) (x * y + z) := (hx.mul hy (by omega)).add hz hk
  unfold Number.mulAdd
  split
  · rename_i s m e hm t n f hn r i g hi h₁ h₂ h₃
    have hb₁ : (m : ℚ) * 2 ^ e ≤ 2 ^ j := by
      unfold Within at hx
      rwa [h₁] at hx
    have hb₂ : (n : ℚ) * 2 ^ f ≤ 2 ^ k := by
      unfold Within at hy
      rwa [h₂] at hy
    have hb₃ : (i : ℚ) * 2 ^ g ≤ 2 ^ l := by
      unfold Within at hz
      rwa [h₃] at hz
    have hproduct : ((m * n : ℕ) : ℚ) * 2 ^ (e + f) ≤ 2 ^ (j + k) := by
      rw [zpow_add₀ (by norm_num), pow_add]
      push_cast
      rw [mul_mul_mul_comm]
      exact mul_le_mul hb₁ hb₂ (by positivity) (by positivity)
    rw [doubleOfParts_eq]
    refine within_sum ?_ hproduct hb₃ hk
    refine (Int.natAbs_add_le ..).trans ?_
    rw [natAbs_apply, natAbs_apply]
    exact le_refl _
  · exact hplain

/-- Bits whose field of the exponent is not that of infinity are those of zero, or of a value with
the exponent in that field; the least two exponents are the same. -/
theorem unpack_of_field {b : BitVec spec.numBits}
    (h : (unpackExponent b).toNat + 1 < 2 ^ spec.exponentBits) :
    (∃ s, UnpackedFloat.unpack spec b = .zero s) ∨
      ∃ s m e hm, UnpackedFloat.unpack spec b = .finite s m e hm ∧
        e = max 1 (unpackExponent b).toNat -
          (spec.exponentBias + spec.mantissaBitsWithoutImplicit : ℤ) := by
  have htop : unpackExponent b ≠ -BitVec.ofNat spec.exponentBits 1 := by
    intro heq
    rw [heq, toNat_minusOne] at h
    omega
  unfold UnpackedFloat.unpack
  simp only [if_neg htop]
  split
  · rename_i hexp
    have hzero : (unpackExponent b).toNat = 0 := by rw [hexp]; rfl
    split
    · exact .inl ⟨_, rfl⟩
    · rename_i hmant
      have hm : 0 < (unpackMantissa b).toNat := Nat.pos_of_ne_zero fun h0 =>
        hmant (BitVec.eq_of_toNat_eq (by rw [h0]; rfl))
      refine .inr ⟨_, _, _, hm, rfl, ?_⟩
      rw [hzero]
      omega
  · rename_i hexp
    have hpos : (unpackExponent b).toNat ≠ 0 := fun hzero =>
      hexp (BitVec.eq_of_toNat_eq (by rw [hzero]; rfl))
    have hm : 0 < (1#1 ++ unpackMantissa b).toNat := by
      rw [toNat_withImplicit]
      exact Nat.add_pos_left (Nat.two_pow_pos _) _
    refine .inr ⟨_, _, _, hm, rfl, ?_⟩
    omega

/-- The field of the exponent bounds a double. -/
theorem within_ofBits {b : UInt64} (h : b.toNat % 2 ^ 63 < (1023 + k) * 2 ^ 52)
    (hk : k ≤ 1023 := by decide) : Within k (Float.ofBits b) := by
  have hfield : (@unpackExponent Format.binary64 b.toBitVec).toNat =
      b.toNat % 2 ^ 63 / 2 ^ 52 := by
    unfold unpackExponent
    rw [BitVec.toNat_cast, BitVec.extractLsb_toNat, Nat.shiftRight_eq_div_pow]
    show b.toNat / 2 ^ 52 % 2 ^ 11 = _
    omega
  have hlt : b.toNat % 2 ^ 63 / 2 ^ 52 < 1023 + k := by omega
  have hagain : partsOfDouble (Float.ofBits b) = UnpackedFloat.unpack _ (UnpackedFloat.pack _
      (UnpackedFloat.unpack Format.binary64 b.toBitVec)) := rfl
  rcases @unpack_of_field Format.binary64 b.toBitVec
    (by rw [hfield]; show _ < 2048; omega) with
    ⟨s, hp⟩ | ⟨s, m, e, hm, hp, he⟩
  · rw [hp] at hagain
    exact within_of_zero (hagain.trans (unpack_packedZero s))
  · have hc : Canonical Format.binary64 m e := canonical_of_unpack (by decide) hp
    rw [hp, unpack_pack hc] at hagain
    refine within_of_finite hagain ?_
    have hmost : e ≤ k - 53 := by
      rw [hfield] at he
      have hbias : (Format.binary64.exponentBias : ℤ) = 1023 := rfl
      have hbits : (Format.binary64.mantissaBitsWithoutImplicit : ℤ) = 52 := rfl
      omega
    have hcast : (m : ℚ) ≤ 2 ^ (53 : ℤ) := by exact_mod_cast hc.lt.le
    calc (m : ℚ) * 2 ^ e ≤ 2 ^ (53 : ℤ) * 2 ^ e :=
          mul_le_mul_of_nonneg_right hcast (zpow_two_pos e).le
      _ = 2 ^ (53 + e) := (zpow_add₀ (by norm_num) _ _).symm
      _ ≤ 2 ^ (k : ℤ) := zpow_two_le.2 (by omega)
      _ = 2 ^ k := zpow_natCast ..

/-! ## Positive doubles -/

/-- Whether a double is positive and lies between two powers of two. -/
def Between (i j : ℤ) (x : Float) : Prop :=
  ∃ m e hm, partsOfDouble x = .finite .positive m e hm ∧ (2 : ℚ) ^ i ≤ m * 2 ^ e ∧
    (m : ℚ) * 2 ^ e ≤ 2 ^ j

theorem Between.within {i : ℤ} (h : Between i k x) : Within k x := by
  obtain ⟨m, e, hm, hx, -, hhigh⟩ := h
  exact within_of_finite hx (by rwa [zpow_natCast] at hhigh)

theorem Between.mono {i i' j j' : ℤ} (h : Between i j x) (hi : i' ≤ i) (hj : j ≤ j') :
    Between i' j' x := by
  obtain ⟨m, e, hm, hx, hlow, hhigh⟩ := h
  exact ⟨m, e, hm, hx, (zpow_two_le.2 hi).trans hlow, hhigh.trans (zpow_two_le.2 hj)⟩

/-- The double that is packed from what a positive value is rounded to. -/
theorem Rounded.between {u : UnpackedFloat} {i j : ℤ} (h : Rounded Format.binary64 .positive v u)
    (hi : 2 ^ i ≤ v) (hj : v ≤ 2 ^ j) (hleast : -1074 ≤ i) (hmost : j ≤ 1023) :
    Between i j (Float.ofModel (Float.Model.pack u)) := by
  have hij : i ≤ j := zpow_two_le.1 (hi.trans hj)
  cases h with
  | zero small =>
    have hmin : (2 : ℚ) ^ Format.binary64.minExponent ≤ 2 ^ i := zpow_two_le.2 hleast
    have := zpow_two_pos Format.binary64.minExponent
    linarith
  | @finite m e hm least lt full below above =>
    have hc : Canonical Format.binary64 m e :=
      @Rounded.canonical _ .positive v m e hm (by decide) (.finite least lt full below above)
        (hj.trans (zpow_two_le.2 hmost))
    exact ⟨m, e, hm, partsOfDouble_pack hc, above i hleast hi, below j (hleast.trans hij) hj⟩

/-- The sum of two positive values is rounded. -/
theorem rounded_add {m₁ m₂ : Nat} (h₁ : 0 < m₁) (h₂ : 0 < m₂) (e₁ e₂ : ℤ) :
    Rounded spec .positive (m₁ * 2 ^ e₁ + m₂ * 2 ^ e₂)
      (UnpackedFloat.add spec (.finite .positive m₁ e₁ h₁) (.finite .positive m₂ e₂ h₂)) := by
  have hvalue₁ := decreaseExponent_value (m := m₁) (min_le_left e₁ e₂)
  have hvalue₂ := decreaseExponent_value (m := m₂) (min_le_right e₁ e₂)
  have hpos : 0 < (decreaseExponent m₁ e₁ (min e₁ e₂)).1 := by
    have := Nat.mul_pos h₁ (Nat.two_pow_pos (e₁ - min e₁ e₂).toNat)
    rwa [← Nat.shiftLeft_eq] at this
  show Rounded _ _ _ (UnpackedFloat.normalize spec (((decreaseExponent m₁ e₁ (min e₁ e₂)).1 : ℤ) +
    (decreaseExponent m₂ e₂ (min e₁ e₂)).1) (min e₁ e₂) .positive)
  generalize (decreaseExponent m₁ e₁ (min e₁ e₂)).1 = a at hvalue₁ hpos ⊢
  generalize (decreaseExponent m₂ e₂ (min e₁ e₂)).1 = b at hvalue₂ ⊢
  unfold UnpackedFloat.normalize
  rw [Int.compare_eq_gt.2 (by omega), show ((a : ℤ) + b).toNat = a + b by omega, ← hvalue₁,
    ← hvalue₂, ← add_mul, ← Nat.cast_add]
  exact rounded_round .positive (by omega) _

theorem Between.add {i j k : ℤ} (hx : Between i k x) (hy : Between j k y) (hi : -1074 ≤ i)
    (hk : k + 1 ≤ 1023) : Between i (k + 1) (x + y) := by
  obtain ⟨m, e, hm, h₁, hlow₁, hhigh₁⟩ := hx
  obtain ⟨n, f, hn, h₂, -, hhigh₂⟩ := hy
  show Between _ _ (Float.ofModel (Float.Model.pack
    (UnpackedFloat.add Format.binary64 (partsOfDouble x) (partsOfDouble y))))
  rw [h₁, h₂]
  refine (rounded_add hm hn e f).between ?_ ?_ hi hk
  · have : (0 : ℚ) ≤ n * 2 ^ f := by positivity
    linarith
  · rw [zpow_add_one₀ (by norm_num)]
    linarith

theorem Between.mul {i j k l : ℤ} (hx : Between i k x) (hy : Between j l y) (hi : -1074 ≤ i + j)
    (hk : k + l ≤ 1023) : Between (i + j) (k + l) (x * y) := by
  obtain ⟨m, e, hm, h₁, hlow₁, hhigh₁⟩ := hx
  obtain ⟨n, f, hn, h₂, hlow₂, hhigh₂⟩ := hy
  show Between _ _ (Float.ofModel (Float.Model.pack
    (UnpackedFloat.mul Format.binary64 (partsOfDouble x) (partsOfDouble y))))
  have hc₁ : Canonical Format.binary64 m e := canonical_of_unpack (by decide) h₁
  have hc₂ : Canonical Format.binary64 n f := canonical_of_unpack (by decide) h₂
  rw [h₁, h₂]
  refine (rounded_mul .positive hc₁ hc₂ hm hn).between ?_ ?_ hi hk
  · rw [zpow_add₀ (by norm_num)]
    exact mul_le_mul hlow₁ hlow₂ (zpow_two_pos j).le (by positivity)
  · rw [zpow_add₀ (by norm_num)]
    exact mul_le_mul hhigh₁ hhigh₂ (by positivity) (zpow_two_pos k).le

theorem Between.div {i j k l : ℤ} (hx : Between i k x) (hy : Between j l y) (hi : -1074 ≤ i - l)
    (hk : k - j ≤ 1023) : Between (i - l) (k - j) (x / y) := by
  obtain ⟨m, e, hm, h₁, hlow₁, hhigh₁⟩ := hx
  obtain ⟨n, f, hn, h₂, hlow₂, hhigh₂⟩ := hy
  show Between _ _ (Float.ofModel (Float.Model.pack
    (UnpackedFloat.div Format.binary64 (partsOfDouble x) (partsOfDouble y))))
  rw [h₁, h₂]
  refine (rounded_div .positive .positive hm hn e f).between ?_ ?_ hi hk
  · rw [zpow_sub₀ (by norm_num)]
    exact div_le_div₀ (by positivity) hlow₁ (by positivity) hhigh₂
  · rw [zpow_sub₀ (by norm_num)]
    exact div_le_div₀ (zpow_two_pos k).le hhigh₁ (zpow_two_pos j) hlow₂

theorem between_of_partsOfNat {n : Nat} (h : partsOfNat (partsOfDouble x) n = true) {i j : ℤ}
    (hi : (2 : ℚ) ^ i ≤ n) (hj : (n : ℚ) ≤ 2 ^ j) : Between i j x := by
  obtain ⟨m, e, hm, hparts, hvalue⟩ := finite_of_partsOfNat h
  exact ⟨m, e, hm, hparts, hvalue ▸ hi, hvalue ▸ hj⟩

theorem between_one : Between 0 0 (1 : Float) :=
  between_of_partsOfNat (n := 1) (by decide +kernel) (by norm_num) (by norm_num)

/-- A natural number of one word becomes a double of its size. -/
theorem between_ofNat {n : Nat} (hn : 0 < n) {j : Nat} (hlt : n ≤ 2 ^ j) (hj : j ≤ 64) :
    Between 0 j (Float.ofNat n) := by
  have hlow : (2 : ℚ) ^ (0 : ℤ) ≤ n := by
    rw [zpow_zero]
    exact_mod_cast hn
  have hhigh : (n : ℚ) ≤ 2 ^ (j : ℤ) := by
    rw [zpow_natCast]
    exact_mod_cast hlt
  show Between _ _ (Float.ofScientific n false 0)
  unfold Float.ofScientific
  split
  · rename_i hfast
    obtain ⟨m, e, hm, hparts, -, hvalue⟩ := partsOfDouble_toFloat hn hfast.1
    have hword : Between 0 j n.toUInt64.toFloat := ⟨m, e, hm, hparts, hvalue ▸ hlow, hvalue ▸ hhigh⟩
    have hone : Between 0 0 Float.exactlyRepresentablePowersOfTen[0] :=
      between_of_partsOfNat (n := 1) (by decide +kernel) (by norm_num) (by norm_num)
    simpa using hword.mul hone (by norm_num) (by omega)
  · show Between _ _ (Float.ofModel (Float.Model.pack
      (UnpackedFloat.ofScientific Format.binary64 n (0 : ℤ))))
    unfold UnpackedFloat.ofScientific
    rw [dif_neg hn.ne', if_neg (by norm_num), if_neg (by simp), if_pos (le_refl 0)]
    have hlong : 2 ^ 52 ≤ n <<< 53 * 10 ^ (0 : ℤ).toNat := by
      rw [Nat.shiftLeft_eq]
      exact le_trans (by omega) (Nat.le_mul_of_pos_right _ (by norm_num))
    have hvalue : ((n <<< 53 * 10 ^ (0 : ℤ).toNat : ℕ) : ℚ) * 2 ^ (-53 + 0 : ℤ) = n := by
      rw [Int.toNat_zero, pow_zero, mul_one, add_zero, ← zero_sub]
      exact_mod_cast (shiftLeft_value n 53 0).trans (by rw [zpow_zero, mul_one])
    have hrounded := @rounded_exact Format.binary64 _ _ .positive
      (lt_of_lt_of_le (by norm_num) hlong) (le_targetExponent hlong (-53 + 0))
    rw [hvalue] at hrounded
    exact hrounded.between hlow hhigh (by norm_num) (by omega)

theorem within_ofNat {n j : Nat} (hlt : n ≤ 2 ^ j) (hj : j ≤ 64) : Within j (Float.ofNat n) := by
  rcases Nat.eq_zero_or_pos n with rfl | hn
  · exact within_of_zero (s := .positive) (by rfl)
  · exact (between_ofNat hn hlt hj).within

theorem within_ofInt {i : ℤ} {j : Nat} (hlt : i.natAbs ≤ 2 ^ j) (hj : j ≤ 64) :
    Within j (Float.ofInt i) := by
  cases i with
  | ofNat n => exact within_ofNat hlt hj
  | negSucc n => exact (within_ofNat (n := n + 1) hlt hj).neg

end Triage.Number
