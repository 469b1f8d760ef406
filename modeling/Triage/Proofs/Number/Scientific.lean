/-
The double that a decimal is read as. Small decimals are the product or the quotient of two doubles
which are exact, and others are rounded from a quotient of natural numbers; in both ways the decimal
is rounded once, and so it is read as the double it is near to.
-/
import Triage.Proofs.Number.Rounding

namespace Triage.Number

open Float.Model UnpackedFloat

variable {spec : Format} {v : ℚ} {m m₁ m₂ : Nat} {e e₁ e₂ : ℤ}

/-! ## Products and quotients -/

/-- A significand as long as the format allows is not shifted to a lower exponent. -/
theorem le_targetExponent (h : 2 ^ spec.mantissaBitsWithoutImplicit ≤ m) (e : ℤ) :
    e ≤ spec.targetExponent (totalExponent m e) := by
  have hpos : 0 < 2 ^ spec.mantissaBitsWithoutImplicit := Nat.two_pow_pos _
  have hlog : spec.mantissaBitsWithoutImplicit ≤ m.log2 := (Nat.le_log2 (by omega)).2 h
  unfold Format.targetExponent totalExponent Format.mantissaBits
  push_cast
  omega

/-- Canonical parts are near to their own value. -/
theorem near_self (m : Nat) (e : ℤ) : Near spec m e (m * 2 ^ e) := by
  have hpos := zpow_two_pos e
  refine ⟨?_, ?_, fun _ => ⟨ne_of_lt ?_, ne_of_lt ?_⟩, fun _ _ => ?_⟩
  · exact mul_le_mul_of_nonneg_right (by linarith) (le_of_lt hpos)
  · exact mul_le_mul_of_nonneg_right (by linarith) (le_of_lt hpos)
  · exact mul_lt_mul_of_pos_right (by linarith) hpos
  · exact mul_lt_mul_of_pos_right (by linarith) hpos
  · exact mul_le_mul_of_nonneg_right (by linarith) (le_of_lt hpos)

/-- A long significand without anything cut off is rounded to what it is near to. -/
theorem roundWithAccuracy_exact {s : Sign} {m' : Nat} {e' : ℤ} {hm : 0 < m}
    (hc : Canonical spec m e) (hn : Near spec m e (m' * 2 ^ e'))
    (hlong : 2 ^ spec.mantissaBitsWithoutImplicit ≤ m') :
    roundWithAccuracy spec s m' e' .exact = .finite s m e hm := by
  have hpos : 0 < 2 ^ spec.mantissaBitsWithoutImplicit := Nat.two_pow_pos _
  refine roundWithAccuracy_near hc hn ?_ (le_targetExponent hlong e') fun h => by omega
  rw [mul_div_cancel_right₀ _ (ne_of_gt (zpow_two_pos e'))]
  exact cutOff_exact m'

/-- The product of two values is rounded to what it is near to. -/
theorem mul_near {h₁ : 0 < m₁} {h₂ : 0 < m₂} {hm : 0 < m} (hc : Canonical spec m e)
    (hn : Near spec m e ((m₁ * 2 ^ e₁) * (m₂ * 2 ^ e₂)))
    (hlong : 2 ^ spec.mantissaBitsWithoutImplicit ≤ m₁) :
    UnpackedFloat.mul spec (.finite .positive m₁ e₁ h₁) (.finite .positive m₂ e₂ h₂) =
      .finite .positive m e hm := by
  have hvalue : ((m₁ * m₂ : ℕ) : ℚ) * 2 ^ (e₁ + e₂) = (m₁ * 2 ^ e₁) * (m₂ * 2 ^ e₂) := by
    rw [zpow_add₀ (by norm_num)]
    push_cast
    ring
  rw [← hvalue] at hn
  exact roundWithAccuracy_exact hc hn (Nat.le_trans hlong (Nat.le_mul_of_pos_right _ h₂))

/-- Of a quotient either so many bits are found as the format keeps, or all there are down to its
least exponent. -/
theorem divCore_long (spec : Format) (h₁ : 0 < m₁) (h₂ : 0 < m₂) (e₁ e₂ : ℤ) :
    2 ^ spec.mantissaBitsWithoutImplicit ≤ (divCore spec m₁ e₁ m₂ e₂).1 ∨
      (divCore spec m₁ e₁ m₂ e₂).2.1 ≤ spec.minExponent := by
  refine Decidable.or_iff_not_imp_right.2 fun hmin => ?_
  unfold divCore at hmin ⊢
  simp only at hmin ⊢
  generalize ht : min (e₁ - e₂)
    (spec.targetExponent (totalExponent m₁ e₁ - totalExponent m₂ e₂)) = t at hmin ⊢
  have hlog₁ : 2 ^ m₁.log2 ≤ m₁ := Nat.log2_self_le (by omega)
  have hlog₂ : m₂ < 2 ^ (m₂.log2 + 1) := Nat.lt_log2_self
  have hshift : spec.mantissaBitsWithoutImplicit + (m₂.log2 + 1) ≤
      m₁.log2 + (e₁ - e₂ - t).toNat := by
    unfold Format.targetExponent totalExponent Format.mantissaBits at ht
    push_cast at ht
    omega
  -- The shift makes up for the bits of the divisor.
  rw [Nat.le_div_iff_mul_le h₂, Nat.shiftLeft_eq]
  calc 2 ^ spec.mantissaBitsWithoutImplicit * m₂
      ≤ 2 ^ spec.mantissaBitsWithoutImplicit * 2 ^ (m₂.log2 + 1) :=
        Nat.mul_le_mul_left _ (Nat.le_of_lt hlog₂)
    _ = 2 ^ (spec.mantissaBitsWithoutImplicit + (m₂.log2 + 1)) := (Nat.pow_add ..).symm
    _ ≤ 2 ^ (m₁.log2 + (e₁ - e₂ - t).toNat) := Nat.pow_le_pow_right (by decide) hshift
    _ = 2 ^ m₁.log2 * 2 ^ (e₁ - e₂ - t).toNat := Nat.pow_add ..
    _ ≤ m₁ * 2 ^ (e₁ - e₂ - t).toNat := Nat.mul_le_mul_right _ hlog₁

/-- What is found of a quotient is the quotient cut off. -/
theorem cutOff_divCore (spec : Format) (m₁ : Nat) (h₂ : 0 < m₂) (e₁ e₂ : ℤ) :
    CutOff (.ofMantissaAndAccuracy (divCore spec m₁ e₁ m₂ e₂).1 (divCore spec m₁ e₁ m₂ e₂).2.2)
      ((m₁ * 2 ^ e₁) / (m₂ * 2 ^ e₂) / 2 ^ (divCore spec m₁ e₁ m₂ e₂).2.1) := by
  unfold divCore
  simp only
  generalize ht : min (e₁ - e₂)
    (spec.targetExponent (totalExponent m₁ e₁ - totalExponent m₂ e₂)) = t
  have hle : t ≤ e₁ - e₂ := by omega
  have hpow : (2 : ℚ) ^ e₁ = 2 ^ e₂ * (2 ^ t * 2 ^ (e₁ - e₂ - t).toNat) := by
    rw [← zpow_two_split hle, ← zpow_add₀ (by norm_num)]
    congr 1
    ring
  have hvalue : (m₁ * 2 ^ e₁ : ℚ) / (m₂ * 2 ^ e₂) / 2 ^ t =
      ((m₁ <<< (e₁ - e₂ - t).toNat : ℕ) : ℚ) / m₂ := by
    have h2 := zpow_two_pos e₂
    have h3 := zpow_two_pos t
    rw [hpow, Nat.shiftLeft_eq]
    push_cast
    field_simp
  rw [hvalue]
  exact cutOff_fraction _ h₂

theorem divCore_le_target (spec : Format) (h₁ : 0 < m₁) (h₂ : 0 < m₂) (e₁ e₂ : ℤ) :
    (divCore spec m₁ e₁ m₂ e₂).2.1 ≤ spec.targetExponent
      (totalExponent (divCore spec m₁ e₁ m₂ e₂).1 (divCore spec m₁ e₁ m₂ e₂).2.1) := by
  rcases divCore_long spec h₁ h₂ e₁ e₂ with hlong | hmin
  · exact le_targetExponent hlong _
  · exact le_trans hmin (le_max_right _ _)

/-- If no bit of a quotient is found, it is below the least exponent. -/
theorem divCore_target_of_zero (spec : Format) (h₁ : 0 < m₁) (h₂ : 0 < m₂) (e₁ e₂ : ℤ)
    (hzero : (divCore spec m₁ e₁ m₂ e₂).1 = 0) :
    spec.targetExponent (totalExponent (divCore spec m₁ e₁ m₂ e₂).1
      (divCore spec m₁ e₁ m₂ e₂).2.1) = spec.minExponent := by
  have hpos : 0 < 2 ^ spec.mantissaBitsWithoutImplicit := Nat.two_pow_pos _
  have hmin : (divCore spec m₁ e₁ m₂ e₂).2.1 ≤ spec.minExponent :=
    (divCore_long spec h₁ h₂ e₁ e₂).resolve_left (by omega)
  have hlog : Nat.log2 0 = 0 := rfl
  rw [hzero]
  unfold Format.targetExponent totalExponent Format.mantissaBits
  rw [hlog]
  push_cast
  omega

/-- The quotient of two values is rounded to what it is near to. -/
theorem div_near {h₁ : 0 < m₁} {h₂ : 0 < m₂} {hm : 0 < m} (hc : Canonical spec m e)
    (hn : Near spec m e ((m₁ * 2 ^ e₁) / (m₂ * 2 ^ e₂))) :
    UnpackedFloat.div spec (.finite .positive m₁ e₁ h₁) (.finite .positive m₂ e₂ h₂) =
      .finite .positive m e hm :=
  roundWithAccuracy_near hc hn (cutOff_divCore spec m₁ h₂ e₁ e₂)
    (divCore_le_target spec h₁ h₂ e₁ e₂) (divCore_target_of_zero spec h₁ h₂ e₁ e₂)

/-! ## Small decimals -/

/-- A small natural number shifted until it is as long as the format allows. -/
theorem canonical_small {n : Nat} (hn : 0 < n) (hlt : n < 2 ^ 53) :
    n.log2 < 53 ∧ 2 ^ 52 ≤ n * 2 ^ (52 - n.log2) ∧
      Canonical Format.binary64 (n * 2 ^ (52 - n.log2)) (n.log2 - 52) := by
  have hlog : n.log2 < 53 := (Nat.log2_lt (by omega)).2 hlt
  have hlong : 2 ^ 52 ≤ n * 2 ^ (52 - n.log2) :=
    calc 2 ^ 52 = 2 ^ n.log2 * 2 ^ (52 - n.log2) := by rw [← Nat.pow_add]; congr 1; omega
      _ ≤ n * 2 ^ (52 - n.log2) := Nat.mul_le_mul_right _ (Nat.log2_self_le (by omega))
  have hshort : n * 2 ^ (52 - n.log2) < 2 ^ 53 :=
    calc n * 2 ^ (52 - n.log2) < 2 ^ (n.log2 + 1) * 2 ^ (52 - n.log2) :=
          Nat.mul_lt_mul_of_pos_right Nat.lt_log2_self (Nat.two_pow_pos _)
      _ = 2 ^ 53 := by rw [← Nat.pow_add]; congr 1; omega
  refine ⟨hlog, hlong, ?_, ?_, hshort, .inl hlong⟩
  · simp only [Format.minExponent, Format.mantissaBits]
    omega
  · simp only [Format.exponentBias]
    omega

/-- Such a number is kept exactly. -/
theorem partsOfDouble_toFloat {n : Nat} (hn : 0 < n) (hlt : n < 2 ^ 53) :
    ∃ m e hm, partsOfDouble n.toUInt64.toFloat = .finite .positive m e hm ∧ 2 ^ 52 ≤ m ∧
      (m : ℚ) * 2 ^ e = n := by
  obtain ⟨hlog, hlong, hc⟩ := canonical_small hn hlt
  have hm : 0 < n * 2 ^ (52 - n.log2) := by omega
  have hround : UnpackedFloat.ofUInt64 Format.binary64 n.toUInt64 =
      .finite .positive (n * 2 ^ (52 - n.log2)) (n.log2 - 52) hm := by
    have hword : n.toUInt64.toNat = n := by
      show n % 2 ^ 64 = n
      omega
    have hgt : compare (n : ℤ) 0 = .gt := Int.compare_eq_gt.2 (by omega)
    have htarget : Format.binary64.targetExponent (totalExponent n 0) = n.log2 - 52 := by
      simp only [Format.targetExponent, totalExponent, Format.minExponent, Format.mantissaBits]
      omega
    have hshift : (0 - ((n.log2 : ℤ) - 52)).toNat = 52 - n.log2 := by omega
    simp only [UnpackedFloat.ofUInt64, UnpackedFloat.ofNat, UnpackedFloat.ofInt,
      UnpackedFloat.normalize, hword, hgt, UnpackedFloat.round, htarget, decreaseExponent,
      Int.toNat_natCast]
    rw [hshift, Nat.shiftLeft_eq, show (0 : ℤ) - ((52 - n.log2 : ℕ) : ℤ) = n.log2 - 52 by omega]
    exact roundWithAccuracy_exact hc (near_self _ _) hlong
  refine ⟨_, (n.log2 : ℤ) - 52, hm, ?_, hlong, ?_⟩
  · show UnpackedFloat.unpack Format.binary64 (UnpackedFloat.pack Format.binary64
      (UnpackedFloat.ofUInt64 Format.binary64 n.toUInt64)) = _
    rw [hround]
    exact unpack_pack hc
  · push_cast
    rw [mul_assoc, ← zpow_natCast, ← zpow_add₀ (by norm_num),
      show ((52 - n.log2 : ℕ) : ℤ) + (n.log2 - 52) = 0 by omega, zpow_zero, mul_one]

/-- Whether parts are those of a natural number. -/
def partsOfNat (u : UnpackedFloat) (n : Nat) : Bool :=
  match u with
  | .finite .positive m e _ => m * 2 ^ e.toNat == n * 2 ^ (-e).toNat
  | _ => false

theorem finite_of_partsOfNat {u : UnpackedFloat} {n : Nat} (h : partsOfNat u n = true) :
    ∃ m e hm, u = .finite .positive m e hm ∧ (m : ℚ) * 2 ^ e = n := by
  unfold partsOfNat at h
  split at h
  · rename_i m e hm
    refine ⟨m, e, hm, rfl, ?_⟩
    have heq : (m : ℚ) * 2 ^ e.toNat = n * 2 ^ (-e).toNat := by exact_mod_cast beq_iff_eq.1 h
    rw [← zpow_mul_toNat (by norm_num), ← mul_assoc] at heq
    exact mul_right_cancel₀ (by positivity) heq
  · cases h

theorem partsOfNat_powerOfTen : ∀ k : Fin Float.exactlyRepresentablePowersOfTen.size,
    partsOfNat (partsOfDouble Float.exactlyRepresentablePowersOfTen[k]) (10 ^ k.val) = true := by
  decide +kernel

/-- The powers of ten in the table are exact. -/
theorem partsOfDouble_powerOfTen {k : Nat} (hk : k < Float.exactlyRepresentablePowersOfTen.size) :
    ∃ m e hm, partsOfDouble Float.exactlyRepresentablePowersOfTen[k] = .finite .positive m e hm ∧
      (m : ℚ) * 2 ^ e = 10 ^ k := by
  obtain ⟨m, e, hm, hparts, hvalue⟩ := finite_of_partsOfNat (partsOfNat_powerOfTen ⟨k, hk⟩)
  exact ⟨m, e, hm, hparts, by rw [hvalue]; norm_num⟩

/-! ## Decimals -/

theorem zpow_ten_of_nonneg {g : ℤ} (hg : 0 ≤ g) : (10 : ℚ) ^ g = 10 ^ g.natAbs := by
  rw [← zpow_natCast, Int.natAbs_of_nonneg hg]

theorem zpow_ten_of_neg {g : ℤ} (hg : g < 0) : (10 : ℚ) ^ g = 1 / 10 ^ g.natAbs := by
  rw [← zpow_natCast, Int.ofNat_natAbs_of_nonpos (le_of_lt hg), zpow_neg, one_div, inv_inv]

/-- What is near to a double is neither too large nor too small for one. -/
theorem near_bounds (hm : 0 < m) (hc : Canonical Format.binary64 m e)
    (hn : Near Format.binary64 m e v) : (2 : ℚ) ^ (-1075 : ℤ) ≤ v ∧ v < 2 ^ (1024 : ℤ) := by
  have hleast : -1074 ≤ e := hc.least
  have hmost : e ≤ 971 := hc.most
  have hpos := zpow_two_pos e
  have hone : (1 : ℚ) ≤ m := by exact_mod_cast hm
  have hlt : (m : ℚ) + 1 ≤ 2 ^ (53 : ℤ) := by exact_mod_cast hc.lt
  refine ⟨le_trans ?_ hn.low, lt_of_le_of_lt hn.high ?_⟩
  · have hhalf : (2 : ℚ) ^ (e - 1) ≤ (m - 1 / 2) * 2 ^ e := by
      rw [zpow_sub_one₀ (by norm_num), mul_comm]
      exact mul_le_mul_of_nonneg_right (by linarith) (le_of_lt hpos)
    exact le_trans (zpow_two_le.2 (by omega)) hhalf
  · have htop : ((m : ℚ) + 1 / 2) * 2 ^ e < 2 ^ (53 : ℤ) * 2 ^ e :=
      mul_lt_mul_of_pos_right (by linarith) hpos
    rw [← zpow_add₀ (by norm_num)] at htop
    exact lt_of_lt_of_le htop (zpow_two_le.2 (by omega))

/-- So its power of ten is not one of those that are passed over. -/
theorem exponent_bounds {c : Nat} {g : ℤ} (hpos : 0 < c)
    (hv : (2 : ℚ) ^ (-1075 : ℤ) ≤ c * 10 ^ g ∧ (c : ℚ) * 10 ^ g < 2 ^ (1024 : ℤ)) :
    g ≤ 2048 ∧ -(2048 + (c.log2 : ℤ)) ≤ g := by
  obtain ⟨hlow, hhigh⟩ := hv
  have hone : (1 : ℚ) ≤ c := by exact_mod_cast hpos
  have hlt : (c : ℚ) < 2 ^ ((c.log2 : ℤ) + 1) := by exact_mod_cast Nat.lt_log2_self
  -- The power of ten is at least that of two if it is above one, and at most if it is below.
  refine ⟨?_, ?_⟩ <;> by_contra hg
  · have hten : (2 : ℚ) ^ g ≤ 10 ^ g := zpow_le_zpow_left₀ (by omega) (by norm_num) (by norm_num)
    have hbig : (2 : ℚ) ^ (1024 : ℤ) ≤ 2 ^ g := zpow_two_le.2 (by omega)
    have : (10 : ℚ) ^ g ≤ c * 10 ^ g := le_mul_of_one_le_left (by positivity) hone
    linarith
  · have hten : (10 : ℚ) ^ g ≤ 2 ^ g := by
      rw [← neg_neg g, zpow_neg, zpow_neg (2 : ℚ)]
      exact inv_anti₀ (by positivity) (zpow_le_zpow_left₀ (by omega) (by norm_num) (by norm_num))
    have hsmall : (c : ℚ) * 10 ^ g < 2 ^ ((c.log2 : ℤ) + 1) * 2 ^ g :=
      mul_lt_mul hlt hten (by positivity) (by positivity)
    rw [← zpow_add₀ (by norm_num)] at hsmall
    exact absurd (zpow_two_lt.1 (lt_of_le_of_lt hlow hsmall)) (by omega)

/-- A positive decimal that is not small is rounded to what it is near to. -/
theorem unpacked_ofScientific {c : Nat} {g : ℤ} {hm : 0 < m} (hpos : 0 < c)
    (hc : Canonical Format.binary64 m e) (hn : Near Format.binary64 m e (c * 10 ^ g)) :
    UnpackedFloat.ofScientific Format.binary64 c g = .finite .positive m e hm := by
  obtain ⟨hhigh, hlow⟩ := exponent_bounds hpos (near_bounds hm hc hn)
  unfold UnpackedFloat.ofScientific
  rw [dif_neg (by omega), if_neg (by simp; omega), if_neg (by simp; omega)]
  split
  · rename_i hg
    have hg : 0 ≤ g := hg
    rw [zpow_ten_of_nonneg hg] at hn
    refine mul_near hc ?_ ?_
    · have hvalue : (((c <<< Format.binary64.mantissaBits : ℕ) : ℚ) *
          2 ^ (-(Format.binary64.mantissaBits : ℤ))) *
            (((10 ^ g.toNat : ℕ) : ℚ) * 2 ^ (0 : ℤ)) = c * 10 ^ g.natAbs := by
        rw [Nat.shiftLeft_eq, zpow_neg, zpow_natCast, zpow_zero, mul_one,
          show g.toNat = g.natAbs by omega]
        push_cast
        field_simp
      rwa [hvalue]
    · rw [Nat.shiftLeft_eq]
      exact Nat.le_trans (Nat.pow_le_pow_right (by decide) (by decide))
        (Nat.le_mul_of_pos_left _ hpos)
  · rename_i hg
    have hg : g < 0 := not_le.1 hg
    rw [zpow_ten_of_neg hg] at hn
    refine div_near hc ?_
    have hvalue : ((c : ℚ) * 2 ^ (0 : ℤ)) / (((10 ^ (-g).toNat : ℕ) : ℚ) * 2 ^ (0 : ℤ)) =
        c * (1 / 10 ^ g.natAbs) := by
      rw [zpow_zero, mul_one, mul_one, show (-g).toNat = g.natAbs by omega, mul_one_div]
      push_cast
      rfl
    rwa [hvalue]

/-- A positive decimal is read as the double it is near to. -/
theorem ofScientific_near {c : Nat} {g : ℤ} {hm : 0 < m} (hpos : 0 < c)
    (hc : Canonical Format.binary64 m e) (hn : Near Format.binary64 m e (c * 10 ^ g)) :
    Float.ofScientific c (g < 0) g.natAbs =
      Float.ofModel (Float.Model.pack (.finite .positive m e hm)) := by
  unfold Float.ofScientific
  split
  · -- The digits and the power of ten are doubles, and one operation rounds.
    rename_i hfast
    have htable : g.natAbs < Float.exactlyRepresentablePowersOfTen.size :=
      Nat.lt_succ_of_le hfast.2
    obtain ⟨m₁, e₁, h₁, hparts₁, hlong, hvalue₁⟩ := partsOfDouble_toFloat hpos hfast.1
    obtain ⟨m₂, e₂, h₂, hparts₂, hvalue₂⟩ := partsOfDouble_powerOfTen htable
    simp only
    split
    · rename_i hg
      rw [zpow_ten_of_neg (of_decide_eq_true hg), mul_one_div] at hn
      show Float.ofModel (Float.Model.pack (UnpackedFloat.div Format.binary64
        (partsOfDouble c.toUInt64.toFloat) (partsOfDouble _))) = _
      rw [hparts₁, hparts₂, div_near hc (by rwa [hvalue₁, hvalue₂])]
    · rename_i hg
      rw [zpow_ten_of_nonneg (not_lt.1 fun h => hg (decide_eq_true h))] at hn
      show Float.ofModel (Float.Model.pack (UnpackedFloat.mul Format.binary64
        (partsOfDouble c.toUInt64.toFloat) (partsOfDouble _))) = _
      rw [hparts₁, hparts₂, mul_near hc (by rwa [hvalue₁, hvalue₂]) hlong]
  · -- Otherwise one quotient of natural numbers is rounded.
    have hexp : (if decide (g < 0) = true then Int.negOfNat g.natAbs else Int.ofNat g.natAbs) =
        g := by
      split
      · rename_i hg
        have := of_decide_eq_true hg
        rw [Int.negOfNat_eq, Int.ofNat_eq_natCast]
        omega
      · rename_i hg
        have : ¬g < 0 := fun h => hg (decide_eq_true h)
        rw [Int.ofNat_eq_natCast]
        omega
    simp only [hexp]
    show Float.ofModel (Float.Model.pack (UnpackedFloat.ofScientific Format.binary64 c g)) = _
    rw [unpacked_ofScientific hpos hc hn]

end Triage.Number
