/-
To which value of a format a real is rounded. The significand found on the way is the real cut off
after one more bit, with a mark if something was cut off; that is all that rounding to the nearest
needs. A real that is no further from a value of the format than half the way to the next one is
rounded to that value, a real half way if its significand is even.
-/
import Triage.Proofs.Number.Format

namespace Triage.Number

open Float.Model UnpackedFloat

variable {spec : Format} {x v : ℚ}

/-! ## Significands -/

/-- The halves in a significand: the bit behind it counts for one. -/
def halves (em : ExtendedMantissa) : Nat :=
  2 * em.mantissa + em.roundBit.toNat

/-- Whether a significand is a real cut off behind its halves, the last bit telling if something was
cut off. -/
structure CutOff (em : ExtendedMantissa) (x : ℚ) : Prop where
  le : (halves em : ℚ) ≤ 2 * x
  lt : 2 * x < halves em + 1
  sticky : em.stickyBit = false ↔ 2 * x = halves em

theorem cutOff_exact (m : Nat) : CutOff (.ofMantissaAndAccuracy m .exact) m := by
  have h : halves (.ofMantissaAndAccuracy m .exact) = 2 * m := rfl
  refine ⟨?_, ?_, ?_⟩
  · rw [h]; push_cast; exact le_refl _
  · rw [h]; push_cast; linarith
  · rw [h]; push_cast; exact iff_of_true rfl rfl

theorem cutOff_of_halves {q : Nat} (r : Nat) (sticky : Bool) {acc : Accuracy} {x : ℚ}
    (hle : ((2 * q + r : ℕ) : ℚ) ≤ 2 * x) (hlt : 2 * x < (2 * q + r : ℕ) + 1)
    (hs : sticky = false ↔ 2 * x = (2 * q + r : ℕ))
    (hr : halves (.ofMantissaAndAccuracy q acc) = 2 * q + r := by rfl)
    (ht : (ExtendedMantissa.ofMantissaAndAccuracy q acc).stickyBit = sticky := by rfl) :
    CutOff (.ofMantissaAndAccuracy q acc) x :=
  ⟨by rw [hr]; exact hle, by rw [hr]; exact hlt, by rw [hr, ht]; exact hs⟩

/-- The quotient of two numbers is cut off at its whole part; what is beyond the halves is told by
comparing twice the rest with the divisor. -/
theorem cutOff_fraction (a : Nat) {b : Nat} (hb : 0 < b) :
    CutOff (.ofMantissaAndAccuracy (a / b) (accuracyOfFraction (a % b) b)) (a / b : ℚ) := by
  have hpos : (0 : ℚ) < b := by exact_mod_cast hb
  have hdiv : (a : ℚ) = b * (a / b : ℕ) + (a % b : ℕ) := by
    exact_mod_cast (Nat.div_add_mod a b).symm
  have hx : (a / b : ℚ) = (a / b : ℕ) + (a % b : ℕ) / (b : ℚ) := by
    rw [hdiv]
    field_simp
  have hrest : ((a % b : ℕ) : ℚ) / b < 1 := by
    rw [div_lt_one hpos]
    exact_mod_cast Nat.mod_lt a hb
  rw [hx]
  unfold accuracyOfFraction
  split
  · rename_i hzero
    rw [hzero, Nat.cast_zero, zero_div, add_zero]
    exact cutOff_exact _
  · rename_i hne
    have hrpos : (0 : ℚ) < (a % b : ℕ) / (b : ℚ) := by
      have : (0 : ℚ) < (a % b : ℕ) := by exact_mod_cast Nat.pos_of_ne_zero hne
      positivity
    have htwice : 2 * (((a % b : ℕ) : ℚ) / b) = ((2 * (a % b) : ℕ) : ℚ) / b := by
      push_cast
      ring
    -- The rest is less than half of the divisor, half of it, or more.
    rcases hc : compare (2 * (a % b)) b with _ | _ | _
    · have hlt : 2 * (((a % b : ℕ) : ℚ) / b) < 1 := by
        rw [htwice, div_lt_one hpos]
        exact_mod_cast Nat.compare_eq_lt.1 hc
      exact cutOff_of_halves 0 true (by push_cast; linarith) (by push_cast; linarith)
        (iff_of_false (by decide) (ne_of_gt (by push_cast; linarith)))
    · have heq : 2 * (((a % b : ℕ) : ℚ) / b) = 1 := by
        rw [htwice, div_eq_one_iff_eq (ne_of_gt hpos)]
        exact_mod_cast Nat.compare_eq_eq.1 hc
      exact cutOff_of_halves 1 false (by push_cast; linarith) (by push_cast; linarith)
        (iff_of_true rfl (by push_cast; linarith))
    · have hgt : 1 < 2 * (((a % b : ℕ) : ℚ) / b) := by
        rw [htwice, one_lt_div hpos]
        exact_mod_cast Nat.compare_eq_gt.1 hc
      exact cutOff_of_halves 1 true (by push_cast; linarith) (by push_cast; linarith)
        (iff_of_false (by decide) (ne_of_gt (by push_cast; linarith)))

/-- What is cut off has the significand as its whole part. -/
theorem CutOff.whole {em : ExtendedMantissa} (h : CutOff em x) :
    (em.mantissa : ℚ) ≤ x ∧ x < em.mantissa + 1 := by
  obtain ⟨m, r, s⟩ := em
  obtain ⟨hle, hlt, -⟩ := h
  simp only [halves] at hle hlt
  push_cast at hle hlt
  cases r <;> simp at hle hlt ⊢ <;> constructor <;> linarith

/-- Half of what is cut off is cut off one bit earlier. -/
theorem CutOff.shiftRightOne {em : ExtendedMantissa} (h : CutOff em x) :
    CutOff em.shiftRightOne (x / 2) := by
  obtain ⟨m, r, s⟩ := em
  obtain ⟨hle, hlt, hs⟩ := h
  have hhalves : halves (ExtendedMantissa.shiftRightOne ⟨m, r, s⟩) = m := by
    simp only [halves, ExtendedMantissa.shiftRightOne]
    rcases Nat.mod_two_eq_zero_or_one m with hm | hm <;> simp [hm] <;> omega
  have htwo : 2 * (x / 2) = x := by ring
  simp only [halves] at hle hlt hs
  push_cast at hle hlt hs
  refine ⟨?_, ?_, ?_⟩ <;> rw [hhalves, htwo]
  · cases r <;> simp at hle <;> linarith
  · cases r <;> simp at hlt <;> linarith
  · cases r with
    | false =>
      simp only [ExtendedMantissa.shiftRightOne, Bool.false_or, hs]
      simp
    | true =>
      simp at hle
      refine iff_of_false (by simp [ExtendedMantissa.shiftRightOne]) (ne_of_gt ?_)
      linarith

/-- Shifted by so many bits it is the real divided by that power of two. -/
theorem CutOff.shiftRight {em : ExtendedMantissa} (h : CutOff em x) (n : Nat) :
    CutOff (em >>> n) (x / 2 ^ n) := by
  show CutOff (n.repeat ExtendedMantissa.shiftRightOne em) _
  induction n with
  | zero => simpa [Nat.repeat] using h
  | succ n ih =>
    have hstep := ih.shiftRightOne
    rwa [div_div, ← pow_succ] at hstep

/-- What is cut off is rounded to the natural number that is nearest, or to an even one that is as
near as another. -/
theorem CutOff.roundedMantissa {em : ExtendedMantissa} (h : CutOff em x) {k : Nat}
    (hlow : (k : ℚ) ≤ x + 1 / 2) (hhigh : x ≤ k + 1 / 2)
    (htie : k % 2 = 1 → (k : ℚ) ≠ x + 1 / 2 ∧ x ≠ k + 1 / 2) : em.roundedMantissa = k := by
  obtain ⟨m, r, s⟩ := em
  obtain ⟨hle, hlt, hs⟩ := h
  simp only [halves] at hle hlt hs
  push_cast at hle hlt hs
  cases r with
  | false =>
    -- The real is below the half, so its whole part is nearest.
    simp only [Bool.toNat_false, Nat.cast_zero, add_zero] at hle hlt
    have hkm : k < m + 1 := by
      have : (k : ℚ) < m + 1 := by linarith
      exact_mod_cast this
    have hmk : m < k + 1 := by
      have : (m : ℚ) < k + 1 := by linarith
      exact_mod_cast this
    have hk : k = m := by omega
    cases s <;> exact hk.symm
  | true =>
    simp only [Bool.toNat_true, Nat.cast_one] at hle hlt hs
    have hkm : k < m + 2 := by
      have : (k : ℚ) < m + 2 := by linarith
      exact_mod_cast this
    have hmk : m ≤ k := by
      have : (m : ℚ) ≤ k := by linarith
      exact_mod_cast this
    cases s with
    | false =>
      -- The real is half way, and the even one of two numbers is taken.
      have hx : x = m + 1 / 2 := by linarith [hs.1 rfl]
      show m + m % 2 = k
      by_cases hk : k = m
      · have heven : ¬k % 2 = 1 := fun hodd => (htie hodd).2 (by rw [hx, hk])
        omega
      · have hk' : k = m + 1 := by omega
        have heven : ¬k % 2 = 1 := fun hodd => (htie hodd).1 (by
          rw [hx, hk']
          push_cast
          ring)
        omega
    | true =>
      -- The real is above the half, so the next number is nearest.
      have hne : 2 * x ≠ 2 * m + 1 := fun h => absurd (hs.2 h) (by decide)
      have hmk' : m < k := by
        have hgt : (2 : ℚ) * m + 1 < 2 * x := lt_of_le_of_ne hle (Ne.symm hne)
        have : (m : ℚ) < k := by linarith
        exact_mod_cast this
      show m + 1 = k
      omega

/-! ## Exponents -/

/-- A power multiplied by what its exponent lacks to zero. -/
theorem zpow_mul_toNat {b : ℚ} (hb : b ≠ 0) (e : ℤ) : b ^ e * b ^ (-e).toNat = b ^ e.toNat := by
  rw [← zpow_natCast, ← zpow_natCast, ← zpow_add₀ hb]
  congr 1
  omega

theorem zpow_two_pos (e : ℤ) : (0 : ℚ) < 2 ^ e :=
  zpow_pos (by norm_num) e

theorem zpow_two_lt {d e : ℤ} : (2 : ℚ) ^ d < 2 ^ e ↔ d < e :=
  zpow_lt_zpow_iff_right₀ (by norm_num)

theorem zpow_two_le {d e : ℤ} : (2 : ℚ) ^ d ≤ 2 ^ e ↔ d ≤ e :=
  zpow_le_zpow_iff_right₀ (by norm_num)

/-- A power of two over another, where the exponent of the first is not below. -/
theorem zpow_two_split {d e : ℤ} (h : d ≤ e) : (2 : ℚ) ^ e = 2 ^ d * 2 ^ (e - d).toNat := by
  rw [← zpow_natCast, ← zpow_add₀ (by norm_num), Int.toNat_of_nonneg (by omega)]
  congr 1
  ring

/-- The total exponent of a significand is behind the place of its first bit. -/
theorem lt_totalExponent (m : Nat) (e : ℤ) : ((m : ℚ) + 1) * 2 ^ e ≤ 2 ^ totalExponent m e := by
  have hlog : m + 1 ≤ 2 ^ (m.log2 + 1) := Nat.lt_log2_self
  have hcast : (m : ℚ) + 1 ≤ 2 ^ (m.log2 + 1) := by exact_mod_cast hlog
  have hsplit : (2 : ℚ) ^ totalExponent m e = 2 ^ (m.log2 + 1) * 2 ^ e := by
    unfold totalExponent
    rw [zpow_add₀ (by norm_num)]
    norm_cast
  rw [hsplit]
  exact mul_le_mul_of_nonneg_right hcast (le_of_lt (zpow_two_pos e))

theorem totalExponent_le {m : Nat} (hm : 0 < m) (e : ℤ) :
    (2 : ℚ) ^ (totalExponent m e - 1) ≤ m * 2 ^ e := by
  have hlog : 2 ^ m.log2 ≤ m := Nat.log2_self_le (by omega)
  have hcast : (2 : ℚ) ^ m.log2 ≤ m := by exact_mod_cast hlog
  have hsplit : (2 : ℚ) ^ (totalExponent m e - 1) = 2 ^ m.log2 * 2 ^ e := by
    unfold totalExponent
    rw [show ((m.log2 : ℤ) + 1 + e - 1) = m.log2 + e by ring, zpow_add₀ (by norm_num)]
    norm_cast
  rw [hsplit]
  exact mul_le_mul_of_nonneg_right hcast (le_of_lt (zpow_two_pos e))

/-! ## Rounding -/

/-- Whether a real is no further from a significand with an exponent than half the way to the next
one, and exactly half way only if the significand is even. Below a power of two the way is half as
long, unless the exponent is the least of the format. -/
structure Near (spec : Format) (m : Nat) (e : ℤ) (v : ℚ) : Prop where
  low : ((m : ℚ) - 1 / 2) * 2 ^ e ≤ v
  high : v ≤ ((m : ℚ) + 1 / 2) * 2 ^ e
  tie : m % 2 = 1 → ((m : ℚ) - 1 / 2) * 2 ^ e ≠ v ∧ v ≠ ((m : ℚ) + 1 / 2) * 2 ^ e
  short : m = 2 ^ spec.mantissaBitsWithoutImplicit → spec.minExponent < e →
    ((m : ℚ) - 1 / 4) * 2 ^ e ≤ v

/-- A significand that is shifted to a higher exponent still is the real cut off. -/
theorem cutOff_shiftToExponent {m : Nat} {e t : ℤ} {acc : Accuracy}
    (h : CutOff (.ofMantissaAndAccuracy m acc) (v / 2 ^ e)) (ht : e ≤ t) :
    CutOff (shiftToExponent m e acc t).1 (v / 2 ^ t) ∧ (shiftToExponent m e acc t).2 = t := by
  refine ⟨?_, ?_⟩
  · have hshift := h.shiftRight (t - e).toNat
    rwa [div_div, ← zpow_two_split ht] at hshift
  · show e + ((t - e).toNat : ℤ) = t
    omega

/-- Below a power of two there are near only reals to the power itself. -/
theorem Near.eq_power {m : Nat} {e : ℤ} (hn : Near spec m e v)
    (hfull : 2 ^ spec.mantissaBitsWithoutImplicit ≤ m)
    (htop : v < 2 ^ spec.mantissaBitsWithoutImplicit * 2 ^ e) :
    m = 2 ^ spec.mantissaBitsWithoutImplicit := by
  have hhalf : (m : ℚ) - 1 / 2 < 2 ^ spec.mantissaBitsWithoutImplicit :=
    lt_of_mul_lt_mul_right (lt_of_le_of_lt hn.low htop) (le_of_lt (zpow_two_pos e))
  have hsucc : (m : ℚ) < (2 ^ spec.mantissaBitsWithoutImplicit + 1 : ℕ) := by
    push_cast
    linarith
  have : m < 2 ^ spec.mantissaBitsWithoutImplicit + 1 := by exact_mod_cast hsucc
  omega

/-- The exponent a real is kept under is that of the significand it is near to, or one less if it is
below a power of two. -/
theorem Near.target {m : Nat} {e t : ℤ} (hn : Near spec m e v) (hc : Canonical spec m e)
    (hlt : v < 2 ^ t) (hle : 2 ^ (t - 1) ≤ v ∨ spec.targetExponent t = spec.minExponent) :
    spec.targetExponent t = e ∨ (m = 2 ^ spec.mantissaBitsWithoutImplicit ∧
      spec.minExponent < e ∧ spec.targetExponent t = e - 1 ∧
        v < 2 ^ spec.mantissaBitsWithoutImplicit * 2 ^ e) := by
  have hleast := hc.least
  have hbits : (spec.mantissaBits : ℤ) = spec.mantissaBitsWithoutImplicit + 1 := by
    unfold Format.mantissaBits
    push_cast
    ring
  have hdef : spec.targetExponent t = max (t - spec.mantissaBits) spec.minExponent := rfl
  have hpos := zpow_two_pos e
  rcases lt_trichotomy (spec.targetExponent t) e with hless | heq | hmore
  · -- The exponent is too low, so the real is below a power of two and the step is half as wide.
    right
    have hfull : 2 ^ spec.mantissaBitsWithoutImplicit ≤ m := hc.full.resolve_right (by omega)
    have htop : v < 2 ^ spec.mantissaBitsWithoutImplicit * 2 ^ e := by
      rw [← zpow_natCast, ← zpow_add₀ (by norm_num)]
      exact lt_of_lt_of_le hlt (zpow_two_le.2 (by omega))
    have hm : m = 2 ^ spec.mantissaBitsWithoutImplicit := hn.eq_power hfull htop
    refine ⟨hm, by omega, ?_, htop⟩
    have hshort := hn.short hm (by omega)
    have hone : (1 : ℚ) ≤ 2 ^ spec.mantissaBitsWithoutImplicit := one_le_pow₀ (by norm_num)
    have hhalf : (2 : ℚ) ^ (spec.mantissaBitsWithoutImplicit - 1 + e : ℤ) < 2 ^ t := by
      refine lt_of_le_of_lt ?_ hlt
      refine le_trans ?_ hshort
      rw [hm, zpow_add₀ (by norm_num), zpow_sub₀ (by norm_num), zpow_natCast, zpow_one]
      push_cast
      refine mul_le_mul_of_nonneg_right ?_ (le_of_lt hpos)
      linarith
    have := zpow_two_lt.1 hhalf
    omega
  · exact .inl heq
  · -- The real would not be below the first bit that its exponent stands for.
    exfalso
    have hfrom : 2 ^ (t - 1) ≤ v := hle.resolve_right (by omega)
    have hcast : (m : ℚ) + 1 ≤ 2 ^ spec.mantissaBits := by exact_mod_cast hc.lt
    have htop : v < 2 ^ (t - 1) := by
      have hlast : v < 2 ^ spec.mantissaBits * 2 ^ e :=
        lt_of_le_of_lt hn.high (mul_lt_mul_of_pos_right (by linarith) hpos)
      rw [← zpow_natCast, ← zpow_add₀ (by norm_num)] at hlast
      exact lt_of_lt_of_le hlast (zpow_two_le.2 (by omega))
    exact absurd hfrom (not_le_of_gt htop)

/-- Canonical parts are not shifted again. -/
theorem shift_canonical {m : Nat} {e : ℤ} (hc : Canonical spec m e) (hm : 0 < m) :
    shiftToTargetExponent spec m e .exact = (.ofMantissaAndAccuracy m .exact, e) := by
  have hleast := hc.least
  have hlog : m.log2 < spec.mantissaBits := (Nat.log2_lt (by omega)).2 hc.lt
  have htarget : spec.targetExponent (totalExponent m e) ≤ e := by
    unfold Format.targetExponent totalExponent
    omega
  have hzero : (spec.targetExponent (totalExponent m e) - e).toNat = 0 := by omega
  unfold shiftToTargetExponent shiftToExponent
  simp only [hzero]
  rw [Nat.cast_zero, add_zero]
  rfl

/-- A significand that has one bit too many after rounding is a power of two, and is shifted by
that bit. -/
theorem shift_power (spec : Format) {e : ℤ} (he : spec.minExponent < e) :
    ∃ em, shiftToTargetExponent spec (2 * 2 ^ spec.mantissaBitsWithoutImplicit) (e - 1) .exact =
      (em, e) ∧ em.mantissa = 2 ^ spec.mantissaBitsWithoutImplicit := by
  have hlog : (2 * 2 ^ spec.mantissaBitsWithoutImplicit).log2 =
      spec.mantissaBitsWithoutImplicit + 1 := by
    rw [← pow_succ', Nat.log2_two_pow]
  have htarget : spec.targetExponent
      (totalExponent (2 * 2 ^ spec.mantissaBitsWithoutImplicit) (e - 1)) = e := by
    unfold Format.targetExponent totalExponent Format.mantissaBits
    rw [hlog]
    push_cast
    omega
  have hone : (e - (e - 1)).toNat = 1 := by omega
  unfold shiftToTargetExponent shiftToExponent
  simp only [htarget, hone]
  refine ⟨_, by rw [Nat.cast_one, sub_add_cancel], ?_⟩
  show 2 * 2 ^ spec.mantissaBitsWithoutImplicit / 2 = _
  omega

/-- What is near to a significand, cut off at its exponent, is rounded to it. -/
theorem Near.roundedMantissa {em : ExtendedMantissa} {m : Nat} {e : ℤ} (hn : Near spec m e v)
    (hcut : CutOff em (v / 2 ^ e)) : em.roundedMantissa = m := by
  have hpow := zpow_two_pos e
  refine hcut.roundedMantissa ?_ ?_ fun hodd => ⟨fun h => ?_, fun h => ?_⟩
  · have hlow := hn.low
    rw [← le_div_iff₀ hpow] at hlow
    linarith
  · rw [div_le_iff₀ hpow]
    exact hn.high
  · refine (hn.tie hodd).1 ?_
    rw [← eq_div_iff (ne_of_gt hpow)]
    linarith
  · refine (hn.tie hodd).2 ?_
    rwa [div_eq_iff (ne_of_gt hpow)] at h

/-- What is near to a power of two from below, cut off one bit later, is rounded to the power with
one bit more. -/
theorem Near.roundedMantissa_below {em : ExtendedMantissa} {m : Nat} {e : ℤ}
    (hn : Near spec m e v) (hm : m = 2 ^ spec.mantissaBitsWithoutImplicit)
    (hmin : spec.minExponent < e) (htop : v < 2 ^ spec.mantissaBitsWithoutImplicit * 2 ^ e)
    (hcut : CutOff em (v / 2 ^ (e - 1))) :
    em.roundedMantissa = 2 * 2 ^ spec.mantissaBitsWithoutImplicit := by
  have hpow := zpow_two_pos e
  have hdiv : v / 2 ^ (e - 1) = 2 * (v / 2 ^ e) := by
    rw [zpow_sub_one₀ (by norm_num)]
    field_simp
  rw [hdiv] at hcut
  have hshort := hn.short hm hmin
  rw [← le_div_iff₀ hpow, hm] at hshort
  rw [← div_lt_iff₀ hpow] at htop
  push_cast at hshort
  refine hcut.roundedMantissa ?_ ?_ fun hodd => absurd hodd (by omega)
  · push_cast
    linarith
  · push_cast
    linarith

/-- The total exponent of a significand that a real is cut off at is that of the real. -/
theorem CutOff.total {m : Nat} {e : ℤ} {acc : Accuracy}
    (h : CutOff (.ofMantissaAndAccuracy m acc) (v / 2 ^ e)) :
    v < 2 ^ totalExponent m e ∧ (0 < m → 2 ^ (totalExponent m e - 1) ≤ v) := by
  have hpos := zpow_two_pos e
  have hsame : (ExtendedMantissa.ofMantissaAndAccuracy m acc).mantissa = m := by
    cases acc with
    | exact => rfl
    | inexact o => cases o <;> rfl
  obtain ⟨hfrom, hto⟩ := h.whole
  rw [hsame] at hfrom hto
  rw [le_div_iff₀ hpos] at hfrom
  rw [div_lt_iff₀ hpos] at hto
  exact ⟨lt_of_lt_of_le hto (lt_totalExponent m e),
    fun hm => le_trans (totalExponent_le hm e) hfrom⟩

/-- A real near to canonical parts is rounded to them, whatever significand it is cut off at first,
if that one is not longer than the format allows and not shorter without need. -/
theorem roundWithAccuracy_near {s : Sign} {m m' : Nat} {e e' : ℤ} {acc : Accuracy} {hm : 0 < m}
    (hc : Canonical spec m e) (hn : Near spec m e v)
    (hcut : CutOff (.ofMantissaAndAccuracy m' acc) (v / 2 ^ e'))
    (ht : e' ≤ spec.targetExponent (totalExponent m' e'))
    (hzero : m' = 0 → spec.targetExponent (totalExponent m' e') = spec.minExponent) :
    roundWithAccuracy spec s m' e' acc = .finite s m e hm := by
  obtain ⟨hlt, hfrom⟩ := hcut.total
  have hle : 2 ^ (totalExponent m' e' - 1) ≤ v ∨
      spec.targetExponent (totalExponent m' e') = spec.minExponent := by
    rcases Nat.eq_zero_or_pos m' with h | h
    · exact .inr (hzero h)
    · exact .inl (hfrom h)
  obtain ⟨hshifted, hexp⟩ := cutOff_shiftToExponent hcut ht
  have hfirst : shiftToTargetExponent spec m' e' acc =
      ((shiftToExponent m' e' acc (spec.targetExponent (totalExponent m' e'))).1,
        spec.targetExponent (totalExponent m' e')) := Prod.ext rfl hexp
  unfold roundWithAccuracy
  rw [hfirst]
  simp only
  rcases hn.target hc hlt hle with heq | ⟨hmpow, hmin, hless, htop⟩
  · rw [heq] at hshifted ⊢
    rw [hn.roundedMantissa hshifted, shift_canonical hc hm]
    exact dif_neg (by simp only [ExtendedMantissa.ofMantissaAndAccuracy]; omega)
  · -- Rounded up to the power it has one bit too many, and is shifted once more.
    rw [hless] at hshifted ⊢
    obtain ⟨em, hem, hmant⟩ := shift_power spec hmin
    rw [hn.roundedMantissa_below hmpow hmin htop hshifted, hem]
    simp only [hmant, hmpow]
    exact dif_neg (by positivity)

end Triage.Number
