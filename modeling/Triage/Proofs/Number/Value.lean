/-
Doubles and the reals they stand for. A real is rounded to a value that is off by no more than its
`2^53`rd part, and no multiple of a power of two with at most 53 bits lies between the two: what is
not above the real is not above its value, and so with below. So such multiples are kept as they
are, and small natural numbers among them. The floor of a double and what it has beyond that are
those of its value, and doubles are in the order of their values.
-/
import Triage.Proofs.Number.Magnitude

namespace Triage.Number

open Float.Model UnpackedFloat

variable {m k : Nat} {e s t : ℤ} {u v w : ℚ} {x y : Float} {n : Nat}

/-! ## Nearest significands -/

/-- Every real has a natural number that is nearest, an even one of two. -/
theorem exists_nearest (hv : 0 ≤ v) : ∃ k : Nat, (k : ℚ) - 1 / 2 ≤ v ∧ v ≤ k + 1 / 2 ∧
    (k % 2 = 1 → (k : ℚ) - 1 / 2 ≠ v ∧ v ≠ k + 1 / 2) := by
  have hlow := Nat.floor_le hv
  have hhigh := Nat.lt_floor_add_one v
  generalize ⌊v⌋₊ = f at hlow hhigh
  rcases lt_trichotomy v (f + 1 / 2) with h | h | h
  · exact ⟨f, by linarith, h.le, fun _ => ⟨by linarith, h.ne⟩⟩
  · rcases Nat.mod_two_eq_zero_or_one f with hf | hf
    · exact ⟨f, by linarith, h.le, fun hodd => by omega⟩
    · refine ⟨f + 1, ?_, ?_, fun hodd => by omega⟩ <;> push_cast <;> linarith
  · refine ⟨f + 1, ?_, ?_, fun _ => ⟨?_, ?_⟩⟩ <;> push_cast
    · linarith
    · linarith
    · exact ne_of_lt (by linarith)
    · exact ne_of_lt (by linarith)

/-- What a real is rounded to: a value with a full significand that it is near to. -/
inductive RoundsTo (v : ℚ) : ℚ → Prop
  | full {m : Nat} {e : ℤ} (canonical : Canonical Format.binary64 m e) (full : 2 ^ 52 ≤ m)
      (normal : Format.binary64.minExponent < e) (near : Near Format.binary64 m e v) :
      RoundsTo v (m * 2 ^ e)

theorem canonical_full (hfull : 2 ^ 52 ≤ m) (hlt : m < 2 ^ 53) (hlow : -1074 ≤ e)
    (hhigh : e ≤ 971) : Canonical Format.binary64 m e :=
  ⟨hlow, hhigh, hlt, .inl hfull⟩

/-- A real lies between two powers of two that follow each other; here in last places. -/
theorem exists_binade (hlow : (2 : ℚ) ^ (-1021 : ℤ) ≤ v) (hhigh : v < 2 ^ (1023 : ℤ)) :
    ∃ e : ℤ, -1074 < e ∧ e ≤ 970 ∧ 2 ^ 52 * 2 ^ e ≤ v ∧ v < 2 ^ 53 * 2 ^ e := by
  have hv : 0 < v := lt_of_lt_of_le (zpow_two_pos _) hlow
  have hfrom : (2 : ℚ) ^ Int.log 2 v ≤ v := by
    exact_mod_cast Int.zpow_log_le_self (b := 2) (by norm_num) hv
  have hto : v < (2 : ℚ) ^ (Int.log 2 v + 1) := by
    exact_mod_cast Int.lt_zpow_succ_log_self (b := 2) (by norm_num) v
  generalize Int.log 2 v = l at hfrom hto
  have hleast : -1021 ≤ l := Int.lt_add_one_iff.1 (zpow_two_lt.1 (lt_of_le_of_lt hlow hto))
  have hmost : l < 1023 := zpow_two_lt.1 (lt_of_le_of_lt hfrom hhigh)
  have hfirst : (2 : ℚ) ^ l = 2 ^ 52 * 2 ^ (l - 52) := by
    rw [← zpow_natCast, ← zpow_add₀ (by norm_num)]
    congr 1
    push_cast
    ring
  have hlast : (2 : ℚ) ^ (l + 1) = 2 ^ 53 * 2 ^ (l - 52) := by
    rw [zpow_add_one₀ (by norm_num), hfirst]
    ring
  exact ⟨l - 52, by omega, by omega, hfirst ▸ hfrom, hlast ▸ hto⟩

/-- Every real that is neither too small nor too large is rounded. -/
theorem exists_roundsTo (hlow : (2 : ℚ) ^ (-1021 : ℤ) ≤ v) (hhigh : v < 2 ^ (1023 : ℤ)) :
    ∃ w, RoundsTo v w := by
  obtain ⟨e, hleast, hmost, hfrom, hto⟩ := exists_binade hlow hhigh
  have hpos := zpow_two_pos e
  rw [← le_div_iff₀ hpos] at hfrom
  rw [← div_lt_iff₀ hpos] at hto
  obtain ⟨k, hklow, hkhigh, htie⟩ := exists_nearest (v := v / 2 ^ e) (by linarith)
  have hfull : 2 ^ 52 ≤ k := by
    have : (2 : ℚ) ^ 52 < k + 1 := by linarith
    exact Nat.lt_succ_iff.1 (by exact_mod_cast this)
  have hlong : k ≤ 2 ^ 53 := by
    have : (k : ℚ) < 2 ^ 53 + 1 := by linarith
    exact Nat.lt_succ_iff.1 (by exact_mod_cast this)
  rw [le_div_iff₀ hpos] at hklow
  rw [div_le_iff₀ hpos] at hkhigh
  rcases Nat.lt_or_eq_of_le hlong with hlt | rfl
  · refine ⟨_, .full (canonical_full hfull hlt hleast.le (by omega)) hfull hleast
      ⟨hklow, hkhigh, fun hodd => ?_, fun hk _ => ?_⟩⟩
    · obtain ⟨h₁, h₂⟩ := htie hodd
      exact ⟨fun h => h₁ (eq_div_of_mul_eq hpos.ne' h), fun h => h₂ ((div_eq_iff hpos.ne').2 h)⟩
    · have hk' : (k : ℚ) = 2 ^ 52 := by exact_mod_cast hk
      rw [le_div_iff₀ hpos] at hfrom
      rw [hk']
      exact le_trans (mul_le_mul_of_nonneg_right (by norm_num) hpos.le) hfrom
  · -- Rounded up to the next power it is kept under the next exponent.
    have hnext : (2 : ℚ) ^ (e + 1) = 2 * 2 ^ e := by
      rw [zpow_add_one₀ (by norm_num), mul_comm]
    rw [div_lt_iff₀ hpos] at hto
    push_cast at hklow
    refine ⟨_, .full (canonical_full (le_refl (2 ^ 52)) (by norm_num) (e := e + 1) (by omega)
      (by omega)) (le_refl _) (show -1074 < e + 1 by omega)
      ⟨?_, ?_, fun hodd => absurd hodd (by norm_num), fun _ _ => ?_⟩⟩ <;>
      rw [hnext] <;> push_cast <;> linarith

/-! ## How far it is to the value -/

/-- The value is off by no more than a `2^53`rd part of the real. -/
theorem RoundsTo.error (h : RoundsTo v w) : |w - v| ≤ v / 2 ^ 53 := by
  obtain @⟨m, e, hc, hfull, hmin, hn⟩ := h
  have hpos := zpow_two_pos e
  have hcast : (2 : ℚ) ^ 52 ≤ m := by exact_mod_cast hfull
  have hlow := hn.low
  have hhigh := hn.high
  rw [abs_le]
  rcases Nat.lt_or_eq_of_le hfull with hlt | heq
  · have hsucc : (2 : ℚ) ^ 52 + 1 ≤ m := by exact_mod_cast hlt
    have hbig : ((2 : ℚ) ^ 52 + 1) * 2 ^ e ≤ m * 2 ^ e := mul_le_mul_of_nonneg_right hsucc hpos.le
    constructor <;> linarith
  · have hshort := hn.short heq.symm hmin
    have hm : (m : ℚ) = 2 ^ 52 := by exact_mod_cast heq.symm
    rw [hm] at hlow hhigh hshort ⊢
    constructor <;> linarith

/-- A multiple of a power of two with at most 53 bits that is not above the real is not above its
value. -/
theorem RoundsTo.grid_le (h : RoundsTo v w) (hk : k < 2 ^ 53) (hv : (k : ℚ) * 2 ^ s ≤ v) :
    (k : ℚ) * 2 ^ s ≤ w := by
  obtain @⟨m, e, hc, hfull, hmin, hn⟩ := h
  have hpos := zpow_two_pos e
  rcases le_or_gt e s with hes | hes
  · -- The multiple is a whole number of last places, and less than one above the value.
    rw [zpow_two_split hes, mul_left_comm, mul_comm ((2 : ℚ) ^ e)] at hv ⊢
    have hlt : (k : ℚ) * 2 ^ (s - e).toNat < m + 1 := by
      have := lt_of_le_of_lt (hv.trans hn.high) (mul_lt_mul_of_pos_right
        (show (m : ℚ) + 1 / 2 < m + 1 by linarith) hpos)
      exact lt_of_mul_lt_mul_right this hpos.le
    have hle : k * 2 ^ (s - e).toNat ≤ m := Nat.lt_succ_iff.1 (by exact_mod_cast hlt)
    exact mul_le_mul_of_nonneg_right (by exact_mod_cast hle) hpos.le
  · have hbig : (2 : ℚ) ^ 53 * 2 ^ s ≤ 2 ^ 52 * 2 ^ e := by
      have := zpow_two_le.2 (show s + 1 ≤ e by omega)
      rw [zpow_add_one₀ (by norm_num)] at this
      linarith
    calc (k : ℚ) * 2 ^ s ≤ 2 ^ 53 * 2 ^ s :=
          mul_le_mul_of_nonneg_right (by exact_mod_cast hk.le) (zpow_two_pos s).le
      _ ≤ 2 ^ 52 * 2 ^ e := hbig
      _ ≤ m * 2 ^ e := mul_le_mul_of_nonneg_right (by exact_mod_cast hfull) hpos.le

/-- One that is not below the real is not below its value. -/
theorem RoundsTo.le_grid (h : RoundsTo v w) (hk : k < 2 ^ 53) (hv : v ≤ (k : ℚ) * 2 ^ s) :
    w ≤ (k : ℚ) * 2 ^ s := by
  obtain @⟨m, e, hc, hfull, hmin, hn⟩ := h
  have hpos := zpow_two_pos e
  rcases le_or_gt e s with hes | hes
  · rw [zpow_two_split hes, mul_left_comm, mul_comm ((2 : ℚ) ^ e)] at hv ⊢
    have hlt : (m : ℚ) < k * 2 ^ (s - e).toNat + 1 := by
      have := lt_of_lt_of_le (mul_lt_mul_of_pos_right
        (show (m : ℚ) - 1 < m - 1 / 2 by linarith) hpos) (hn.low.trans hv)
      have := lt_of_mul_lt_mul_right this hpos.le
      linarith
    have hle : m ≤ k * 2 ^ (s - e).toNat := Nat.lt_succ_iff.1 (by exact_mod_cast hlt)
    exact mul_le_mul_of_nonneg_right (by exact_mod_cast hle) hpos.le
  · -- The last place is too wide for the multiple, so it is below every value that is rounded up.
    exfalso
    have hwide : 2 * (2 : ℚ) ^ s ≤ 2 ^ e := by
      have := zpow_two_le.2 (show s + 1 ≤ e by omega)
      rw [zpow_add_one₀ (by norm_num)] at this
      linarith
    have hsmall : (k : ℚ) * 2 ^ s ≤ (2 ^ 53 - 1) * 2 ^ s := by
      refine mul_le_mul_of_nonneg_right ?_ (zpow_two_pos s).le
      have : (k : ℚ) + 1 ≤ 2 ^ 53 := by exact_mod_cast hk
      linarith
    have hreal : ((2 : ℚ) ^ 52 - 1 / 4) * 2 ^ e ≤ v := by
      rcases Nat.lt_or_eq_of_le hfull with hlt | heq
      · have hsucc : (2 : ℚ) ^ 52 + 1 ≤ m := by exact_mod_cast hlt
        exact le_trans (mul_le_mul_of_nonneg_right (by linarith) hpos.le) hn.low
      · have hshort := hn.short heq.symm hmin
        have hm : (m : ℚ) = 2 ^ 52 := by exact_mod_cast heq.symm
        rwa [hm] at hshort
    have hs := zpow_two_pos s
    linarith

/-- Such a multiple is kept. -/
theorem RoundsTo.eq_grid (h : RoundsTo v w) (hk : k < 2 ^ 53) (hv : v = (k : ℚ) * 2 ^ s) :
    w = v := by
  rw [hv]
  exact le_antisymm (h.le_grid hk hv.le) (h.grid_le hk hv.ge)

/-- What lies between two powers of two is rounded to a value between them. -/
theorem exists_roundsTo_between {i j : ℤ} (hi : -1021 ≤ i) (hj : j < 1023) (hlow : 2 ^ i ≤ v)
    (hhigh : v ≤ 2 ^ j) : ∃ w, RoundsTo v w ∧ 2 ^ i ≤ w ∧ w ≤ 2 ^ j := by
  obtain ⟨w, hw⟩ := exists_roundsTo ((zpow_two_le.2 hi).trans hlow)
    (lt_of_le_of_lt hhigh (zpow_two_lt.2 hj))
  refine ⟨w, hw, ?_, ?_⟩
  · simpa using hw.grid_le (k := 1) (by norm_num) (by simpa using hlow)
  · simpa using hw.le_grid (k := 1) (by norm_num) (by simpa using hhigh)

/-- A multiple of a power of two with at most 53 bits is rounded to itself. -/
theorem roundsTo_grid (hk : 0 < k) (hlt : k < 2 ^ 53) (hlow : -1021 ≤ s) (hhigh : s ≤ 970) :
    RoundsTo (k * 2 ^ s) (k * 2 ^ s) := by
  have hpos := zpow_two_pos s
  have hone : (1 : ℚ) ≤ k := by exact_mod_cast hk
  have hcast : (k : ℚ) < 2 ^ (53 : ℤ) := by exact_mod_cast hlt
  have hleast : (2 : ℚ) ^ (-1021 : ℤ) ≤ k * 2 ^ s :=
    (zpow_two_le.2 hlow).trans (le_mul_of_one_le_left hpos.le hone)
  have hmost : (k : ℚ) * 2 ^ s < 2 ^ (1023 : ℤ) := by
    refine lt_of_lt_of_le (mul_lt_mul_of_pos_right hcast hpos) ?_
    rw [← zpow_add₀ (by norm_num)]
    exact zpow_two_le.2 (by omega)
  obtain ⟨w, hw⟩ := exists_roundsTo hleast hmost
  rwa [hw.eq_grid hlt rfl] at hw

theorem RoundsTo.natCast_le (h : RoundsTo v w) (hk : k < 2 ^ 53) (hv : (k : ℚ) ≤ v) :
    (k : ℚ) ≤ w := by
  simpa using h.grid_le (s := 0) hk (by simpa using hv)

theorem RoundsTo.eq_natCast (h : RoundsTo v w) (hk : k < 2 ^ 53) (hv : v = (k : ℚ)) : w = k := by
  rw [h.eq_grid (s := 0) hk (by simpa using hv), hv]

/-! ## Values of doubles -/

/-- Whether a double stands for a real that is not negative. -/
def HasValue (x : Float) (v : ℚ) : Prop :=
  match partsOfDouble x with
  | .zero .positive => v = 0
  | .finite .positive m e _ => v = m * 2 ^ e
  | _ => False

theorem HasValue.cases (h : HasValue x v) : (partsOfDouble x = .zero .positive ∧ v = 0) ∨
    ∃ m e hm, partsOfDouble x = .finite .positive m e hm ∧ v = m * 2 ^ e := by
  unfold HasValue at h
  split at h
  · exact .inl ⟨‹_›, h⟩
  · exact .inr ⟨_, _, _, ‹_›, h⟩
  · exact h.elim

theorem hasValue_of_zero (h : partsOfDouble x = .zero .positive) : HasValue x 0 := by
  unfold HasValue
  rw [h]

theorem hasValue_of_finite {hm : 0 < m} (h : partsOfDouble x = .finite .positive m e hm) :
    HasValue x (m * 2 ^ e) := by
  unfold HasValue
  rw [h]

theorem hasValue_pack {hm : 0 < m} (hc : Canonical Format.binary64 m e) :
    HasValue (Float.ofModel (Float.Model.pack (.finite .positive m e hm))) (m * 2 ^ e) :=
  hasValue_of_finite (partsOfDouble_pack hc)

/-- The parts of a positive value. -/
theorem HasValue.finite (h : HasValue x v) (hv : 0 < v) : ∃ m e hm,
    partsOfDouble x = .finite .positive m e hm ∧ v = m * 2 ^ e ∧ Canonical Format.binary64 m e := by
  rcases h.cases with ⟨-, rfl⟩ | ⟨m, e, hm, hx, hval⟩
  · exact absurd hv (lt_irrefl 0)
  · exact ⟨m, e, hm, hx, hval, canonical_of_unpack (by decide) hx⟩

theorem HasValue.nonneg (h : HasValue x v) : 0 ≤ v := by
  rcases h.cases with ⟨-, rfl⟩ | ⟨m, e, hm, -, rfl⟩
  · exact le_refl 0
  · exact mul_nonneg (Nat.cast_nonneg m) (zpow_two_pos e).le

/-- The parts of zero. -/
theorem HasValue.zero (h : HasValue x 0) : partsOfDouble x = .zero .positive := by
  rcases h.cases with ⟨hx, -⟩ | ⟨m, e, hm, -, hval⟩
  · exact hx
  · exact absurd hval (value_pos hm e).ne

/-- A significand of a value that is not below one is full. -/
theorem full_of_one_le (hc : Canonical Format.binary64 m e) (h : 1 ≤ (m : ℚ) * 2 ^ e) :
    2 ^ 52 ≤ m := by
  refine hc.full.resolve_right fun he => ?_
  have hlt : (m : ℚ) < 2 ^ (53 : ℤ) := by exact_mod_cast hc.lt
  have hsmall : (m : ℚ) * 2 ^ e < 2 ^ (53 : ℤ) * 2 ^ (-1074 : ℤ) := by
    rw [he]
    exact mul_lt_mul_of_pos_right hlt (zpow_two_pos _)
  rw [← zpow_add₀ (by norm_num)] at hsmall
  have hone : (2 : ℚ) ^ (53 + -1074 : ℤ) ≤ 2 ^ (0 : ℤ) := zpow_two_le.2 (by norm_num)
  rw [zpow_zero] at hone
  linarith

/-! ## Operations -/

/-- The product of two doubles is the value their real product is rounded to. -/
theorem HasValue.mul (hx : HasValue x u) (hy : HasValue y v) (hu : 1 ≤ u) (hv : 1 ≤ v)
    (h : RoundsTo (u * v) w) : HasValue (x * y) w := by
  obtain ⟨m₁, e₁, h₁, hp₁, rfl, hc₁⟩ := hx.finite (by linarith)
  obtain ⟨m₂, e₂, h₂, hp₂, rfl, -⟩ := hy.finite (by linarith)
  obtain @⟨m, e, hc, hfull, -, hn⟩ := h
  have hm : 0 < m := by omega
  have hmul : UnpackedFloat.mul Format.binary64 (.finite .positive m₁ e₁ h₁)
      (.finite .positive m₂ e₂ h₂) = .finite .positive m e hm :=
    mul_near hc hn (full_of_one_le hc₁ hu)
  show HasValue (Float.ofModel (Float.Model.pack
    (UnpackedFloat.mul Format.binary64 (partsOfDouble x) (partsOfDouble y)))) _
  rw [hp₁, hp₂, hmul]
  exact hasValue_pack hc

/-- The quotient of two positive doubles is the value their real quotient is rounded to. -/
theorem HasValue.div (hx : HasValue x u) (hy : HasValue y v) (hu : 0 < u) (hv : 0 < v)
    (h : RoundsTo (u / v) w) : HasValue (x / y) w := by
  obtain ⟨m₁, e₁, h₁, hp₁, rfl, -⟩ := hx.finite hu
  obtain ⟨m₂, e₂, h₂, hp₂, rfl, -⟩ := hy.finite hv
  obtain @⟨m, e, hc, hfull, -, hn⟩ := h
  have hm : 0 < m := by omega
  have hdiv : UnpackedFloat.div Format.binary64 (.finite .positive m₁ e₁ h₁)
      (.finite .positive m₂ e₂ h₂) = .finite .positive m e hm := div_near hc hn
  show HasValue (Float.ofModel (Float.Model.pack
    (UnpackedFloat.div Format.binary64 (partsOfDouble x) (partsOfDouble y)))) _
  rw [hp₁, hp₂, hdiv]
  exact hasValue_pack hc

/-- A significand over any exponent is rounded to what it is near to. -/
theorem round_near {spec : Format} {sign : Sign} {hm : 0 < m} (hc : Canonical spec m e)
    (hk : 0 < k) (hn : Near spec m e (k * 2 ^ t)) :
    UnpackedFloat.round spec sign k t = .finite sign m e hm := by
  rw [← shiftLeft_value k (t - spec.targetExponent (totalExponent k t)).toNat t] at hn
  refine roundWithAccuracy_near hc hn ?_ ?_ fun hzero => ?_
  · rw [mul_div_cancel_right₀ _ (zpow_two_pos _).ne']
    exact cutOff_exact _
  · rw [totalExponent_shiftLeft hk]
    omega
  · rw [Nat.shiftLeft_eq] at hzero
    have := Nat.mul_pos hk (Nat.two_pow_pos (t - spec.targetExponent (totalExponent k t)).toNat)
    omega

/-- The difference of two values is rounded to what it is near to. -/
theorem sub_near {spec : Format} {m₁ m₂ : Nat} {e₁ e₂ : ℤ} {h₁ : 0 < m₁} {h₂ : 0 < m₂} {hm : 0 < m}
    (hc : Canonical spec m e) (hless : (m₂ : ℚ) * 2 ^ e₂ < m₁ * 2 ^ e₁)
    (hn : Near spec m e (m₁ * 2 ^ e₁ - m₂ * 2 ^ e₂)) :
    UnpackedFloat.sub spec (.finite .positive m₁ e₁ h₁) (.finite .positive m₂ e₂ h₂) =
      .finite .positive m e hm := by
  have hval₁ := decreaseExponent_value (m := m₁) (min_le_left e₁ e₂)
  have hval₂ := decreaseExponent_value (m := m₂) (min_le_right e₁ e₂)
  -- Both are written with the lesser exponent, and the significands are subtracted.
  show UnpackedFloat.normalize spec (((decreaseExponent m₁ e₁ (min e₁ e₂)).1 : ℤ) -
    (decreaseExponent m₂ e₂ (min e₁ e₂)).1) (min e₁ e₂) .positive = _
  generalize (decreaseExponent m₁ e₁ (min e₁ e₂)).1 = a at hval₁
  generalize (decreaseExponent m₂ e₂ (min e₁ e₂)).1 = b at hval₂
  have hlt : b < a := by
    rw [← hval₁, ← hval₂] at hless
    exact_mod_cast lt_of_mul_lt_mul_right hless (zpow_two_pos (min e₁ e₂)).le
  have hvalue : ((a - b : ℕ) : ℚ) * 2 ^ min e₁ e₂ = m₁ * 2 ^ e₁ - m₂ * 2 ^ e₂ := by
    rw [Nat.cast_sub hlt.le, sub_mul, hval₁, hval₂]
  unfold UnpackedFloat.normalize
  rw [Int.compare_eq_gt.2 (by omega), show ((a : ℤ) - b).toNat = a - b by omega]
  exact round_near hc (by omega) (by rwa [hvalue])

/-- The sum of two values is rounded to what it is near to. -/
theorem add_near {spec : Format} {m₁ m₂ : Nat} {e₁ e₂ : ℤ} {h₁ : 0 < m₁} {h₂ : 0 < m₂} {hm : 0 < m}
    (hc : Canonical spec m e) (hn : Near spec m e (m₁ * 2 ^ e₁ + m₂ * 2 ^ e₂)) :
    UnpackedFloat.add spec (.finite .positive m₁ e₁ h₁) (.finite .positive m₂ e₂ h₂) =
      .finite .positive m e hm := by
  have hval₁ := decreaseExponent_value (m := m₁) (min_le_left e₁ e₂)
  have hval₂ := decreaseExponent_value (m := m₂) (min_le_right e₁ e₂)
  show UnpackedFloat.normalize spec (((decreaseExponent m₁ e₁ (min e₁ e₂)).1 : ℤ) +
    (decreaseExponent m₂ e₂ (min e₁ e₂)).1) (min e₁ e₂) .positive = _
  generalize (decreaseExponent m₁ e₁ (min e₁ e₂)).1 = a at hval₁
  generalize (decreaseExponent m₂ e₂ (min e₁ e₂)).1 = b at hval₂
  have ha : 0 < a := by
    have hpos := value_pos h₁ e₁
    rw [← hval₁] at hpos
    exact_mod_cast pos_of_mul_pos_left hpos (zpow_two_pos (min e₁ e₂)).le
  have hvalue : ((a + b : ℕ) : ℚ) * 2 ^ min e₁ e₂ = m₁ * 2 ^ e₁ + m₂ * 2 ^ e₂ := by
    rw [Nat.cast_add, add_mul, hval₁, hval₂]
  unfold UnpackedFloat.normalize
  rw [Int.compare_eq_gt.2 (by omega), show ((a : ℤ) + b).toNat = a + b by omega]
  exact round_near hc (by omega) (by rwa [hvalue])

/-- The sum of two positive doubles is the value their real sum is rounded to. -/
theorem HasValue.add (hx : HasValue x u) (hy : HasValue y v) (hu : 0 < u) (hv : 0 < v)
    (h : RoundsTo (u + v) w) : HasValue (x + y) w := by
  obtain ⟨m₁, e₁, h₁, hp₁, rfl, -⟩ := hx.finite hu
  obtain ⟨m₂, e₂, h₂, hp₂, rfl, -⟩ := hy.finite hv
  obtain @⟨m, e, hc, hfull, -, hn⟩ := h
  have hm : 0 < m := by omega
  have hadd : UnpackedFloat.add Format.binary64 (.finite .positive m₁ e₁ h₁)
      (.finite .positive m₂ e₂ h₂) = .finite .positive m e hm := add_near hc hn
  show HasValue (Float.ofModel (Float.Model.pack
    (UnpackedFloat.add Format.binary64 (partsOfDouble x) (partsOfDouble y)))) _
  rw [hp₁, hp₂, hadd]
  exact hasValue_pack hc

/-- The difference of two positive doubles is the value their real difference is rounded to. -/
theorem HasValue.sub (hx : HasValue x u) (hy : HasValue y v) (hv : 0 < v) (huv : v < u)
    (h : RoundsTo (u - v) w) : HasValue (x - y) w := by
  obtain ⟨m₁, e₁, h₁, hp₁, rfl, -⟩ := hx.finite (by linarith)
  obtain ⟨m₂, e₂, h₂, hp₂, rfl, -⟩ := hy.finite hv
  obtain @⟨m, e, hc, hfull, -, hn⟩ := h
  have hm : 0 < m := by omega
  have hsub : UnpackedFloat.sub Format.binary64 (.finite .positive m₁ e₁ h₁)
      (.finite .positive m₂ e₂ h₂) = .finite .positive m e hm := sub_near hc huv hn
  show HasValue (Float.ofModel (Float.Model.pack
    (UnpackedFloat.sub Format.binary64 (partsOfDouble x) (partsOfDouble y)))) _
  rw [hp₁, hp₂, hsub]
  exact hasValue_pack hc

/-! ## Order -/

/-- Of canonical parts those with the higher exponent are of the larger value. -/
theorem Canonical.value_lt {spec : Format} {f : ℤ} (hm : Canonical spec m e)
    (hn : Canonical spec n f) (hef : e < f) : (m : ℚ) * 2 ^ e < n * 2 ^ f := by
  have hleast := hm.least
  have hlt : (m : ℚ) < 2 ^ spec.mantissaBits := by exact_mod_cast hm.lt
  have hfull : (2 : ℚ) ^ spec.mantissaBitsWithoutImplicit ≤ n := by
    exact_mod_cast hn.full.resolve_right (by omega)
  have htwice : (2 : ℚ) ^ spec.mantissaBits = 2 * 2 ^ spec.mantissaBitsWithoutImplicit := by
    exact_mod_cast two_pow_mantissaBits spec
  have hnext := zpow_two_le.2 (show e + 1 ≤ f by omega)
  rw [zpow_add_one₀ (by norm_num)] at hnext
  calc (m : ℚ) * 2 ^ e < 2 ^ spec.mantissaBits * 2 ^ e :=
        mul_lt_mul_of_pos_right hlt (zpow_two_pos e)
    _ = 2 ^ spec.mantissaBitsWithoutImplicit * (2 ^ e * 2) := by rw [htwice]; ring
    _ ≤ 2 ^ spec.mantissaBitsWithoutImplicit * 2 ^ f :=
        mul_le_mul_of_nonneg_left hnext (by positivity)
    _ ≤ n * 2 ^ f := mul_le_mul_of_nonneg_right hfull (zpow_two_pos f).le

/-- Canonical parts are compared as their values are. -/
theorem compare_canonical {spec : Format} {f : ℤ} {hm : 0 < m} {hn : 0 < n}
    (h₁ : Canonical spec m e) (h₂ : Canonical spec n f) :
    UnpackedFloat.compare (.finite .positive m e hm) (.finite .positive n f hn) =
      some (compare ((m : ℚ) * 2 ^ e) (n * 2 ^ f)) := by
  show some ((compare e f).then (compare m n)) = _
  congr 1
  rcases lt_trichotomy e f with h | rfl | h
  · rw [compare_lt_iff_lt.2 h, compare_lt_iff_lt.2 (h₁.value_lt h₂ h)]
    rfl
  · have hpos := zpow_two_pos e
    rw [compare_eq_iff_eq.2 rfl]
    show compare m n = _
    rcases lt_trichotomy m n with h | rfl | h
    · have hval : (m : ℚ) * 2 ^ e < n * 2 ^ e :=
        mul_lt_mul_of_pos_right (by exact_mod_cast h) hpos
      rw [compare_lt_iff_lt.2 h, compare_lt_iff_lt.2 hval]
    · rw [compare_eq_iff_eq.2 rfl, compare_eq_iff_eq.2 rfl]
    · have hval : (n : ℚ) * 2 ^ e < m * 2 ^ e :=
        mul_lt_mul_of_pos_right (by exact_mod_cast h) hpos
      rw [compare_gt_iff_gt.2 h, compare_gt_iff_gt.2 hval]
  · rw [compare_gt_iff_gt.2 h, compare_gt_iff_gt.2 (h₂.value_lt h₁ h)]
    rfl

/-- Doubles are compared as their values are. -/
theorem HasValue.compare (hx : HasValue x u) (hy : HasValue y v) :
    (partsOfDouble x).compare (partsOfDouble y) = some (compare u v) := by
  rcases hx.nonneg.eq_or_lt with rfl | hu
  · rcases hy.nonneg.eq_or_lt with rfl | hv
    · rw [hx.zero, hy.zero, compare_eq_iff_eq.2 rfl]
      rfl
    · obtain ⟨n, f, hn, hq, -⟩ := hy.finite hv
      rw [hx.zero, hq, compare_lt_iff_lt.2 hv]
      rfl
  · obtain ⟨m, e, hm, hp, hu', hc⟩ := hx.finite hu
    rcases hy.nonneg.eq_or_lt with rfl | hv
    · rw [hp, hy.zero, compare_gt_iff_gt.2 hu]
      rfl
    · obtain ⟨n, f, hn, hq, hv', hd⟩ := hy.finite hv
      rw [hp, hq, hu', hv', compare_canonical hc hd]

/-- There is one double of a value. -/
theorem HasValue.unique (hx : HasValue x v) (hy : HasValue y v) : x = y := by
  have hparts : partsOfDouble x = partsOfDouble y := by
    rcases hx.nonneg.eq_or_lt with rfl | hv
    · rw [hx.zero, hy.zero]
    · obtain ⟨m, e, hm, hp, hval, hc⟩ := hx.finite hv
      obtain ⟨n, f, hn, hq, hval', hd⟩ := hy.finite hv
      rw [hval] at hval'
      rw [hp, hq]
      rcases lt_trichotomy e f with h | rfl | h
      · exact absurd hval' (hc.value_lt hd h).ne
      · have hmn : m = n := by exact_mod_cast mul_right_cancel₀ (zpow_two_pos e).ne' hval'
        subst hmn
        rfl
      · exact absurd hval' (hd.value_lt hc h).ne'
  rw [← ofModel_pack_parts x, hparts, ofModel_pack_parts]

theorem HasValue.lt_iff (hx : HasValue x u) (hy : HasValue y v) : x < y ↔ u < v := by
  show Float.lt x y = true ↔ _
  unfold Float.lt
  rw [decide_eq_true_iff, ← compare_lt_iff_lt, ← Option.some_inj, ← hx.compare hy]
  exact beq_iff_eq

theorem HasValue.beq_iff (hx : HasValue x u) (hy : HasValue y v) : (x == y) = true ↔ u = v := by
  rw [← compare_eq_iff_eq (a := u), ← Option.some_inj (a := Ord.compare u v), ← hx.compare hy]
  exact beq_iff_eq (α := Option Ordering)

/-! ## Natural numbers -/

/-- Small natural numbers are kept. -/
theorem hasValue_ofNat (hn : 0 < n) (hlt : n < 2 ^ 53) : HasValue (Float.ofNat n) n := by
  obtain ⟨-, hlong, hc⟩ := canonical_small hn hlt
  have hm : 0 < n * 2 ^ (52 - n.log2) := by omega
  have hvalue : ((n * 2 ^ (52 - n.log2) : ℕ) : ℚ) * 2 ^ ((n.log2 : ℤ) - 52) = n := by
    have hlog : n.log2 < 53 := (Nat.log2_lt (by omega)).2 hlt
    push_cast
    rw [mul_assoc, ← zpow_natCast, ← zpow_add₀ (by norm_num),
      show ((52 - n.log2 : ℕ) : ℤ) + (n.log2 - 52) = 0 by omega, zpow_zero, mul_one]
  have hnear : Near Format.binary64 (n * 2 ^ (52 - n.log2)) (n.log2 - 52) (n * 10 ^ (0 : ℤ)) := by
    have hself : Near Format.binary64 (n * 2 ^ (52 - n.log2)) (n.log2 - 52) _ := near_self _ _
    rwa [hvalue, ← mul_one (n : ℚ), ← zpow_zero (10 : ℚ)] at hself
  have hread := @ofScientific_near _ _ _ _ hm hn hc hnear
  rw [← hvalue, show Float.ofNat n = _ from hread]
  exact hasValue_pack hc

/-- One is added to a small natural number without rounding. -/
theorem ofNat_add_one (hn : n + 1 < 2 ^ 53) : Float.ofNat n + 1 = Float.ofNat (n + 1) := by
  rcases Nat.eq_zero_or_pos n with rfl | hpos
  · decide
  · have hcast : (0 : ℚ) < n := by exact_mod_cast hpos
    have hround : RoundsTo ((n : ℚ) + (1 : ℕ)) ((n : ℚ) + (1 : ℕ)) := by
      have hgrid := roundsTo_grid (k := n + 1) (s := 0) (by omega) hn (by norm_num) (by norm_num)
      rw [zpow_zero, mul_one] at hgrid
      exact_mod_cast hgrid
    have hone : HasValue (Float.ofNat 1) (1 : ℕ) := hasValue_ofNat (by norm_num) (by norm_num)
    have hsum := (hasValue_ofNat hpos (by omega)).add hone hcast (by norm_num) hround
    have hnext := hasValue_ofNat (n := n + 1) (by omega) hn
    rw [Nat.cast_add] at hnext
    exact hsum.unique hnext

/-- The floor of a double is that of its value. -/
theorem HasValue.floor (h : HasValue x v) : Number.floor x = ⌊v⌋₊ := by
  unfold Number.floor
  rcases h.cases with ⟨hx, rfl⟩ | ⟨m, e, hm, hx, rfl⟩
  · rw [hx, Nat.floor_zero]
  · rw [hx]
    simp only [floorOf]
    split
    · rename_i he
      obtain ⟨k, rfl⟩ := Int.eq_ofNat_of_zero_le he
      rw [Nat.shiftLeft_eq, Int.toNat_natCast, zpow_natCast]
      exact_mod_cast (Nat.floor_natCast (R := ℚ) (m * 2 ^ k)).symm
    · rename_i he
      have hpow : (m : ℚ) * 2 ^ e = (m : ℚ) / ((2 ^ (-e).toNat : ℕ) : ℚ) := by
        rw [div_eq_mul_inv, Nat.cast_pow, Nat.cast_ofNat, ← zpow_natCast, ← zpow_neg]
        congr 2
        omega
      rw [Nat.shiftRight_eq_div_pow, hpow, Nat.floor_div_eq_div]

/-- A double less itself is zero. -/
theorem HasValue.sub_self (h : HasValue x v) : HasValue (x - x) 0 := by
  refine hasValue_of_zero ?_
  show partsOfDouble (Float.ofModel (Float.Model.pack
    (UnpackedFloat.sub Format.binary64 (partsOfDouble x) (partsOfDouble x)))) = _
  rcases h.cases with ⟨hx, -⟩ | ⟨m, e, hm, hx, -⟩ <;> rw [hx]
  · exact partsOfDouble_zero .positive
  · have hzero : UnpackedFloat.sub Format.binary64 (.finite .positive m e hm)
        (.finite .positive m e hm) = .zero .positive := by
      show UnpackedFloat.normalize _ (((decreaseExponent m e (min e e)).1 : ℤ) -
        (decreaseExponent m e (min e e)).1) _ _ = _
      rw [Int.sub_self]
      rfl
    rw [hzero]
    exact partsOfDouble_zero .positive

/-- What a value has beyond its floor is a whole number of its last places. -/
theorem beyond_floor (hc : Canonical Format.binary64 m e) (hone : 1 ≤ (m : ℚ) * 2 ^ e)
    (hless : (⌊(m : ℚ) * 2 ^ e⌋₊ : ℚ) < m * 2 ^ e) : -53 < e ∧ e < 0 ∧
      ∃ k : Nat, 0 < k ∧ k < 2 ^ 53 ∧ (m : ℚ) * 2 ^ e - ⌊(m : ℚ) * 2 ^ e⌋₊ = k * 2 ^ e := by
  have hpos := zpow_two_pos e
  have hlast : -53 < e := by
    have hcast : (m : ℚ) < 2 ^ (53 : ℤ) := by exact_mod_cast hc.lt
    have hbound : (2 : ℚ) ^ (0 : ℤ) < 2 ^ (53 : ℤ) * 2 ^ e := by
      rw [zpow_zero]
      exact lt_of_le_of_lt hone (mul_lt_mul_of_pos_right hcast hpos)
    rw [← zpow_add₀ (by norm_num)] at hbound
    have := zpow_two_lt.1 hbound
    omega
  have hneg : e < 0 := by
    by_contra hge
    obtain ⟨k, rfl⟩ := Int.eq_ofNat_of_zero_le (not_lt.1 hge)
    have hint : (m : ℚ) * 2 ^ (k : ℤ) = ((m * 2 ^ k : ℕ) : ℚ) := by
      rw [zpow_natCast]
      push_cast
      rfl
    rw [hint, Nat.floor_natCast] at hless
    exact lt_irrefl _ hless
  have hunit : (2 : ℚ) ^ e * 2 ^ (-e).toNat = 1 := by
    rw [zpow_mul_toNat (by norm_num), Int.toNat_of_nonpos hneg.le, pow_zero]
  generalize ⌊(m : ℚ) * 2 ^ e⌋₊ = f at hless ⊢
  have hbelow : f * 2 ^ (-e).toNat < m := by
    have hscaled := mul_lt_mul_of_pos_right hless (show (0 : ℚ) < 2 ^ (-e).toNat by positivity)
    rw [mul_assoc, hunit, mul_one] at hscaled
    exact_mod_cast hscaled
  refine ⟨hlast, hneg, m - f * 2 ^ (-e).toNat, Nat.sub_pos_of_lt hbelow,
    lt_of_le_of_lt (Nat.sub_le ..) hc.lt, ?_⟩
  rw [Nat.cast_sub hbelow.le, sub_mul]
  push_cast
  rw [mul_assoc, mul_comm ((2 : ℚ) ^ (-e).toNat), hunit, mul_one]

/-- What a double has beyond its floor is what its value has. -/
theorem HasValue.fraction (h : HasValue x v) (hv : v < 2 ^ 53) :
    HasValue (fraction x) (v - ⌊v⌋₊) := by
  have hle := Nat.floor_le h.nonneg
  have hlt : ⌊v⌋₊ < 2 ^ 53 := by exact_mod_cast lt_of_le_of_lt hle hv
  unfold Number.fraction
  rw [h.floor]
  rcases Nat.eq_zero_or_pos ⌊v⌋₊ with hzero | hpos
  · -- Nothing is taken away.
    have hparts : UnpackedFloat.sub Format.binary64 (partsOfDouble x) (.zero .positive) =
        partsOfDouble x := by
      rcases h.cases with ⟨hp, -⟩ | ⟨m, e, hm, hp, -⟩ <;> rw [hp] <;> rfl
    have hsame : x - Float.ofNat 0 = x := by
      show Float.ofModel (Float.Model.pack
        (UnpackedFloat.sub Format.binary64 (partsOfDouble x) (.zero .positive))) = x
      rw [hparts, ofModel_pack_parts]
    rw [hzero, Nat.cast_zero, sub_zero, hsame]
    exact h
  · have hwhole := hasValue_ofNat hpos hlt
    have hone : (1 : ℚ) ≤ ⌊v⌋₊ := by exact_mod_cast hpos
    rcases eq_or_lt_of_le hle with heq | hless
    · rw [heq] at hwhole ⊢
      rw [hwhole.unique h, sub_eq_zero_of_eq rfl]
      exact h.sub_self
    · obtain ⟨m, e, hm, -, hval, hc⟩ := h.finite (by linarith)
      have hround : RoundsTo (v - ⌊v⌋₊) (v - ⌊v⌋₊) := by
        rw [hval] at hless ⊢
        obtain ⟨hlast, hneg, k, hk, hk53, hgrid⟩ := beyond_floor hc (by linarith) hless
        rw [hgrid]
        exact roundsTo_grid hk hk53 (by omega) (by omega)
      exact h.sub hwhole (by linarith) hless hround

end Triage.Number
