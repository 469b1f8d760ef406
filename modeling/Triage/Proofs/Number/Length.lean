/-
The length of a vector of doubles, and its members divided by it. Squares and their sums are not
negative, and a sum is not below a power of two once a term was not; a square root halves the
exponent of such a power. So a finite member divided by the length is not above two: its square is
counted in the length, and if the square is rounded to zero, the length is still no less than the
root of the least double. What is lost is an infinite member: the length is infinite too then, and
the quotient is no number.
-/
import Triage.Proofs.Number.Totals

namespace Triage.Number

open Float.Model UnpackedFloat

variable {spec : Format} {x y z : Float} {xs : List Float} {k : ℤ} {m : Nat} {e : ℤ} {v : ℚ}
  {s : Sign}

/-! ## Square roots -/

/-- A significand is cut off from some real that is not below it, whatever its accuracy. -/
theorem exists_cutOff (m : Nat) (acc : Accuracy) :
    ∃ x, CutOff (.ofMantissaAndAccuracy m acc) x ∧ (m : ℚ) ≤ x := by
  cases acc with
  | exact => exact ⟨m, cutOff_exact m, le_refl _⟩
  | inexact o =>
    cases o with
    | lt =>
      refine ⟨m + 1 / 4, cutOff_of_halves 0 true ?_ ?_ ?_, by linarith⟩ <;> push_cast
      · linarith
      · linarith
      · exact iff_of_false (by decide) (by linarith)
    | eq =>
      refine ⟨m + 1 / 2, cutOff_of_halves 1 false ?_ ?_ ?_, by linarith⟩ <;> push_cast
      · linarith
      · linarith
      · exact iff_of_true rfl (by linarith)
    | gt =>
      refine ⟨m + 3 / 4, cutOff_of_halves 1 true ?_ ?_ ?_, by linarith⟩ <;> push_cast
      · linarith
      · linarith
      · exact iff_of_false (by decide) (by linarith)

/-- The root of a radicand with an even exponent is not below a power of two whose square is not above
the radicand, though it is cut off at half the exponent. -/
theorem two_pow_le_sqrt {n : Nat} {t : ℤ} (hroot : 0 < Nat.sqrt n)
    (h : (2 : ℚ) ^ (2 * k) ≤ n * 2 ^ (2 * t)) : (2 : ℚ) ^ k ≤ Nat.sqrt n * 2 ^ t := by
  rcases lt_or_ge k t with hkt | hkt
  · exact two_pow_le_value hroot hkt.le
  · obtain ⟨j, rfl⟩ : ∃ j : Nat, k = t + j := ⟨(k - t).toNat, by omega⟩
    have hpow : (2 : ℚ) ^ (2 * (t + j) : ℤ) = ((2 ^ j) ^ 2 : ℕ) * 2 ^ (2 * t) := by
      rw [mul_add, zpow_add₀ (by norm_num), mul_comm]
      push_cast
      rw [← pow_mul, ← zpow_natCast]
      congr 2
      push_cast
      ring
    rw [hpow] at h
    have hle : 2 ^ j ≤ Nat.sqrt n :=
      Nat.le_sqrt'.2 (by exact_mod_cast le_of_mul_le_mul_right h (zpow_two_pos (2 * t)))
    rw [zpow_add₀ (by norm_num), zpow_natCast, mul_comm]
    exact mul_le_mul_of_nonneg_right (by exact_mod_cast hle) (zpow_two_pos t).le

/-- Of a root so many bits are found as the format keeps, or all down to its least exponent; and it is
not below a power of two whose square is not above the radicand. -/
theorem sqrtCore_spec (spec : Format) (hm : 0 < m) (e : ℤ) :
    ∃ root t acc, sqrtCore spec m e = (root, t, acc) ∧ 0 < root ∧
      (2 ^ spec.mantissaBitsWithoutImplicit ≤ root ∨ t ≤ spec.minExponent) ∧
      ∀ k : ℤ, (2 : ℚ) ^ (2 * k) ≤ m * 2 ^ e → (2 : ℚ) ^ k ≤ root * 2 ^ t := by
  unfold sqrtCore
  generalize ht : min (e.ediv 2) (spec.targetExponent ((totalExponent m e + 1).ediv 2)) = t
  have heven : 2 * t ≤ e := by
    have : t ≤ e / 2 := ht ▸ min_le_left _ _
    omega
  -- The radicand with an even exponent, whose half is the exponent of the root.
  have hplace : e - ((e - 2 * t).toNat : ℤ) = 2 * t := by omega
  have hvalue := shiftLeft_value m (e - 2 * t).toNat e
  have htotal := totalExponent_shiftLeft hm (e - 2 * t).toNat e
  rw [hplace] at hvalue htotal
  have hn : 0 < m <<< (e - 2 * t).toNat := by
    rw [Nat.shiftLeft_eq]
    exact Nat.mul_pos hm (Nat.two_pow_pos _)
  simp only
  generalize m <<< (e - 2 * t).toNat = n at hvalue htotal hn
  have hroot : 0 < Nat.sqrt n := Nat.sqrt_pos.2 hn
  refine ⟨Nat.sqrt n, t, _, rfl, hroot, ?_, fun k hk => ?_⟩
  · refine Decidable.or_iff_not_imp_right.2 fun hmin => Nat.le_sqrt'.2 ?_
    have hlog : 2 * spec.mantissaBitsWithoutImplicit ≤ n.log2 := by
      have hbits : t ≤ (totalExponent m e + 1) / 2 - spec.mantissaBits := by
        have hle : t ≤ max ((totalExponent m e + 1) / 2 - spec.mantissaBits) spec.minExponent :=
          ht ▸ min_le_right _ _
        omega
      rw [← htotal] at hbits
      unfold totalExponent Format.mantissaBits at hbits
      push_cast at hbits
      omega
    rw [← pow_mul, Nat.mul_comm]
    exact (Nat.pow_le_pow_right (by norm_num) hlog).trans (Nat.log2_self_le hn.ne')
  · rw [← hvalue] at hk
    exact two_pow_le_sqrt hroot hk

/-- A square root is rounded from some real that is not below such a power. -/
theorem rounded_sqrt (hm : 0 < m) (h : (2 : ℚ) ^ (2 * k) ≤ m * 2 ^ e) :
    ∃ v, (2 : ℚ) ^ k ≤ v ∧
      Rounded spec .positive v (UnpackedFloat.sqrt spec (.finite .positive m e hm)) := by
  obtain ⟨root, t, acc, hcore, hroot, hlong, hlow⟩ := sqrtCore_spec spec hm e
  obtain ⟨x, hcut, hx⟩ := exists_cutOff root acc
  have htarget : t ≤ spec.targetExponent (totalExponent root t) :=
    hlong.elim (fun hfull => le_targetExponent hfull t) fun hmin => hmin.trans (le_max_right _ _)
  have hpos := zpow_two_pos t
  refine ⟨x * 2 ^ t, (hlow k h).trans (mul_le_mul_of_nonneg_right hx hpos.le), ?_⟩
  unfold UnpackedFloat.sqrt
  simp only [hcore]
  refine (nearest_roundWithAccuracy .positive ?_ htarget fun hzero => absurd hzero hroot.ne').rounded
  rwa [mul_div_cancel_right₀ _ hpos.ne']

/-! ## Doubles that are not negative -/

/-- Whether a double is positive and not below a power of two. -/
def AtLeast (k : ℤ) (x : Float) : Prop :=
  partsOfDouble x = .infinity .positive ∨
    ∃ m e hm, partsOfDouble x = .finite .positive m e hm ∧ (2 : ℚ) ^ k ≤ m * 2 ^ e

/-- Whether a double is zero, or positive. -/
def NotNegative (x : Float) : Prop :=
  partsOfDouble x = .zero .positive ∨ AtLeast (-1074) x

theorem Rounded.atLeast {u : UnpackedFloat} (h : Rounded Format.binary64 .positive v u)
    (hk : -1074 ≤ k) (hv : 2 ^ k ≤ v) : AtLeast k (Float.ofModel (Float.Model.pack u)) :=
  h.unpack_pack_above hk hv

theorem Rounded.notNegative {u : UnpackedFloat} (h : Rounded Format.binary64 .positive v u) :
    NotNegative (Float.ofModel (Float.Model.pack u)) := by
  have hparts : partsOfDouble (Float.ofModel (Float.Model.pack u)) =
      UnpackedFloat.unpack Format.binary64 (UnpackedFloat.pack Format.binary64 u) := rfl
  rcases h.unpack_pack_or with hu | hu
  · exact .inr (.inl (hparts.trans hu))
  · cases h with
    | zero => exact .inl (hparts.trans hu)
    | @finite m e hm least lt full below above =>
      exact .inr (.inr ⟨m, e, hm, hparts.trans hu, two_pow_le_value hm least⟩)

/-- A double that is not below the power after the largest is infinite. -/
theorem AtLeast.infinite (h : AtLeast 1024 x) : partsOfDouble x = .infinity .positive := by
  rcases h with hx | ⟨m, e, hm, hx, hv⟩
  · exact hx
  · have hc : Canonical Format.binary64 m e := canonical_of_unpack (by decide) hx
    exact absurd hv hc.value_lt_top.not_ge

theorem AtLeast.ne_zero (h : AtLeast k x) : partsOfDouble x ≠ .zero s := by
  intro hzero
  rcases h with hx | ⟨m, e, hm, hx, -⟩ <;> rw [hzero] at hx <;> cases hx

theorem AtLeast.le_value {hm : 0 < m} (h : AtLeast k x)
    (hfinite : partsOfDouble x = .finite s m e hm) : (2 : ℚ) ^ k ≤ m * 2 ^ e := by
  rcases h with hx | ⟨m, e, hm, hx, hv⟩ <;> rw [hfinite] at hx <;> cases hx
  exact hv

/-- A sum is not below what one of its terms is not below. -/
theorem AtLeast.add (hx : NotNegative x) (hy : NotNegative y) (h : AtLeast k x ∨ AtLeast k y)
    (hk : -1074 ≤ k) : AtLeast k (x + y) := by
  have hparts : x + y = Float.ofModel (Float.Model.pack
      (UnpackedFloat.add Format.binary64 (partsOfDouble x) (partsOfDouble y))) := rfl
  have hinfinite (hsum : UnpackedFloat.add Format.binary64 (partsOfDouble x) (partsOfDouble y) =
      .infinity .positive) : AtLeast k (x + y) := by
    rw [hparts, hsum]
    exact .inl (unpack_packedInfinity .positive)
  rcases hx with hx | hx | ⟨m, e, hm, hx, -⟩
  · -- Zero changes nothing, and it is not the term that is meant.
    have hsame : x + y = y := by
      have hkept : UnpackedFloat.add Format.binary64 (.zero .positive) (partsOfDouble y) =
          partsOfDouble y := by
        rcases hy with hy | hy | ⟨n, f, hn, hy, -⟩ <;> rw [hy] <;> rfl
      rw [hparts, hx, hkept, ofModel_pack_parts]
    rw [hsame]
    exact h.resolve_left fun hterm => hterm.ne_zero hx
  · refine hinfinite ?_
    rw [hx]
    rcases hy with hy | hy | ⟨n, f, hn, hy, -⟩ <;> rw [hy] <;> rfl
  · rcases hy with hy | hy | ⟨n, f, hn, hy, -⟩
    · have hsame : x + y = x := by
        have hkept : UnpackedFloat.add Format.binary64 (partsOfDouble x) (.zero .positive) =
            partsOfDouble x := by
          rw [hx]
          rfl
        rw [hparts, hy, hkept, ofModel_pack_parts]
      rw [hsame]
      exact h.resolve_right fun hterm => hterm.ne_zero hy
    · refine hinfinite ?_
      rw [hx, hy]
      rfl
    · rw [hparts, hx, hy]
      refine (rounded_add hm hn e f).atLeast hk ?_
      have hm' := value_pos hm e
      have hn' := value_pos hn f
      rcases h with hterm | hterm
      · have := hterm.le_value hx
        linarith
      · have := hterm.le_value hy
        linarith

theorem NotNegative.add (hx : NotNegative x) (hy : NotNegative y) : NotNegative (x + y) := by
  rcases hx with hzero | hpos
  · rcases hy with hzero' | hpos
    · refine .inl ?_
      show partsOfDouble (Float.ofModel (Float.Model.pack
        (UnpackedFloat.add Format.binary64 (partsOfDouble x) (partsOfDouble y)))) = _
      rw [hzero, hzero']
      exact partsOfDouble_zero .positive
    · exact .inr (AtLeast.add (.inl hzero) (.inr hpos) (.inr hpos) (by norm_num))
  · exact .inr (AtLeast.add (.inr hpos) hy (.inl hpos) (by norm_num))

/-- A square is rounded from the square of the magnitude. -/
theorem rounded_square {hm : 0 < m} (hx : partsOfDouble x = .finite s m e hm) : ∃ u,
    Rounded Format.binary64 .positive ((m * 2 ^ e) * (m * 2 ^ e)) u ∧
      x * x = Float.ofModel (Float.Model.pack u) := by
  have hc : Canonical Format.binary64 m e := canonical_of_unpack (by decide) hx
  refine ⟨UnpackedFloat.mul Format.binary64 (partsOfDouble x) (partsOfDouble x), ?_, rfl⟩
  rw [hx]
  cases s <;> exact rounded_mul .positive hc hc hm hm

theorem atLeast_square_of_infinity (hx : partsOfDouble x = .infinity s) (k : ℤ) :
    AtLeast k (x * x) := by
  show AtLeast k (Float.ofModel (Float.Model.pack
    (UnpackedFloat.mul Format.binary64 (partsOfDouble x) (partsOfDouble x))))
  rw [hx]
  cases s <;> exact .inl (unpack_packedInfinity .positive)

/-- A square is not negative, unless it is that of no number. -/
theorem NotNegative.square (h : partsOfDouble x ≠ .notANumber) : NotNegative (x * x) := by
  cases hx : partsOfDouble x with
  | notANumber => exact absurd hx h
  | infinity s => exact .inr (atLeast_square_of_infinity hx _)
  | zero s =>
    refine .inl ?_
    show partsOfDouble (Float.ofModel (Float.Model.pack
      (UnpackedFloat.mul Format.binary64 (partsOfDouble x) (partsOfDouble x)))) = _
    rw [hx]
    cases s <;> exact partsOfDouble_zero .positive
  | finite s m e hm =>
    obtain ⟨u, hu, hxx⟩ := rounded_square hx
    rw [hxx]
    exact hu.notNegative

/-- A root is not below a power of two whose square is not above the radicand. -/
theorem AtLeast.sqrt (h : AtLeast (2 * k) x) (hk : -1074 ≤ k) : AtLeast k x.sqrt := by
  show AtLeast k (Float.ofModel (Float.Model.pack
    (UnpackedFloat.sqrt Format.binary64 (partsOfDouble x))))
  rcases h with hx | ⟨m, e, hm, hx, hv⟩ <;> rw [hx]
  · exact .inl (unpack_packedInfinity .positive)
  · obtain ⟨v, hv, hrounded⟩ := @rounded_sqrt Format.binary64 _ _ _ hm hv
    exact hrounded.atLeast hk hv

/-! ## Products of finite doubles -/

/-- The double that is packed from what is rounded is a number, though it may be infinite. -/
theorem Rounded.double_cases {u : UnpackedFloat} (h : Rounded Format.binary64 s v u)
    (hx : x = Float.ofModel (Float.Model.pack u)) :
    x.isFinite = true ∨ ∃ s, partsOfDouble x = .infinity s := by
  subst hx
  rcases h.unpack_pack_or with hu | hu
  · exact .inr ⟨s, hu⟩
  · refine .inl ((congrArg UnpackedFloat.isFinite hu).trans ?_)
    cases h <;> rfl

/-- Zero times a finite double is zero. -/
theorem within_zero_mul (hx : partsOfDouble x = .zero s) (hy : y.isFinite = true) (k : Nat) :
    Within k (x * y) := by
  show Within k (Float.ofModel (Float.Model.pack
    (UnpackedFloat.mul Format.binary64 (partsOfDouble x) (partsOfDouble y))))
  rcases parts_of_isFinite hy with ⟨t, hq⟩ | ⟨t, n, f, hn, hq, -⟩ <;> rw [hx, hq] <;>
    exact within_of_zero (partsOfDouble_zero _)

theorem within_mul_zero (hx : x.isFinite = true) (hy : partsOfDouble y = .zero s) (k : Nat) :
    Within k (x * y) := by
  show Within k (Float.ofModel (Float.Model.pack
    (UnpackedFloat.mul Format.binary64 (partsOfDouble x) (partsOfDouble y))))
  rcases parts_of_isFinite hx with ⟨t, hp⟩ | ⟨t, m, e, hm, hp, -⟩ <;> rw [hp, hy] <;>
    exact within_of_zero (partsOfDouble_zero _)

/-- A product of finite doubles is a number. -/
theorem mul_cases (hx : x.isFinite = true) (hy : y.isFinite = true) :
    (x * y).isFinite = true ∨ ∃ s, partsOfDouble (x * y) = .infinity s := by
  rcases parts_of_isFinite hx with ⟨s, hp⟩ | ⟨s, m, e, hm, hp, hc⟩
  · exact .inl (within_zero_mul hp hy 0).isFinite
  · rcases parts_of_isFinite hy with ⟨t, hq⟩ | ⟨t, n, f, hn, hq, hd⟩
    · exact .inl (within_mul_zero hx hq 0).isFinite
    · have hround : Rounded Format.binary64 (s * t) ((m * 2 ^ e) * (n * 2 ^ f))
          (UnpackedFloat.mul Format.binary64 (partsOfDouble x) (partsOfDouble y)) := by
        rw [hp, hq]
        exact rounded_mul (s * t) hc hd hm hn
      exact hround.double_cases rfl

/-! ## Lengths -/

/-- The squares of some doubles, added to a start. -/
def squares (start : Float) (xs : List Float) : Float :=
  xs.foldl (fun sum x => sum + x * x) start

/-- The length of a vector of doubles. -/
def lengthOf (xs : List Float) : Float :=
  (squares 0 xs).sqrt

/-- A sum of squares is not negative, and not below what one of its terms is not below. -/
theorem squares_spec (hz : NotNegative z) (h : ∀ x ∈ xs, partsOfDouble x ≠ .notANumber) :
    NotNegative (squares z xs) ∧ ∀ k, -1074 ≤ k →
      (AtLeast k z ∨ ∃ x ∈ xs, AtLeast k (x * x)) → AtLeast k (squares z xs) := by
  induction xs generalizing z with
  | nil => exact ⟨hz, fun k _ hsome => hsome.resolve_right fun ⟨x, hx, _⟩ => List.not_mem_nil hx⟩
  | cons x rest ih =>
    obtain ⟨hx, hrest⟩ := List.forall_mem_cons.1 h
    obtain ⟨hsum, hlow⟩ := ih (hz.add (.square hx)) hrest
    refine ⟨hsum, fun k hk hsome => hlow k hk ?_⟩
    rcases hsome with hstart | ⟨y, hy, hsquare⟩
    · exact .inl (.add hz (.square hx) (.inl hstart) hk)
    · rcases List.mem_cons.1 hy with rfl | hy
      · exact .inl (.add hz (.square hx) (.inr hsquare) hk)
      · exact .inr ⟨y, hy, hsquare⟩

theorem notNegative_zero : NotNegative 0 :=
  .inl rfl

/-- What is not above twice a power of two is not above two if it is divided by what is not below
that power. -/
theorem AtLeast.within_div {hm : 0 < m} (h : AtLeast k y)
    (hx : partsOfDouble x = .finite s m e hm) (hv : (m : ℚ) * 2 ^ e ≤ 2 ^ (k + 1)) :
    Within 1 (x / y) := by
  show Within 1 (Float.ofModel (Float.Model.pack
    (UnpackedFloat.div Format.binary64 (partsOfDouble x) (partsOfDouble y))))
  rcases h with hy | ⟨n, f, hn, hy, hlow⟩ <;> rw [hx, hy]
  · exact within_of_zero (partsOfDouble_zero _)
  · refine (rounded_div s .positive hm hn e f).within ?_ (by norm_num)
    rw [div_le_iff₀ (value_pos hn f)]
    rw [zpow_add_one₀ (by norm_num), mul_comm] at hv
    linarith

/-- A length is positive only if the squares are not zero altogether, and then it is no less than the
root of the least double. -/
theorem atLeast_lengthOf (h : ∀ x ∈ xs, partsOfDouble x ≠ .notANumber) (hpos : 0 < lengthOf xs) :
    AtLeast (-537) (lengthOf xs) := by
  rcases (squares_spec notNegative_zero h).1 with hzero | hsum
  · exfalso
    have hparts : partsOfDouble (lengthOf xs) = .zero .positive := by
      show partsOfDouble (Float.ofModel (Float.Model.pack
        (UnpackedFloat.sqrt Format.binary64 (partsOfDouble (squares 0 xs))))) = _
      rw [hzero]
      exact partsOfDouble_zero .positive
    have hlt : UnpackedFloat.lt (partsOfDouble 0) (partsOfDouble (lengthOf xs)) = true :=
      of_decide_eq_true hpos
    rw [hparts] at hlt
    cases hlt
  · exact AtLeast.sqrt (k := -537) hsum (by norm_num)

/-- A finite member divided by the length is not above two. -/
theorem within_div_lengthOf (h : ∀ x ∈ xs, partsOfDouble x ≠ .notANumber)
    (hpos : 0 < lengthOf xs) (hx : x ∈ xs) (hfinite : x.isFinite = true) :
    Within 1 (x / lengthOf xs) := by
  have hleast := atLeast_lengthOf h hpos
  rcases parts_of_isFinite hfinite with ⟨s, hp⟩ | ⟨s, m, e, hm, hp, hc⟩
  · show Within 1 (Float.ofModel (Float.Model.pack
      (UnpackedFloat.div Format.binary64 (partsOfDouble x) (partsOfDouble (lengthOf xs)))))
    rcases hleast with hy | ⟨n, f, hn, hy, -⟩ <;> rw [hp, hy] <;>
      exact within_of_zero (partsOfDouble_zero _)
  · have hhigh := lt_totalExponent m e
    have hlow := totalExponent_le hm e
    have hv : (m : ℚ) * 2 ^ e ≤ 2 ^ totalExponent m e := by
      have := zpow_two_pos e
      linarith
    rcases le_or_gt (totalExponent m e) (-536) with hsmall | hlarge
    · -- The square may be lost, but the member is too small for that to matter.
      exact hleast.within_div hp (hv.trans (zpow_two_le.2 (by omega)))
    · obtain ⟨u, hu, hsquare⟩ := rounded_square hp
      have hsome : AtLeast (2 * (totalExponent m e - 1)) (x * x) := by
        rw [hsquare]
        refine hu.atLeast (by omega) ?_
        rw [two_mul, zpow_add₀ (by norm_num)]
        exact mul_le_mul hlow hlow (zpow_two_pos _).le (value_pos hm e).le
      have hsum := (squares_spec notNegative_zero h).2 _ (by omega) (.inr ⟨x, hx, hsome⟩)
      refine (hsum.sqrt (by omega)).within_div hp ?_
      rwa [sub_add_cancel]

/-- An infinite member makes the length infinite, and divided by it is no number. -/
theorem div_lengthOf_of_infinity (h : ∀ x ∈ xs, partsOfDouble x ≠ .notANumber) (hx : x ∈ xs)
    (hinf : partsOfDouble x = .infinity s) :
    0 < lengthOf xs ∧ partsOfDouble (x / lengthOf xs) = .notANumber := by
  have hsum := (squares_spec notNegative_zero h).2 (2 * 1024) (by norm_num)
    (.inr ⟨x, hx, atLeast_square_of_infinity hinf _⟩)
  have hlength := (hsum.sqrt (by norm_num)).infinite
  constructor
  · have hlt : UnpackedFloat.lt (partsOfDouble 0) (partsOfDouble (lengthOf xs)) = true := by
      rw [show partsOfDouble (lengthOf xs) = _ from hlength]
      rfl
    exact decide_eq_true hlt
  · have hparts : partsOfDouble (x / lengthOf xs) = UnpackedFloat.unpack Format.binary64
        (UnpackedFloat.pack Format.binary64 (UnpackedFloat.div Format.binary64 (partsOfDouble x)
          (partsOfDouble (lengthOf xs)))) := rfl
    rw [hparts, show partsOfDouble (lengthOf xs) = _ from hlength, hinf]
    cases s <;> rfl

end Triage.Number
