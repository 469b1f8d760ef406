/-
Singles by their magnitudes. The largest of some magnitudes is that of a member that no other exceeds.
Its hundred and twenty-seventh part is rounded to zero if it is less than 64 times the least single;
if it is not, the part goes into it 64 times at least, and so its quotient by the part is kept as a
byte that is not zero.
-/
import Triage.Proofs.Number.Finite
import Triage.Proofs.Number.Value

namespace Triage.Number

open Float.Model UnpackedFloat

variable {x y : Float32} {xs : List Float32} {m : Nat} {e : ℤ} {s : Sign}

/-! ## Magnitudes -/

/-- The magnitude of a finite single. -/
def magnitude (x : Float32) : ℚ :=
  match partsOfSingle x with
  | .finite _ m e _ => m * 2 ^ e
  | _ => 0

theorem magnitude_of_zero (h : partsOfSingle x = .zero s) : magnitude x = 0 := by
  unfold magnitude
  rw [h]

theorem magnitude_of_finite {hm : 0 < m} (h : partsOfSingle x = .finite s m e hm) :
    magnitude x = m * 2 ^ e := by
  unfold magnitude
  rw [h]

/-- The parts of a finite single with their magnitude. -/
theorem single_cases (h : x.isFinite = true) :
    (∃ s, partsOfSingle x = .zero s ∧ magnitude x = 0) ∨
      ∃ s m e hm, partsOfSingle x = .finite s m e hm ∧ Canonical Format.binary32 m e ∧
        magnitude x = m * 2 ^ e := by
  rcases single_parts h with ⟨s, hp⟩ | ⟨s, m, e, hm, hp, hc⟩
  · exact .inl ⟨s, hp, magnitude_of_zero hp⟩
  · exact .inr ⟨s, m, e, hm, hp, hc, magnitude_of_finite hp⟩

/-- The parts of a single that has a magnitude. -/
theorem parts_of_magnitude (h : 0 < magnitude x) : ∃ s m e hm,
    partsOfSingle x = .finite s m e hm ∧ Canonical Format.binary32 m e ∧
      magnitude x = m * 2 ^ e := by
  unfold magnitude at h
  split at h
  · rename_i s m e hm hp
    exact ⟨s, m, e, hm, hp, canonical_of_unpack (by decide) hp, magnitude_of_finite hp⟩
  · exact absurd h (lt_irrefl 0)

/-- Magnitudes are compared as singles. -/
theorem abs_lt_abs (hx : x.isFinite = true) (hy : y.isFinite = true) :
    x.abs < y.abs ↔ magnitude x < magnitude y := by
  rw [lt_iff, partsOfSingle_abs, partsOfSingle_abs]
  rcases single_cases hx with ⟨s, hp, hu⟩ | ⟨s, m, e, hm, hp, hc, hu⟩ <;>
    rcases single_cases hy with ⟨t, hq, hv⟩ | ⟨t, n, f, hn, hq, hd, hv⟩ <;> rw [hp, hq, hu, hv]
  · exact ⟨nofun, fun h => absurd h (lt_irrefl 0)⟩
  · exact ⟨fun _ => value_pos hn f, fun _ => rfl⟩
  · exact ⟨nofun, fun h => absurd h (value_pos hm e).le.not_gt⟩
  · show UnpackedFloat.compare (.finite .positive m e hm) (.finite .positive n f hn) = _ ↔ _
    rw [compare_canonical hc hd, Option.some_inj, compare_lt_iff_lt]

theorem abs_pos_iff (hx : x.isFinite = true) : 0 < x.abs ↔ 0 < magnitude x :=
  abs_lt_abs (x := 0) (by decide) hx

/-- The larger of two magnitudes. -/
theorem larger_abs (hx : x.isFinite = true) (hy : y.isFinite = true) :
    larger x.abs y.abs = if magnitude x < magnitude y then y.abs else x.abs := by
  rw [larger_of_numbers ((isNaN_abs x).trans (isNaN_of_isFinite hx))
    ((isNaN_abs y).trans (isNaN_of_isFinite hy))]
  simp only [abs_lt_abs hx hy]

/-- The largest of some magnitudes is that of one that no other exceeds. -/
theorem largest_abs (hx : x.isFinite = true) (h : ∀ y ∈ xs, y.isFinite = true) :
    ∃ z ∈ x :: xs, (xs.map Float32.abs).foldl larger x.abs = z.abs ∧
      ∀ y ∈ x :: xs, magnitude y ≤ magnitude z := by
  induction xs generalizing x with
  | nil => exact ⟨x, List.mem_singleton_self x, rfl, List.forall_mem_singleton.2 (le_refl _)⟩
  | cons y rest ih =>
    obtain ⟨hy, hrest⟩ := List.forall_mem_cons.1 h
    rw [List.map_cons, List.foldl_cons, larger_abs hx hy]
    split
    · rename_i hlt
      obtain ⟨z, hz, hfold, hmost⟩ := ih hy hrest
      refine ⟨z, List.mem_cons_of_mem x hz, hfold, List.forall_mem_cons.2 ⟨?_, hmost⟩⟩
      exact hlt.le.trans (hmost y List.mem_cons_self)
    · rename_i hle
      obtain ⟨z, hz, hfold, hmost⟩ := ih hx hrest
      obtain ⟨hxz, hmost⟩ := List.forall_mem_cons.1 hmost
      refine ⟨z, ?_, hfold, List.forall_mem_cons.2 ⟨hxz, List.forall_mem_cons.2 ⟨?_, hmost⟩⟩⟩
      · exact (List.mem_cons.1 hz).elim (fun hzx => hzx ▸ List.mem_cons_self) fun hz =>
          List.mem_cons_of_mem x (List.mem_cons_of_mem y hz)
      · exact (not_lt.1 hle).trans hxz

/-! ## The part of a magnitude -/

/-- A magnitude divided by 127 is rounded from its hundred and twenty-seventh part. -/
theorem nearest_part {hm : 0 < m} (h : partsOfSingle x = .finite s m e hm) :
    ∃ u, Nearest Format.binary32 .positive (magnitude x / 127) u ∧
      x.abs / 127 = Float32.ofModel (Float32.Model.pack u) := by
  refine ⟨UnpackedFloat.div Format.binary32 (partsOfSingle x.abs) (partsOfSingle 127), ?_, rfl⟩
  rw [partsOfSingle_abs, h, partsOfSingle_127, magnitude_of_finite h, ← value_127]
  exact nearest_div .positive .positive hm (by decide) e (-17)

/-- Sixty-four times the least single is `2^-143`. -/
theorem abs_lt_iff (hx : x.isFinite = true) :
    x.abs < Float32.ofBits 64 ↔ magnitude x < 2 ^ (-143 : ℤ) := by
  have hparts : partsOfSingle (Float32.ofBits 64) = .finite .positive 64 (-149) (by decide) := rfl
  have hvalue : magnitude (Float32.ofBits 64) = 2 ^ (-143 : ℤ) := by
    rw [magnitude_of_finite hparts]
    norm_num
  rw [← hvalue]
  exact abs_lt_abs (y := Float32.ofBits 64) hx (by decide)

/-- The part of a magnitude below 64 times the least is less than half of the least. -/
theorem part_eq_zero (hx : x.isFinite = true) (h : magnitude x < 2 ^ (-143 : ℤ)) :
    x.abs / 127 = 0 := by
  rcases single_cases hx with ⟨s, hp, -⟩ | ⟨s, m, e, hm, hp, hc, hv⟩
  · have habs : x.abs = 0 := by
      rw [← single_ofModel_pack_parts x.abs, partsOfSingle_abs, hp]
      rfl
    rw [habs]
    decide
  · have hpos := zpow_two_pos (-149)
    have hsplit : (2 : ℚ) ^ (-143 : ℤ) = 64 * 2 ^ (-149 : ℤ) := by norm_num
    rw [hv] at h
    -- Such a magnitude is a whole number of the least ones, 63 at most.
    have hleast : e = -149 := by
      refine hc.full.resolve_left fun hfull => ?_
      have hlong : (2 : ℚ) ^ 23 ≤ m := by exact_mod_cast hfull
      have hplace : (2 : ℚ) ^ (-149 : ℤ) ≤ 2 ^ e := zpow_two_le.2 hc.least
      have := mul_le_mul hlong hplace hpos.le (by positivity)
      linarith
    subst hleast
    have hshort : m ≤ 63 := by
      rw [hsplit] at h
      exact Nat.lt_succ_iff.1 (by exact_mod_cast lt_of_mul_lt_mul_right h hpos.le)
    have hcast : (m : ℚ) ≤ 63 := by exact_mod_cast hshort
    obtain ⟨u, hu, hpart⟩ := nearest_part hp
    have hhalf : magnitude x / 127 < 2 ^ Format.binary32.minExponent / 2 := by
      rw [hv, div_lt_div_iff₀ (by norm_num) (by norm_num)]
      show (m : ℚ) * 2 ^ (-149 : ℤ) * 2 < 2 ^ (-149 : ℤ) * 127
      nlinarith
    rw [hpart, hu.eq_zero hhalf]
    rfl

/-- The part of any other magnitude is positive, and goes into it 64 times. -/
theorem part_pos (h : 2 ^ (-143 : ℤ) ≤ magnitude x) :
    0 < x.abs / 127 ∧ 0 < magnitude (x.abs / 127) ∧
      64 * magnitude (x.abs / 127) ≤ magnitude x := by
  obtain ⟨s, m, e, hm, hp, hc, hv⟩ := parts_of_magnitude (lt_of_lt_of_le (zpow_two_pos _) h)
  have hsplit : (2 : ℚ) ^ (-143 : ℤ) = 64 * 2 ^ Format.binary32.minExponent := by
    show _ = 64 * (2 : ℚ) ^ (-149 : ℤ)
    norm_num
  have hpos := zpow_two_pos Format.binary32.minExponent
  rw [hsplit] at h
  obtain ⟨u, hu, hpart⟩ := nearest_part hp
  have hrounded := hu.rounded
  cases u with
  | notANumber => cases hu
  | infinity t => cases hu
  | zero t =>
    exfalso
    cases hrounded with
    | zero small =>
      rw [div_le_div_iff₀ (by norm_num) (by norm_num)] at small
      linarith
  | finite t n f hn =>
    obtain rfl : Sign.positive = t := by cases hu; rfl
    have hvalue : 64 * ((n : ℚ) * 2 ^ f) ≤ magnitude x := by
      rcases le_or_gt (magnitude x / 127) (2 ^ Format.binary32.minExponent) with hle | hgt
      · cases hrounded with
        | finite least lt full below above =>
          have := below _ (le_refl _) hle
          linarith
      · have := hu.le_of_least hgt.le
        linarith
    have hparts : partsOfSingle (x.abs / 127) = .finite .positive n f hn := by
      rw [hpart]
      exact unpack_pack (hrounded.canonical (by decide) (hv ▸ hc.part_le))
    rw [lt_iff, magnitude_of_finite hparts, hparts]
    exact ⟨rfl, value_pos hn f, hvalue⟩

/-! ## Products -/

theorem partsOfSingle_one :
    partsOfSingle 1 = .finite .positive 8388608 (-23) (by decide) :=
  rfl

theorem magnitude_one : magnitude 1 = 1 := by
  rw [magnitude_of_finite partsOfSingle_one]
  norm_num

/-- One times a finite single is the single. -/
theorem one_mul_eq (hx : x.isFinite = true) : 1 * x = x := by
  have hsame : UnpackedFloat.mul Format.binary32 (partsOfSingle 1) (partsOfSingle x) =
      partsOfSingle x := by
    rw [partsOfSingle_one]
    rcases single_cases hx with ⟨s, hp, -⟩ | ⟨s, m, e, hm, hp, hc, -⟩ <;> rw [hp]
    · cases s <;> rfl
    · have hvalue : ((8388608 * m : ℕ) : ℚ) * 2 ^ (-23 + e) = m * 2 ^ e := by
        rw [zpow_add₀ (by norm_num)]
        push_cast
        ring
      have hnear : Near Format.binary32 m e (((8388608 * m : ℕ) : ℚ) * 2 ^ (-23 + e)) :=
        hvalue ▸ near_self m e
      have hround : roundWithAccuracy Format.binary32 s (8388608 * m) (-23 + e) .exact =
          .finite s m e hm := roundWithAccuracy_exact hc hnear (Nat.le_mul_of_pos_right _ hm)
      cases s <;> exact hround
  show Float32.ofModel (Float32.Model.pack (UnpackedFloat.mul Format.binary32 (partsOfSingle 1)
    (partsOfSingle x))) = x
  rw [hsame, single_ofModel_pack_parts]

/-- A product is not zero if one factor is not below one and the other is not zero. -/
theorem abs_mul_pos (hx : 1 ≤ magnitude x) (hy : 0 < magnitude y) : 0 < (x * y).abs := by
  obtain ⟨s, m, e, hm, hp, hc, hu⟩ := parts_of_magnitude (lt_of_lt_of_le one_pos hx)
  obtain ⟨t, n, f, hn, hq, hd, hv⟩ := parts_of_magnitude hy
  have hleast : (2 : ℚ) ^ Format.binary32.minExponent ≤ (m * 2 ^ e) * (n * 2 ^ f) := by
    rw [← hu]
    exact (two_pow_le_value hn hd.least).trans (le_mul_of_one_le_left (value_pos hn f).le hx)
  have hparts : partsOfSingle (x * y) = UnpackedFloat.unpack Format.binary32 (UnpackedFloat.pack
      Format.binary32 (UnpackedFloat.mul Format.binary32 (partsOfSingle x) (partsOfSingle y))) :=
    rfl
  rw [hp, hq] at hparts
  rw [lt_iff, partsOfSingle_abs, hparts]
  rcases (rounded_mul (s * t) hc hd hm hn).unpack_pack_cases hleast with hinf | ⟨k, g, hk, hfin⟩
  · exact (congrArg (fun u => UnpackedFloat.compare (partsOfSingle 0) u.abs) hinf).trans rfl
  · exact (congrArg (fun u => UnpackedFloat.compare (partsOfSingle 0) u.abs) hfin).trans rfl

/-- Nothing is left of a finite single that is multiplied by zero. -/
theorem abs_mul_zero (hx : x.isFinite = true) : (x * 0).abs = 0 := by
  have hparts : ∃ t, UnpackedFloat.mul Format.binary32 (partsOfSingle x) (partsOfSingle 0) =
      .zero t := by
    rw [partsOfSingle_zero]
    rcases single_cases hx with ⟨s, hp, -⟩ | ⟨s, m, e, hm, hp, -, -⟩ <;> rw [hp] <;>
      exact ⟨_, rfl⟩
  obtain ⟨t, ht⟩ := hparts
  show (Float32.ofModel (Float32.Model.pack (UnpackedFloat.mul Format.binary32 (partsOfSingle x)
    (partsOfSingle 0)))).abs = 0
  rw [ht]
  cases t <;> rfl

/-! ## Bytes -/

theorem toInt_ofNat {n : Nat} (h : n ≤ 127) : (Int8.ofNat n).toInt = n :=
  Int8.toInt_ofNat_of_lt (by omega)

theorem toInt_neg_ofNat {n : Nat} (h : n ≤ 127) : (-Int8.ofNat n).toInt = -(n : ℤ) := by
  have hall : ∀ n < 128, (-Int8.ofNat n).toInt = -(n : ℤ) := by decide
  exact hall n (by omega)

/-- The magnitude of the byte of a finite single. -/
theorem natAbs_toInt8 {hm : 0 < m} (h : partsOfSingle x = .finite s m e hm) :
    (toInt8 x).toInt.natAbs = min 127 (nearestOf 8 m e) := by
  unfold toInt8
  rw [h]
  cases s with
  | negative =>
    simp only
    rw [toInt_neg_ofNat (Nat.min_le_left ..), Int.natAbs_neg, Int.natAbs_natCast]
  | positive =>
    simp only
    rw [toInt_ofNat (Nat.min_le_left ..), Int.natAbs_natCast]

theorem natAbs_toInt8_of_infinity (h : partsOfSingle x = .infinity s) :
    (toInt8 x).toInt.natAbs = 127 := by
  unfold toInt8
  rw [h]
  cases s <;> rfl

/-- No byte is beyond 127. -/
theorem natAbs_toInt8_le (x : Float32) : (toInt8 x).toInt.natAbs ≤ 127 := by
  cases h : partsOfSingle x with
  | notANumber =>
    rw [toInt8_of_isNaN h]
    decide
  | zero s =>
    rw [toInt8_of_zero h]
    decide
  | infinity s => exact (natAbs_toInt8_of_infinity h).le
  | finite s m e hm => exact (natAbs_toInt8 h).trans_le (Nat.min_le_left ..)

/-- A natural number within the limit that is not above a real is not above what the real is rounded
to. -/
theorem le_nearestOf {limit k : Nat} (hk : k ≤ 2 ^ limit) (h : (k : ℚ) ≤ m * 2 ^ e) :
    k ≤ nearestOf limit m e := by
  unfold nearestOf
  split
  · rename_i he
    obtain ⟨n, rfl⟩ := Int.eq_ofNat_of_zero_le he
    rw [Int.toNat_natCast]
    split
    · rw [Nat.shiftLeft_eq]
      rw [zpow_natCast] at h
      exact_mod_cast h
    · rwa [Nat.shiftLeft_eq, Nat.one_mul]
  · rename_i he
    obtain ⟨n, rfl⟩ : ∃ n : Nat, e = -n := ⟨(-e).toNat, by omega⟩
    have hscaled : k * 2 ^ n ≤ m := by
      rw [zpow_neg, zpow_natCast, ← div_eq_mul_inv, le_div_iff₀ (by positivity)] at h
      exact_mod_cast h
    rw [neg_neg, Int.toNat_natCast, Nat.shiftRight_eq_div_pow, Nat.shiftRight_eq_div_pow,
      Nat.shiftLeft_eq, Nat.le_div_iff_mul_le (by norm_num)]
    have htwice : k * 2 ≤ m * 2 ^ 1 / 2 ^ n := by
      rw [Nat.le_div_iff_mul_le (Nat.two_pow_pos n)]
      linarith
    omega

/-- The byte of a quotient that is not below 64 is not below 64. -/
theorem toInt8_div (hy : 0 < magnitude y) (h : 64 * magnitude y ≤ magnitude x) :
    64 ≤ (toInt8 (x / y)).toInt.natAbs := by
  obtain ⟨s, m, e, hm, hp, -, hu⟩ := parts_of_magnitude
    (lt_of_lt_of_le (mul_pos (by norm_num) hy) h)
  obtain ⟨t, n, f, hn, hq, -, hv⟩ := parts_of_magnitude hy
  have hquotient : (2 : ℚ) ^ (6 : ℤ) ≤ (m * 2 ^ e) / (n * 2 ^ f) := by
    rw [← hu, ← hv, le_div_iff₀ hy]
    exact (show (2 : ℚ) ^ (6 : ℤ) = 64 by norm_num) ▸ h
  have hparts := partsOfSingle_div x y
  rw [hp, hq] at hparts
  rcases (@rounded_div Format.binary32 s t _ _ hm hn e f).unpack_pack_above (by decide)
    hquotient with hinf | ⟨k, g, hk, hfin, hvalue⟩
  · rw [natAbs_toInt8_of_infinity (hparts.trans hinf)]
    decide
  · rw [natAbs_toInt8 (hparts.trans hfin)]
    refine le_min (by decide) (le_nearestOf (by decide) ?_)
    exact (show ((64 : ℕ) : ℚ) = 2 ^ (6 : ℤ) by norm_num).trans_le hvalue

/-- Whatever is not zero is kept as the greatest byte if it is divided by zero. -/
theorem toInt8_div_zero (hx : 0 < magnitude x) : (toInt8 (x / 0)).toInt.natAbs = 127 := by
  obtain ⟨s, m, e, hm, hp, -, -⟩ := parts_of_magnitude hx
  refine natAbs_toInt8_of_infinity (s := s / .positive) ?_
  rw [partsOfSingle_div, hp, partsOfSingle_zero]
  exact unpack_packedInfinity _

end Triage.Number
