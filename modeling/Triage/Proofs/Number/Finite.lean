/-
Singles that are finite, infinite, or no number. The larger of two singles is one of them, and never
one that is no number if the other is a number; infinity is not lost once it was met. So the largest
of some magnitudes is infinite just if one of them is, whatever else is no number among them: that
gives way like a zero would. What is finite stays so if it is divided by 127, and zero stays zero if
it is divided by a natural number.
-/
import Triage.Proofs.Number.Zero

namespace Triage.Number

open Float.Model UnpackedFloat

variable {x y : Float32} {xs : List Float32} {s : Sign} {v : ℚ}

/-! ## Kinds -/

theorem isFinite_eq (x : Float32) : x.isFinite = (partsOfSingle x).isFinite :=
  rfl

theorem isNaN_eq (x : Float32) : x.isNaN = (partsOfSingle x).isNaN :=
  rfl

theorem isNaN_of_isFinite (h : x.isFinite = true) : x.isNaN = false := by
  rw [isFinite_eq] at h
  rw [isNaN_eq]
  cases hx : partsOfSingle x with
  | notANumber =>
    rw [hx] at h
    cases h
  | _ => rfl

/-- An entry, or what stands in for one that is missing, is of the kind of all others. -/
theorem getD_of_all {α : Type} {p : α → Prop} {a : Array α} {d : α} (h : ∀ x ∈ a, p x)
    (hd : p d) (i : Nat) : p (a.getD i d) := by
  rw [Array.getD_eq_getD_getElem?]
  cases hx : a[i]? with
  | none => exact hd
  | some x => exact h x (Array.mem_of_getElem? hx)

/-- The parts of a finite single. -/
theorem single_parts (h : x.isFinite = true) : (∃ s, partsOfSingle x = .zero s) ∨
    ∃ s m e hm, partsOfSingle x = .finite s m e hm ∧ Canonical Format.binary32 m e := by
  rw [isFinite_eq] at h
  cases hp : partsOfSingle x with
  | notANumber =>
    rw [hp] at h
    cases h
  | infinity s =>
    rw [hp] at h
    cases h
  | zero s => exact .inl ⟨s, rfl⟩
  | finite s m e hm => exact .inr ⟨s, m, e, hm, rfl, canonical_of_unpack (by decide) hp⟩

/-- What is neither finite nor no number is infinite. -/
theorem infinite_of_not (hx : x.isFinite = false) (hn : x.isNaN = false) :
    ∃ s, partsOfSingle x = .infinity s := by
  rw [isFinite_eq] at hx
  rw [isNaN_eq] at hn
  cases h : partsOfSingle x with
  | notANumber =>
    rw [h] at hn
    cases hn
  | infinity s => exact ⟨s, rfl⟩
  | _ =>
    rw [h] at hx
    cases hx

/-- The parts of a magnitude. -/
theorem partsOfSingle_abs (x : Float32) : partsOfSingle x.abs = (partsOfSingle x).abs := by
  show UnpackedFloat.unpack Format.binary32 (UnpackedFloat.pack Format.binary32
    (partsOfSingle x).abs) = _
  cases h : partsOfSingle x with
  | notANumber => exact unpack_packedNaN
  | infinity s => exact unpack_packedInfinity .positive
  | zero s => exact unpack_packedZero .positive
  | finite s m e hm => exact unpack_pack (canonical_of_unpack (by decide) h)

theorem isFinite_abs (x : Float32) : x.abs.isFinite = x.isFinite := by
  rw [isFinite_eq, isFinite_eq, partsOfSingle_abs]
  cases partsOfSingle x <;> rfl

theorem isNaN_abs (x : Float32) : x.abs.isNaN = x.isNaN := by
  rw [isNaN_eq, isNaN_eq, partsOfSingle_abs]
  cases partsOfSingle x <;> rfl

/-! ## The larger of two -/

/-- Whether a single is positive infinity. -/
def IsInfinity (x : Float32) : Prop :=
  partsOfSingle x = .infinity .positive

theorem IsInfinity.isNaN (h : IsInfinity x) : x.isNaN = false := by
  rw [isNaN_eq, h]
  rfl

theorem larger_of_isNaN (hx : x.isNaN = false) (hy : y.isNaN = true) : larger x y = x := by
  unfold larger
  rw [if_neg (by rw [hx]; exact Bool.false_ne_true), if_pos hy]

theorem larger_of_numbers (hx : x.isNaN = false) (hy : y.isNaN = false) :
    larger x y = if x < y then y else x := by
  unfold larger
  rw [if_neg (by rw [hx]; exact Bool.false_ne_true), if_neg (by rw [hy]; exact Bool.false_ne_true)]

theorem isNaN_larger (hx : x.isNaN = false) (y : Float32) : (larger x y).isNaN = false := by
  cases hy : y.isNaN with
  | true => rwa [larger_of_isNaN hx hy]
  | false =>
    rw [larger_of_numbers hx hy]
    split
    · exact hy
    · exact hx

theorem isFinite_larger (hx : x.isFinite = true) (hy : y.isFinite = true ∨ y.isNaN = true) :
    (larger x y).isFinite = true := by
  have hnumber := isNaN_of_isFinite hx
  rcases hy with hy | hy
  · rw [larger_of_numbers hnumber (isNaN_of_isFinite hy)]
    split
    · exact hy
    · exact hx
  · rwa [larger_of_isNaN hnumber hy]

theorem lt_iff (x y : Float32) :
    x < y ↔ (partsOfSingle x).compare (partsOfSingle y) = some .lt := by
  show Float32.lt x y = true ↔ _
  unfold Float32.lt
  rw [decide_eq_true_iff]
  exact beq_iff_eq

/-- Infinity is not below anything. -/
theorem IsInfinity.larger_left (h : IsInfinity x) (y : Float32) : IsInfinity (larger x y) := by
  cases hy : y.isNaN with
  | true => rwa [larger_of_isNaN h.isNaN hy]
  | false =>
    rw [larger_of_numbers h.isNaN hy, if_neg]
    · exact h
    · rw [lt_iff, h]
      cases partsOfSingle y with
      | infinity s => cases s <;> exact nofun
      | _ => exact nofun

/-- Every other number is below infinity. -/
theorem IsInfinity.larger_right (h : IsInfinity y) (hx : x.isNaN = false) :
    IsInfinity (larger x y) := by
  rw [larger_of_numbers hx h.isNaN]
  split
  · exact h
  · rename_i hlt
    rw [lt_iff, h] at hlt
    rw [isNaN_eq] at hx
    unfold IsInfinity
    cases hp : partsOfSingle x with
    | notANumber =>
      rw [hp] at hx
      cases hx
    | infinity s =>
      cases s with
      | positive => rfl
      | negative =>
        rw [hp] at hlt
        exact absurd rfl hlt
    | _ =>
      rw [hp] at hlt
      exact absurd rfl hlt

/-! ## The largest of several -/

theorem isFinite_largest (hx : x.isFinite = true)
    (h : ∀ y ∈ xs, y.isFinite = true ∨ y.isNaN = true) : (xs.foldl larger x).isFinite = true := by
  induction xs generalizing x with
  | nil => exact hx
  | cons y rest ih =>
    obtain ⟨hy, hrest⟩ := List.forall_mem_cons.1 h
    exact ih (isFinite_larger hx hy) hrest

theorem IsInfinity.largest_left (h : IsInfinity x) : IsInfinity (xs.foldl larger x) := by
  induction xs generalizing x with
  | nil => exact h
  | cons y rest ih => exact ih (h.larger_left y)

theorem isInfinity_largest (hx : x.isNaN = false) (h : ∃ y ∈ xs, IsInfinity y) :
    IsInfinity (xs.foldl larger x) := by
  induction xs generalizing x with
  | nil =>
    obtain ⟨y, hy, -⟩ := h
    cases hy
  | cons z rest ih =>
    obtain ⟨y, hy, hinf⟩ := h
    rcases List.mem_cons.1 hy with rfl | hy
    · exact (hinf.larger_right hx).largest_left
    · exact ih (isNaN_larger hx z) ⟨y, hy, hinf⟩

/-! ## Quotients -/

theorem Rounded.single_isFinite {u : UnpackedFloat} {v : ℚ} (h : Rounded Format.binary32 s v u)
    (hv : v ≤ 2 ^ (127 : ℤ)) : (Float32.ofModel (Float32.Model.pack u)).isFinite = true := by
  have hparts : partsOfSingle (Float32.ofModel (Float32.Model.pack u)) =
      UnpackedFloat.unpack Format.binary32 (UnpackedFloat.pack Format.binary32 u) := rfl
  rw [isFinite_eq, hparts]
  cases u with
  | notANumber => cases h
  | infinity t => cases h
  | zero t =>
    rw [show UnpackedFloat.pack Format.binary32 (.zero t) = packedZero Format.binary32 t from rfl,
      unpack_packedZero]
    rfl
  | finite t m e hm =>
    obtain rfl : s = t := by cases h; rfl
    rw [unpack_pack (h.canonical (by decide) hv)]
    rfl

theorem partsOfSingle_127 :
    partsOfSingle 127 = .finite .positive 16646144 (-17) (by decide) :=
  rfl

theorem value_127 : ((16646144 : ℕ) : ℚ) * 2 ^ (-17 : ℤ) = 127 := by
  norm_num

/-- A hundred and twenty-seventh part of a value is within the range of the singles. -/
theorem Canonical.part_le {m : Nat} {e : ℤ} (h : Canonical Format.binary32 m e) :
    (m : ℚ) * 2 ^ e / 127 ≤ 2 ^ (127 : ℤ) := by
  rw [div_le_iff₀ (by norm_num)]
  calc (m : ℚ) * 2 ^ e ≤ 2 ^ (128 : ℤ) := h.value_lt_top.le
    _ ≤ 2 ^ (127 : ℤ) * 127 := by norm_num

/-- A finite single divided by 127 is finite. -/
theorem isFinite_div (hx : x.isFinite = true) : (x / 127).isFinite = true := by
  have hdiv : x / 127 = Float32.ofModel (Float32.Model.pack
      (UnpackedFloat.div Format.binary32 (partsOfSingle x) (partsOfSingle 127))) := rfl
  rw [hdiv, partsOfSingle_127]
  rcases single_parts hx with ⟨s, hp⟩ | ⟨s, m, e, hm, hp, hc⟩ <;> rw [hp]
  · cases s <;> decide
  · refine (rounded_div s .positive hm (by decide) e (-17)).single_isFinite ?_
    rw [value_127]
    exact hc.part_le

/-- Infinity divided by 127 is infinite. -/
theorem IsInfinity.div (h : IsInfinity x) : (x / 127).isFinite = false ∧ 0 < x := by
  have hx : x = Float32.ofModel (Float32.Model.pack (.infinity .positive)) := by
    rw [← single_ofModel_pack_parts x, h]
  rw [hx]
  constructor <;> decide

/-! ## Natural numbers -/

/-- Whether a single is above zero. -/
def IsPositive (x : Float32) : Prop :=
  partsOfSingle x = .infinity .positive ∨ ∃ m e hm, partsOfSingle x = .finite .positive m e hm

theorem Rounded.isPositive {u : UnpackedFloat} (h : Rounded Format.binary32 .positive v u)
    (hv : 2 ^ Format.binary32.minExponent ≤ v) :
    IsPositive (Float32.ofModel (Float32.Model.pack u)) :=
  h.unpack_pack_cases hv

theorem IsPositive.times_one (h : IsPositive x) :
    IsPositive (x * Float32.exactlyRepresentablePowersOfTen[0]) := by
  have hone : partsOfSingle Float32.exactlyRepresentablePowersOfTen[0] =
      .finite .positive 8388608 (-23) (by decide) := rfl
  show IsPositive (Float32.ofModel (Float32.Model.pack (UnpackedFloat.mul Format.binary32
    (partsOfSingle x) (partsOfSingle Float32.exactlyRepresentablePowersOfTen[0]))))
  rw [hone]
  rcases h with hx | ⟨m, e, hm, hx⟩
  · rw [hx]
    exact .inl (unpack_packedInfinity .positive)
  · have hc : Canonical Format.binary32 m e := canonical_of_unpack (by decide) hx
    have hcone : Canonical Format.binary32 8388608 (-23) := canonical_of_unpack (by decide) hone
    rw [hx]
    refine (rounded_mul .positive hc hcone hm (by decide)).isPositive ?_
    have hvalue : ((8388608 : ℕ) : ℚ) * 2 ^ (-23 : ℤ) = 1 := by norm_num
    rw [hvalue, mul_one]
    exact two_pow_le_value hm hc.least

/-- A natural number but zero is above zero as a single. -/
theorem isPositive_ofNat {n : Nat} (hn : 0 < n) : IsPositive (Float32.ofNat n) := by
  have hvalue : (2 : ℚ) ^ Format.binary32.minExponent ≤ n := by
    calc (2 : ℚ) ^ Format.binary32.minExponent ≤ 2 ^ (0 : ℤ) := zpow_two_le.2 (by decide)
      _ ≤ n := by rw [zpow_zero]; exact_mod_cast hn
  show IsPositive (Float32.ofScientific n false 0)
  unfold Float32.ofScientific
  split
  · rename_i hsmall
    have hword : IsPositive n.toUInt64.toFloat32 := by
      have hround : UnpackedFloat.ofUInt64 Format.binary32 n.toUInt64 =
          UnpackedFloat.round Format.binary32 .positive n 0 := by
        have hn' : n.toUInt64.toNat = n := by
          show n % 2 ^ 64 = n
          omega
        have hgt : compare (n : ℤ) 0 = .gt := Int.compare_eq_gt.2 (by omega)
        simp only [UnpackedFloat.ofUInt64, UnpackedFloat.ofNat, UnpackedFloat.ofInt,
          UnpackedFloat.normalize, hn', hgt, Int.toNat_natCast]
      show IsPositive (Float32.ofModel (Float32.Model.pack
        (UnpackedFloat.ofUInt64 Format.binary32 n.toUInt64)))
      rw [hround]
      refine (rounded_round .positive hn 0).isPositive ?_
      rwa [zpow_zero, mul_one]
    simpa using hword.times_one
  · show IsPositive (Float32.ofModel (Float32.Model.pack
      (UnpackedFloat.ofScientific Format.binary32 n (0 : ℤ))))
    unfold UnpackedFloat.ofScientific
    rw [dif_neg hn.ne', if_neg (by norm_num), if_neg (by simp), if_pos (le_refl 0)]
    have hlong : 2 ^ 23 ≤ n <<< 24 * 10 ^ (0 : ℤ).toNat := by
      rw [Nat.shiftLeft_eq]
      exact le_trans (by omega) (Nat.le_mul_of_pos_right _ (by norm_num))
    have hsame : ((n <<< 24 * 10 ^ (0 : ℤ).toNat : ℕ) : ℚ) * 2 ^ (-24 + 0 : ℤ) = n := by
      rw [Int.toNat_zero, pow_zero, mul_one, add_zero, ← zero_sub]
      exact_mod_cast (shiftLeft_value n 24 0).trans (by rw [zpow_zero, mul_one])
    have hrounded := @rounded_exact Format.binary32 _ _ .positive
      (lt_of_lt_of_le (by norm_num) hlong) (le_targetExponent hlong (-24 + 0))
    rw [hsame] at hrounded
    exact hrounded.isPositive hvalue

/-- Zero divided by what is above zero is zero. -/
theorem zero_div_of_isPositive (h : IsPositive y) : 0 / y = 0 := by
  show Float32.ofModel (Float32.Model.pack (UnpackedFloat.div Format.binary32 (partsOfSingle 0)
    (partsOfSingle y))) = 0
  rw [partsOfSingle_zero]
  rcases h with hy | ⟨m, e, hm, hy⟩
  · rw [hy]
    rfl
  · rw [hy]
    rfl

/-! ## Zero for what is no number -/

/-- A single, or zero for what is no number. -/
def cleared (x : Float32) : Float32 :=
  if x.isNaN then 0 else x

/-- A magnitude is not below zero. -/
theorem not_abs_lt_zero (x : Float32) : ¬x.abs < 0 := by
  rw [lt_iff, partsOfSingle_abs, partsOfSingle_zero]
  cases partsOfSingle x <;> exact nofun

theorem larger_abs_cleared (hx : x.isNaN = false) (hpos : ¬x < 0) (y : Float32) :
    larger x (cleared y).abs = larger x y.abs := by
  unfold cleared
  cases hy : y.isNaN with
  | false => rfl
  | true =>
    have hzero : Float32.abs 0 = 0 := by decide
    rw [if_pos rfl, hzero, larger_of_numbers hx (by decide), if_neg hpos,
      larger_of_isNaN hx (by rwa [isNaN_abs])]

/-- What is no number does not change the largest of some magnitudes. -/
theorem largest_cleared {ι : Type} (f : ι → Float32) {is : List ι} (hx : x.isNaN = false)
    (hpos : ¬x < 0) :
    (is.map fun i => (cleared (f i)).abs).foldl larger x =
      (is.map fun i => (f i).abs).foldl larger x := by
  induction is generalizing x with
  | nil => rfl
  | cons i rest ih =>
    have hnext : ¬larger x (f i).abs < 0 := by
      cases hy : (f i).abs.isNaN with
      | true => rwa [larger_of_isNaN hx hy]
      | false =>
        rw [larger_of_numbers hx hy]
        split
        · exact not_abs_lt_zero (f i)
        · exact hpos
    rw [List.map_cons, List.map_cons, List.foldl_cons, List.foldl_cons,
      larger_abs_cleared hx hpos, ih (isNaN_larger hx _) hnext]

/-- The parts of a quotient, from those of its operands. -/
theorem partsOfSingle_div (x y : Float32) :
    partsOfSingle (x / y) = UnpackedFloat.unpack Format.binary32 (UnpackedFloat.pack Format.binary32
      (UnpackedFloat.div Format.binary32 (partsOfSingle x) (partsOfSingle y))) :=
  rfl

theorem toInt8_of_isNaN (h : partsOfSingle x = .notANumber) : toInt8 x = 0 := by
  unfold toInt8
  rw [h]

theorem toInt8_of_zero (h : partsOfSingle x = .zero s) : toInt8 x = 0 := by
  unfold toInt8
  rw [h]

/-- Zero divided by whatever is kept as zero. -/
theorem toInt8_zero_div (y : Float32) : toInt8 (0 / y) = 0 := by
  have hparts := partsOfSingle_div 0 y
  rw [partsOfSingle_zero] at hparts
  cases hy : partsOfSingle y with
  | notANumber =>
    rw [hy] at hparts
    exact toInt8_of_isNaN (hparts.trans unpack_packedNaN)
  | infinity s =>
    rw [hy] at hparts
    exact toInt8_of_zero (hparts.trans (unpack_packedZero _))
  | zero s =>
    rw [hy] at hparts
    exact toInt8_of_isNaN (hparts.trans unpack_packedNaN)
  | finite s m e hm =>
    rw [hy] at hparts
    exact toInt8_of_zero (hparts.trans (unpack_packedZero _))

/-- What is no number is kept as zero is, whatever it is divided by. -/
theorem toInt8_cleared (x y : Float32) : toInt8 (cleared x / y) = toInt8 (x / y) := by
  unfold cleared
  cases hx : x.isNaN with
  | false => rfl
  | true =>
    have hnan : partsOfSingle x = .notANumber := by
      rw [isNaN_eq] at hx
      cases hp : partsOfSingle x with
      | notANumber => rfl
      | _ =>
        rw [hp] at hx
        cases hx
    have hparts := partsOfSingle_div x y
    rw [hnan, show UnpackedFloat.div Format.binary32 .notANumber (partsOfSingle y) = .notANumber by
      cases partsOfSingle y <;> rfl] at hparts
    rw [if_pos rfl, toInt8_zero_div, toInt8_of_isNaN (hparts.trans unpack_packedNaN)]

end Triage.Number
