/-
Zero as a term of a sum of singles. A sum is minus zero only if its first term is, since what is
cancelled or too small comes out as zero without a sign or is rounded to a number other than zero.
So zero added to anything but minus zero changes nothing.
-/
import Triage.Proofs.Number.Magnitude

namespace Triage.Number

open Float.Model UnpackedFloat

variable {spec : Format} {s : Sign} {v : ℚ}

/-! ## Parts of what is packed -/

theorem unpack_packedInfinity (s : Sign) :
    UnpackedFloat.unpack spec (packedInfinity spec s) = .infinity s := by
  unfold UnpackedFloat.unpack packedInfinity
  simp only [unpackMantissa_packComponents, unpackExponent_packComponents,
    unpackSign_packComponents, ofBitVec_toBitVec]
  rfl

theorem unpack_packedNaN :
    UnpackedFloat.unpack Format.binary32 (packedNaN Format.binary32) = .notANumber :=
  rfl

/-- What is rounded is found again in its bits, unless it is too large for the format and becomes
infinity. -/
theorem Rounded.unpack_pack_or {u : UnpackedFloat} (h : Rounded spec s v u) :
    UnpackedFloat.unpack spec (UnpackedFloat.pack spec u) = .infinity s ∨
      UnpackedFloat.unpack spec (UnpackedFloat.pack spec u) = u := by
  cases h with
  | zero => exact .inr (unpack_packedZero s)
  | @finite m e hm least lt full =>
    by_cases hmost : e ≤ spec.exponentBias - spec.mantissaBitsWithoutImplicit
    · exact .inr (unpack_pack ⟨least, hmost, lt, full⟩)
    · have htop : UnpackedFloat.pack spec (.finite s m e hm) = packedInfinity spec s := by
        have hbits := two_pow_exponentBits spec
        unfold UnpackedFloat.pack
        simp only
        rw [if_pos (by omega)]
      rw [htop]
      exact .inl (unpack_packedInfinity s)

/-- What is rounded from a value not below a power of two keeps its sign and is not below that power,
even if it is too large for the format. -/
theorem Rounded.unpack_pack_above {u : UnpackedFloat} {k : ℤ} (h : Rounded spec s v u)
    (hk : spec.minExponent ≤ k) (hv : 2 ^ k ≤ v) :
    UnpackedFloat.unpack spec (UnpackedFloat.pack spec u) = .infinity s ∨
      ∃ m e hm, UnpackedFloat.unpack spec (UnpackedFloat.pack spec u) = .finite s m e hm ∧
        (2 : ℚ) ^ k ≤ m * 2 ^ e := by
  refine h.unpack_pack_or.imp_right fun hu => ?_
  rw [hu]
  cases h with
  | zero small =>
    have hpos := zpow_two_pos spec.minExponent
    have hleast : (2 : ℚ) ^ spec.minExponent ≤ 2 ^ k := zpow_two_le.2 hk
    linarith
  | @finite m e hm least lt full below above => exact ⟨m, e, hm, rfl, above k hk hv⟩

/-- If it is rounded from a value the format can tell from zero, it is not zero. -/
theorem Rounded.unpack_pack_cases {u : UnpackedFloat} (h : Rounded spec s v u)
    (hv : 2 ^ spec.minExponent ≤ v) :
    UnpackedFloat.unpack spec (UnpackedFloat.pack spec u) = .infinity s ∨
      ∃ m e hm, UnpackedFloat.unpack spec (UnpackedFloat.pack spec u) = .finite s m e hm :=
  (h.unpack_pack_above (le_refl _) hv).imp_right fun ⟨m, e, hm, hu, _⟩ => ⟨m, e, hm, hu⟩

theorem Rounded.unpack_pack_ne_zero {u : UnpackedFloat} (h : Rounded spec s v u)
    (hv : 2 ^ spec.minExponent ≤ v) (t : Sign) :
    UnpackedFloat.unpack spec (UnpackedFloat.pack spec u) ≠ .zero t := by
  rcases h.unpack_pack_cases hv with hu | ⟨m, e, hm, hu⟩ <;> rw [hu] <;>
    exact UnpackedFloat.noConfusion

/-- A single is made again of its parts. -/
theorem single_ofModel_pack_parts (x : Float32) :
    Float32.ofModel (Float32.Model.pack (partsOfSingle x)) = x :=
  single_ofBits_toBits x

theorem unpack_pack_partsOfSingle (x : Float32) : UnpackedFloat.unpack Format.binary32
    (UnpackedFloat.pack Format.binary32 (partsOfSingle x)) = partsOfSingle x := by
  obtain ⟨bits, valid⟩ := x
  exact congrArg (UnpackedFloat.unpack Format.binary32) (pack_unpack (by decide) valid)

theorem partsOfSingle_zero : partsOfSingle 0 = .zero .positive :=
  rfl

/-! ## Sums -/

/-- Whether parts are other than minus zero once they have been packed. -/
def Unsigned (u : UnpackedFloat) : Prop :=
  UnpackedFloat.unpack Format.binary32 (UnpackedFloat.pack Format.binary32 u) ≠ .zero .negative

theorem unsigned_notANumber : Unsigned .notANumber := fun h =>
  UnpackedFloat.noConfusion (unpack_packedNaN.symm.trans h)

theorem unsigned_infinity (s : Sign) : Unsigned (.infinity s) := fun h =>
  UnpackedFloat.noConfusion ((unpack_packedInfinity s).symm.trans h)

theorem unsigned_zero : Unsigned (.zero .positive) := fun h => by
  cases (unpack_packedZero .positive).symm.trans h

theorem unsigned_parts {x : Float32} (h : partsOfSingle x ≠ .zero .negative) :
    Unsigned (partsOfSingle x) := fun hx =>
  h ((unpack_pack_partsOfSingle x).symm.trans hx)

/-- A sum of whole multiples of the least number is a multiple of it. -/
theorem unsigned_normalize (n : ℤ) {e : ℤ} (he : Format.binary32.minExponent ≤ e) :
    Unsigned (UnpackedFloat.normalize Format.binary32 n e .positive) := by
  rcases eq_or_ne n 0 with rfl | hn
  · exact unsigned_zero
  · obtain ⟨s, hs⟩ := @rounded_normalize Format.binary32 n hn e .positive
    refine hs.unpack_pack_ne_zero ?_ .negative
    exact two_pow_le_value (Int.natAbs_pos.2 hn) he

theorem unsigned_add {x y : Float32} (hx : partsOfSingle x ≠ .zero .negative) :
    Unsigned (UnpackedFloat.add Format.binary32 (partsOfSingle x) (partsOfSingle y)) := by
  cases h₁ : partsOfSingle x with
  | notANumber => exact unsigned_notANumber
  | infinity s =>
    cases h₂ : partsOfSingle y with
    | notANumber => exact unsigned_notANumber
    | infinity t =>
      cases s <;> cases t <;> first | exact unsigned_notANumber | exact unsigned_infinity _
    | zero t => exact unsigned_infinity s
    | finite t n f hn => exact unsigned_infinity s
  | zero s =>
    cases s with
    | negative => exact absurd h₁ hx
    | positive =>
      cases h₂ : partsOfSingle y with
      | notANumber => exact unsigned_notANumber
      | infinity t => exact unsigned_infinity t
      | zero t => cases t <;> exact unsigned_zero
      | finite t n f hn =>
        have hy : partsOfSingle y ≠ .zero .negative := by
          rw [h₂]
          exact UnpackedFloat.noConfusion
        show Unsigned (.finite t n f hn)
        rw [← h₂]
        exact unsigned_parts hy
  | finite s m e hm =>
    cases h₂ : partsOfSingle y with
    | notANumber => exact unsigned_notANumber
    | infinity t => exact unsigned_infinity t
    | zero t =>
      show Unsigned (.finite s m e hm)
      rw [← h₁]
      exact unsigned_parts hx
    | finite t n f hn =>
      have he : Format.binary32.minExponent ≤ e := (canonical_of_unpack (by decide) h₁).least
      have hf : Format.binary32.minExponent ≤ f := (canonical_of_unpack (by decide) h₂).least
      exact unsigned_normalize _ (le_min he hf)

/-- A sum of singles is minus zero only if its first term is. -/
theorem add_ne_negativeZero {x : Float32} (hx : partsOfSingle x ≠ .zero .negative)
    (y : Float32) : partsOfSingle (x + y) ≠ .zero .negative :=
  unsigned_add hx

/-- Zero added to anything but minus zero changes nothing. -/
theorem add_zero_eq {x : Float32} (hx : partsOfSingle x ≠ .zero .negative) : x + 0 = x := by
  have hsame : UnpackedFloat.add Format.binary32 (partsOfSingle x) (partsOfSingle 0) =
      partsOfSingle x := by
    rw [partsOfSingle_zero]
    cases h : partsOfSingle x with
    | notANumber => rfl
    | infinity s => rfl
    | zero s =>
      cases s with
      | negative => exact absurd h hx
      | positive => rfl
    | finite s m e hm => rfl
  show Float32.ofModel (Float32.Model.pack (UnpackedFloat.add Format.binary32 (partsOfSingle x)
    (partsOfSingle 0))) = x
  rw [hsame, single_ofModel_pack_parts]

theorem zero_add_eq {x : Float32} (hx : partsOfSingle x ≠ .zero .negative) : 0 + x = x := by
  have hsame : UnpackedFloat.add Format.binary32 (partsOfSingle 0) (partsOfSingle x) =
      partsOfSingle x := by
    rw [partsOfSingle_zero]
    cases h : partsOfSingle x with
    | zero s =>
      cases s with
      | negative => exact absurd h hx
      | positive => rfl
    | _ => rfl
  show Float32.ofModel (Float32.Model.pack (UnpackedFloat.add Format.binary32 (partsOfSingle 0)
    (partsOfSingle x))) = x
  rw [hsame, single_ofModel_pack_parts]

end Triage.Number
