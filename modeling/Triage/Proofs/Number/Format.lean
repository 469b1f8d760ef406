/-
The bits of a value and its parts. The parts of bits are those under which the format keeps the
value: the significand is as long as the format allows, or the exponent is the least there is. Such
parts are found again in the bits made of them, and bits are found again from their parts, since a
NaN has but one pattern.
-/
import Mathlib
import Triage.Number.Rounding

namespace Triage.Number

open Float.Model UnpackedFloat

variable {spec : Format}

/-! ## Widths -/

/-- The exponent of infinity is one above twice the bias. -/
theorem two_pow_exponentBits (spec : Format) :
    2 ^ spec.exponentBits = 2 * spec.exponentBias + 2 := by
  have hpos : 0 < 2 ^ (spec.exponentBits - 1) := Nat.two_pow_pos _
  have hsucc : spec.exponentBits = spec.exponentBits - 1 + 1 := by
    have := spec.he
    omega
  have hpow : 2 ^ spec.exponentBits = 2 * 2 ^ (spec.exponentBits - 1) := by
    rw [hsucc, Nat.pow_succ, Nat.mul_comm, Nat.add_sub_cancel]
  rw [hpow]
  unfold Format.exponentBias
  omega

theorem minExponent_eq (spec : Format) :
    spec.minExponent = 1 - (spec.exponentBias + spec.mantissaBitsWithoutImplicit : Int) := by
  have hbias : (spec.exponentBias : Int) = 2 ^ (spec.exponentBits - 1) - 1 := by
    unfold Format.exponentBias
    have hpos : 0 < 2 ^ (spec.exponentBits - 1) := Nat.two_pow_pos _
    rw [Nat.cast_sub hpos]
    norm_cast
  unfold Format.minExponent Format.mantissaBits
  rw [hbias]
  push_cast
  ring

theorem two_pow_mantissaBits (spec : Format) :
    2 ^ spec.mantissaBits = 2 * 2 ^ spec.mantissaBitsWithoutImplicit := by
  unfold Format.mantissaBits
  rw [Nat.add_comm, Nat.pow_succ, Nat.mul_comm]

/-! ## Canonical parts -/

/-- Whether a format keeps a value under this significand and exponent. -/
structure Canonical (spec : Format) (m : Nat) (e : Int) : Prop where
  least : spec.minExponent ≤ e
  most : e ≤ spec.exponentBias - spec.mantissaBitsWithoutImplicit
  lt : m < 2 ^ spec.mantissaBits
  full : 2 ^ spec.mantissaBitsWithoutImplicit ≤ m ∨ e = spec.minExponent

/-- The exponent as it is kept, which is neither that of zero nor that of infinity. -/
theorem Canonical.biased {m : Nat} {e : Int} (h : Canonical spec m e) :
    ∃ b : Nat, e = b - (spec.exponentBias + spec.mantissaBitsWithoutImplicit : Int) ∧
      (e + spec.exponentBias + spec.mantissaBitsWithoutImplicit).toNat = b ∧ 0 < b ∧
      b + 1 < 2 ^ spec.exponentBits := by
  have hleast := h.least
  have hmost := h.most
  have hbits := two_pow_exponentBits spec
  rw [minExponent_eq] at hleast
  refine ⟨(e + spec.exponentBias + spec.mantissaBitsWithoutImplicit).toNat, ?_, rfl, ?_, ?_⟩ <;>
    omega

/-! ## Fields of bits -/

theorem toBitVec_ofBitVec (b : BitVec 1) : (Sign.ofBitVec b).toBitVec = b := by
  revert b
  decide

theorem ofBitVec_toBitVec (s : Sign) : Sign.ofBitVec s.toBitVec = s := by
  cases s <;> rfl

/-- Bits are put together again from their fields. -/
theorem packComponents_fields (b : BitVec spec.numBits) :
    packComponents spec (Sign.ofBitVec (unpackSign b)) (unpackExponent b) (unpackMantissa b) =
      b := by
  unfold packComponents
  rw [toBitVec_ofBitVec]
  apply BitVec.eq_of_getLsbD_eq
  intro i hi
  unfold unpackSign unpackExponent unpackMantissa
  have := spec.hm
  have := spec.he
  simp only [BitVec.getLsbD_append, BitVec.getLsbD_cast, BitVec.getLsbD_extractLsb]
  by_cases h₁ : i < spec.mantissaBitsWithoutImplicit
  · simp [h₁]
    omega
  · by_cases h₂ : i - spec.mantissaBitsWithoutImplicit < spec.exponentBits
    · have : spec.mantissaBitsWithoutImplicit + (i - spec.mantissaBitsWithoutImplicit) = i := by
        omega
      simp [h₁, h₂, this]
      omega
    · have : i = spec.mantissaBitsWithoutImplicit + spec.exponentBits := by omega
      simp [this]

theorem unpackSign_packComponents (s : Sign) (e : BitVec spec.exponentBits)
    (m : BitVec spec.mantissaBitsWithoutImplicit) :
    unpackSign (packComponents spec s e m) = s.toBitVec := by
  apply BitVec.eq_of_getLsbD_eq
  intro i hi
  have h0 : i = 0 := by omega
  subst h0
  unfold unpackSign packComponents
  simp [BitVec.getLsbD_append, BitVec.getElem_append]

theorem toNat_withImplicit (m : BitVec spec.mantissaBitsWithoutImplicit) :
    (1#1 ++ m).toNat = 2 ^ spec.mantissaBitsWithoutImplicit + m.toNat := by
  rw [BitVec.toNat_append, ← Nat.shiftLeft_add_eq_or_of_lt m.isLt, Nat.shiftLeft_eq]
  simp

theorem toNat_minusOne (w : Nat) : (-BitVec.ofNat w 1).toNat = 2 ^ w - 1 := by
  rw [BitVec.neg_one_eq_allOnes, BitVec.toNat_allOnes]

/-! ## Parts of bits -/

/-- The parts of bits are canonical. -/
theorem canonical_of_unpack (hb : 0 < spec.exponentBias) {b : BitVec spec.numBits} {s : Sign}
    {m : Nat} {e : Int} {hm : 0 < m} (h : UnpackedFloat.unpack spec b = .finite s m e hm) :
    Canonical spec m e := by
  have hbits := two_pow_exponentBits spec
  have hmant := two_pow_mantissaBits spec
  have hlt := (unpackMantissa b).isLt
  have helt := (unpackExponent b).isLt
  unfold UnpackedFloat.unpack at h
  simp only at h
  split at h
  · split at h <;> cases h
  · rename_i htop
    have hne : (unpackExponent b).toNat ≠ 2 ^ spec.exponentBits - 1 := by
      rw [← toNat_minusOne]
      exact fun e => htop (BitVec.eq_of_toNat_eq e)
    split at h
    · rename_i hzero
      split at h
      · cases h
      · cases h
        have hexp : (unpackExponent b).toNat = 0 := by rw [hzero]; rfl
        rw [hexp]
        refine ⟨?_, by omega, by omega, .inr ?_⟩
        · rw [minExponent_eq]
          omega
        · rw [minExponent_eq]
          omega
    · rename_i hzero
      cases h
      have hpos : (unpackExponent b).toNat ≠ 0 := by
        intro e
        exact hzero (BitVec.eq_of_toNat_eq (by rw [e]; rfl))
      rw [toNat_withImplicit]
      refine ⟨?_, by omega, by omega, .inl (Nat.le_add_right _ _)⟩
      rw [minExponent_eq]
      omega

/-- A significand as long as the format allows is kept without its first bit. -/
theorem pack_of_full {s : Sign} {m b : Nat} {e : ℤ} {hm : 0 < m}
    (hb : (e + spec.exponentBias + spec.mantissaBitsWithoutImplicit).toNat = b)
    (htop : b + 1 < 2 ^ spec.exponentBits) (hlt : m < 2 ^ spec.mantissaBits)
    (hfull : 2 ^ spec.mantissaBitsWithoutImplicit ≤ m) :
    UnpackedFloat.pack spec (.finite s m e hm) =
      packComponents spec s (BitVec.ofNat spec.exponentBits b)
        (BitVec.ofNat spec.mantissaBitsWithoutImplicit m) := by
  have hmant := two_pow_mantissaBits spec
  have hlog : m.log2 + 1 = spec.mantissaBits := by
    rw [(Nat.log2_eq_iff (by omega)).2 ⟨hfull, by rw [Nat.pow_succ]; omega⟩]
    unfold Format.mantissaBits
    omega
  unfold UnpackedFloat.pack
  simp only
  rw [hb, if_neg (by omega), if_pos hlog]

/-- A shorter significand is kept with the exponent of zero. -/
theorem pack_of_short {s : Sign} {m b : Nat} {e : ℤ} {hm : 0 < m}
    (hb : (e + spec.exponentBias + spec.mantissaBitsWithoutImplicit).toNat = b)
    (htop : b + 1 < 2 ^ spec.exponentBits) (hshort : m < 2 ^ spec.mantissaBitsWithoutImplicit) :
    UnpackedFloat.pack spec (.finite s m e hm) =
      packComponents spec s (BitVec.ofNat spec.exponentBits 0)
        (BitVec.ofNat spec.mantissaBitsWithoutImplicit m) := by
  have hlog : m.log2 + 1 ≠ spec.mantissaBits := by
    have := (Nat.log2_lt (by omega)).2 hshort
    unfold Format.mantissaBits
    omega
  unfold UnpackedFloat.pack
  simp only
  rw [hb, if_neg (by omega), if_neg hlog]

/-- Bits without a spare NaN are packed from their parts. -/
theorem pack_unpack (hb : 0 < spec.exponentBias) {b : BitVec spec.numBits} (hv : spec.Valid b) :
    UnpackedFloat.pack spec (UnpackedFloat.unpack spec b) = b := by
  have hbits := two_pow_exponentBits spec
  have hmant := two_pow_mantissaBits spec
  have hfields := packComponents_fields b
  have hlt := (unpackMantissa b).isLt
  have helt := (unpackExponent b).isLt
  -- The cases are those of unpacking: infinity, NaN, zero, a short significand and a full one.
  unfold UnpackedFloat.unpack
  simp only
  split
  · rename_i htop
    split
    · rename_i hzero
      show packedInfinity spec _ = b
      rw [htop, hzero] at hfields
      exact hfields
    · rename_i hnan
      exact (hv.eq_packedNaN htop hnan).symm
  · rename_i htop
    have hne : (unpackExponent b).toNat ≠ 2 ^ spec.exponentBits - 1 := by
      rw [← toNat_minusOne]
      exact fun e => htop (BitVec.eq_of_toNat_eq e)
    split
    · rename_i hexp
      have he0 : (unpackExponent b).toNat = 0 := by rw [hexp]; rfl
      split
      · rename_i hzero
        show packedZero spec _ = b
        rw [hexp, hzero] at hfields
        exact hfields
      · rw [pack_of_short rfl (by omega) hlt, BitVec.ofNat_toNat, BitVec.setWidth_eq, ← hexp,
          hfields]
    · have hbiased : ((unpackExponent b).toNat -
          (spec.exponentBias + spec.mantissaBitsWithoutImplicit : Int) + spec.exponentBias +
            spec.mantissaBitsWithoutImplicit).toNat = (unpackExponent b).toNat := by
        omega
      have hlow : BitVec.ofNat spec.mantissaBitsWithoutImplicit (1#1 ++ unpackMantissa b).toNat =
          unpackMantissa b := by
        apply BitVec.eq_of_toNat_eq
        rw [toNat_withImplicit, BitVec.toNat_ofNat, Nat.add_mod_left, Nat.mod_eq_of_lt hlt]
      rw [pack_of_full hbiased (by omega) (by rw [toNat_withImplicit]; omega)
        (by rw [toNat_withImplicit]; omega), hlow, BitVec.ofNat_toNat, BitVec.setWidth_eq, hfields]

/-! ## Bits of parts -/

theorem zero_ne_minusOne (spec : Format) :
    BitVec.ofNat spec.exponentBits 0 ≠ -BitVec.ofNat spec.exponentBits 1 := by
  intro h
  have hnat := congrArg BitVec.toNat h
  have hpos : 2 ≤ 2 ^ spec.exponentBits := by
    rw [two_pow_exponentBits]
    omega
  rw [toNat_minusOne] at hnat
  simp at hnat
  omega

theorem unpack_packedZero (s : Sign) :
    UnpackedFloat.unpack spec (packedZero spec s) = .zero s := by
  unfold UnpackedFloat.unpack packedZero
  simp only [unpackMantissa_packComponents, unpackExponent_packComponents,
    unpackSign_packComponents, ofBitVec_toBitVec]
  rw [if_neg (show ¬(0 : BitVec spec.exponentBits) = -BitVec.ofNat spec.exponentBits 1 from
    zero_ne_minusOne spec)]
  rfl

/-- A full significand is found again with its exponent. -/
theorem unpack_of_full {s : Sign} {m b : Nat} (hpos : 0 < b) (htop : b + 1 < 2 ^ spec.exponentBits)
    (hlt : m < 2 ^ spec.mantissaBits) (hfull : 2 ^ spec.mantissaBitsWithoutImplicit ≤ m)
    (hm : 0 < m) :
    UnpackedFloat.unpack spec (packComponents spec s (BitVec.ofNat spec.exponentBits b)
        (BitVec.ofNat spec.mantissaBitsWithoutImplicit m)) =
      .finite s m (b - (spec.exponentBias + spec.mantissaBitsWithoutImplicit : Int)) hm := by
  have hmant := two_pow_mantissaBits spec
  have hexp : (BitVec.ofNat spec.exponentBits b).toNat = b := by
    rw [BitVec.toNat_ofNat, Nat.mod_eq_of_lt (by omega)]
  have hone : BitVec.ofNat spec.exponentBits b ≠ -BitVec.ofNat spec.exponentBits 1 := by
    intro e
    have := congrArg BitVec.toNat e
    rw [hexp, toNat_minusOne] at this
    omega
  have hzero : BitVec.ofNat spec.exponentBits b ≠ BitVec.ofNat spec.exponentBits 0 := by
    intro e
    have := congrArg BitVec.toNat e
    rw [hexp] at this
    simp at this
    omega
  have hnat : (1#1 ++ BitVec.ofNat spec.mantissaBitsWithoutImplicit m).toNat = m := by
    have hsub : m = 2 ^ spec.mantissaBitsWithoutImplicit +
        (m - 2 ^ spec.mantissaBitsWithoutImplicit) := by omega
    rw [toNat_withImplicit, BitVec.toNat_ofNat]
    rw [hsub, Nat.add_mod_left, Nat.mod_eq_of_lt (by omega)]
  unfold UnpackedFloat.unpack
  simp only [unpackMantissa_packComponents, unpackExponent_packComponents,
    unpackSign_packComponents, ofBitVec_toBitVec, hone, hzero, if_false, hexp, hnat]

/-- A short significand is found again with the least exponent. -/
theorem unpack_of_short {s : Sign} {m : Nat} (hshort : m < 2 ^ spec.mantissaBitsWithoutImplicit)
    (hm : 0 < m) :
    UnpackedFloat.unpack spec (packComponents spec s (BitVec.ofNat spec.exponentBits 0)
        (BitVec.ofNat spec.mantissaBitsWithoutImplicit m)) =
      .finite s m spec.minExponent hm := by
  have hnat : (BitVec.ofNat spec.mantissaBitsWithoutImplicit m).toNat = m := by
    rw [BitVec.toNat_ofNat, Nat.mod_eq_of_lt hshort]
  have hne : BitVec.ofNat spec.mantissaBitsWithoutImplicit m ≠
      BitVec.ofNat spec.mantissaBitsWithoutImplicit 0 := by
    intro e
    have := congrArg BitVec.toNat e
    rw [hnat] at this
    simp at this
    omega
  unfold UnpackedFloat.unpack
  simp only [unpackMantissa_packComponents, unpackExponent_packComponents,
    unpackSign_packComponents, ofBitVec_toBitVec, zero_ne_minusOne, if_false, if_true, hne, hnat,
    dif_neg, not_false_eq_true]
  rw [minExponent_eq]
  congr 1
  simp
  ring

/-- Canonical parts are found again in their bits. -/
theorem unpack_pack {s : Sign} {m : Nat} {e : Int} {hm : 0 < m} (h : Canonical spec m e) :
    UnpackedFloat.unpack spec (UnpackedFloat.pack spec (.finite s m e hm)) = .finite s m e hm := by
  obtain ⟨b, he, hbiased, hb, htop⟩ := h.biased
  by_cases hfull : 2 ^ spec.mantissaBitsWithoutImplicit ≤ m
  · rw [pack_of_full hbiased htop h.lt hfull, unpack_of_full hb htop h.lt hfull hm, ← he]
  · rw [pack_of_short hbiased htop (Nat.lt_of_not_le hfull),
      unpack_of_short (Nat.lt_of_not_le hfull) hm, h.full.resolve_left hfull]

/-! ## Doubles and singles -/

/-- A double is made again of its parts. -/
theorem ofModel_pack_parts (x : Float) :
    Float.ofModel (Float.Model.pack (partsOfDouble x)) = x := by
  obtain ⟨bits, valid⟩ := x
  have h := pack_unpack (by decide) valid
  simp only [Float.Model.pack, partsOfDouble, Float.toBits, h]

/-- A single is made again of its bits. -/
theorem single_ofBits_toBits (x : Float32) : Float32.ofBits x.toBits = x := by
  obtain ⟨bits, valid⟩ := x
  have h := pack_unpack (by decide) valid
  simp only [Float32.ofBits, Float32.Model.ofBits, Float32.Model.pack, Float32.toBits, h]

/-- Bits are kept by a single that is finite; of NaN one pattern alone is kept. -/
theorem single_toBits_ofBits {b : UInt32} (h : (Float32.ofBits b).isFinite = true) :
    (Float32.ofBits b).toBits = b := by
  have hvalid : Format.binary32.Valid b.toBitVec := by
    refine ⟨fun htop hrest => ?_⟩
    have hnan : UnpackedFloat.unpack Format.binary32 b.toBitVec = .notANumber := by
      unfold UnpackedFloat.unpack
      simp only [htop, hrest, if_true, if_false]
    have hmodel : Float32.Model.ofBits b = Float32.Model.pack .notANumber := by
      unfold Float32.Model.ofBits
      rw [hnan]
    have hfinite : (Float32.Model.ofBits b).isFinite = true := h
    rw [hmodel] at hfinite
    exact absurd hfinite (by decide)
  exact congrArg UInt32.ofBitVec (pack_unpack (by decide) hvalid)

/-- The parts of what is packed from canonical parts. -/
theorem partsOfDouble_pack {s : Sign} {m : Nat} {e : Int} {hm : 0 < m}
    (h : Canonical Format.binary64 m e) :
    partsOfDouble (Float.ofModel (Float.Model.pack (.finite s m e hm))) = .finite s m e hm :=
  unpack_pack h

theorem partsOfDouble_zero (s : Sign) :
    partsOfDouble (Float.ofModel (Float.Model.pack (.zero s))) = .zero s :=
  unpack_packedZero s

/-- The parts of a finite double. -/
theorem parts_of_isFinite {x : Float} (h : x.isFinite = true) :
    (∃ s, partsOfDouble x = .zero s) ∨
      ∃ s m e hm, partsOfDouble x = .finite s m e hm ∧ Canonical Format.binary64 m e := by
  have hf : (partsOfDouble x).isFinite = true := h
  cases hp : partsOfDouble x with
  | notANumber => rw [hp] at hf; cases hf
  | infinity s => rw [hp] at hf; cases hf
  | zero s => exact .inl ⟨s, rfl⟩
  | finite s m e hm => exact .inr ⟨s, m, e, hm, rfl, canonical_of_unpack (by decide) hp⟩

end Triage.Number
