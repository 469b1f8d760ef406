/-
The logarithm of a positive double is finite. Both ways to compute it are polynomials in a number
below two with coefficients from a table, so the bounds of all steps are far from the range of the
format; which number that is comes from the bits alone.
-/
import Triage.Number.Logarithm
import Triage.Proofs.Number.Magnitude

namespace Triage.Number

open Float.Model UnpackedFloat

variable {x : Float}

/-- A constant whose field of the exponent is below that of one. -/
theorem within_constant {b : UInt64} (h : b.toNat % 2 ^ 63 < 1023 * 2 ^ 52 := by decide) :
    Within 0 (constant b) :=
  within_ofBits h

/-! ## Near one -/

theorem within_lnNearOne (hx : Within 1 x) : Within 100 (lnNearOne x) := by
  unfold lnNearOne
  extract_lets r r2 r3 p0 p1 p2 p split upper half square high low
  have hr : Within _ r := hx.sub between_one.within
  have hr2 : Within _ r2 := hr.mul hr
  have hr3 : Within _ r3 := hr.mul hr2
  have hp0 : Within _ p0 := hr2.mulAdd within_constant (hr.mulAdd within_constant within_constant)
  have hp1 : Within _ p1 := hr2.mulAdd within_constant (hr.mulAdd within_constant within_constant)
  have hp2 : Within _ p2 := hr3.mulAdd within_constant
    (hr2.mulAdd within_constant (hr.mulAdd within_constant within_constant))
  have hp : Within _ p := (hp2.mulAdd hr3 hp1).mulAdd hr3 hp0
  have hsplit : Within 28 split := within_ofBits (by decide)
  have hupper : Within _ upper := hsplit.neg.mulAdd hr (hr.mulAdd hsplit hr)
  have hhalf : Within _ half := within_constant
  have hsquare : Within _ square := hupper.mul hupper
  have hhigh : Within _ high := hsquare.mulAdd hhalf hr
  have hlow : Within _ low := hsquare.mulAdd hhalf (hr.sub hhigh)
  have hrest := hp.mulAdd hr3 ((hhalf.mul (hr.sub hupper)).mulAdd (hr.add hupper) hlow)
  exact (hhigh.add hrest).mono (by decide)

/-! ## Elsewhere -/

/-- Of whatever bits, those with the exponent brought near zero are those of a number below two. -/
theorem toNat_reduced (bits : UInt64) :
    (bits - ((bits - 0x3fe6000000000000) >>> 52) <<< 52).toNat % 2 ^ 63 < 1024 * 2 ^ 52 := by
  have hlt := bits.toNat_lt
  simp only [UInt64.toNat_sub, UInt64.toNat_shiftLeft, UInt64.toNat_shiftRight,
    Nat.shiftLeft_eq, Nat.shiftRight_eq_div_pow, UInt64.reduceToNat, Nat.reduceMod, Nat.reducePow]
  omega

theorem within_table :
    reciprocalTable.all (fun e => e.1.toNat % 2 ^ 63 < 1024 * 2 ^ 52 ∧
      e.2.toNat % 2 ^ 63 < 1023 * 2 ^ 52) = true := by
  decide +kernel

/-- The entries of the table are below two. -/
theorem within_entry (i : Nat) :
    Within 1 (constant (reciprocalTable.getD i (0, 0)).1) ∧
      Within 0 (constant (reciprocalTable.getD i (0, 0)).2) := by
  rw [Array.getD_eq_getD_getElem?]
  cases h : reciprocalTable[i]? with
  | none => exact ⟨Within.mono within_constant (by decide), within_constant⟩
  | some e =>
    have hall := Array.all_eq_true'.1 within_table e (Array.mem_of_getElem? h)
    obtain ⟨h₁, h₂⟩ := of_decide_eq_true hall
    exact ⟨within_ofBits h₁, within_ofBits h₂⟩

theorem within_lnOfBits (bits : UInt64) {below : ℤ} (h₀ : 0 ≤ below) (h : below ≤ 52) :
    Within 100 (lnOfBits bits below) := by
  unfold lnOfBits
  extract_lets offset entry exponent k r whole high low r2 p
  have hexp : exponent.toNat < 4096 := by
    have hlt := offset.toNat_lt
    simp only [exponent, UInt64.toNat_shiftRight, Nat.shiftRight_eq_div_pow, UInt64.reduceToNat,
      Nat.reduceMod, Nat.reducePow]
    omega
  have hk : Within 13 k := by
    refine within_ofInt ?_ (by decide)
    split <;> omega
  obtain ⟨hc, hlnc⟩ := within_entry ((offset >>> 45) % 128).toNat
  have hz : Within 1 (Float.ofBits (bits - (exponent <<< 52))) := within_ofBits (toNat_reduced bits)
  have hr : Within _ r := hz.mulAdd hc between_one.within.neg
  have hwhole : Within _ whole := hk.mulAdd within_constant hlnc
  have hhigh : Within _ high := hwhole.add hr
  have hlow : Within _ low := hk.mulAdd within_constant ((hwhole.sub hhigh).add hr)
  have hr2 : Within _ r2 := hr.mul hr
  have hp : Within _ p := (hr.mulAdd within_constant within_constant).mulAdd hr2
    (hr.mulAdd within_constant within_constant)
  have hone : Within 1 (constant 0xbfe0000000000001) := within_ofBits (by decide)
  have hrest := (hr.mul hr2).mulAdd hp (hr2.mulAdd hone hlow)
  exact (hrest.add hhigh).mono (by decide)

/-! ## The logarithm -/

/-- The logarithm of a positive double is finite. -/
theorem within_ln {i j : ℤ} (h : Between i j x) : Within 100 (ln x) := by
  obtain ⟨m, e, hm, hx, -, -⟩ := h
  have hzero : ¬(x == 0) = true := by
    show ¬UnpackedFloat.beq (partsOfDouble x) (partsOfDouble 0) = true
    rw [hx]
    exact Bool.false_ne_true
  have hvalid : ¬(x.isNaN || decide (x < 0)) = true := by
    have hnan : x.isNaN = false := by
      show (partsOfDouble x).isNaN = false
      rw [hx]
      rfl
    have hneg : ¬x < 0 := by
      intro hlt
      have hparts : UnpackedFloat.lt (partsOfDouble x) (partsOfDouble 0) = true :=
        of_decide_eq_true hlt
      rw [hx] at hparts
      exact Bool.false_ne_true hparts
    rw [hnan, Bool.false_or, decide_eq_true_eq]
    exact hneg
  have htop : x.toBits ≠ 0x7ff0000000000000 := by
    intro hbits
    unfold partsOfDouble at hx
    rw [hbits] at hx
    have hinf : UnpackedFloat.unpack Format.binary64 (0x7ff0000000000000 : UInt64).toBitVec =
        .infinity .positive := rfl
    rw [hinf] at hx
    cases hx
  unfold ln
  extract_lets bits
  by_cases hnear : bits - 0x3fee000000000000 < 0x0003090000000000
  · rw [if_pos hnear]
    split
    · exact within_of_zero (s := .positive) (by rfl)
    · -- Near one the bits are below those of two.
      have hagain : Float.ofBits x.toBits = x := ofModel_pack_parts x
      have hlt := x.toBits.toNat_lt
      simp only [bits, UInt64.lt_iff_toNat_lt, UInt64.toNat_sub, UInt64.reduceToNat] at hnear
      rw [← hagain]
      exact within_lnNearOne (within_ofBits (by omega))
  · rw [if_neg hnear, if_neg hzero, if_neg hvalid, if_neg htop]
    split <;> exact within_lnOfBits _ (by norm_num) (by norm_num)

end Triage.Number
