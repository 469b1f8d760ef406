/-
Results that are no number. What is no number stays none in every operation, and so does positive
infinity in a sum, unless the sum is no number at all. An infinity taken from itself is no number.
-/
import Triage.Number.Exponential
import Triage.Proofs.Number.Finite

namespace Triage.Number

open Float.Model UnpackedFloat

variable {x y : Float32} {xs : List Float32} {s : Sign}

theorem isNaN_iff : x.isNaN = true ↔ partsOfSingle x = .notANumber := by
  rw [isNaN_eq]
  cases partsOfSingle x <;> simp [UnpackedFloat.isNaN]

/-- A single made of no number, as every operation makes one that has no result. -/
theorem isNaN_ofModel {u : UnpackedFloat} (h : u = .notANumber) :
    (Float32.ofModel (Float32.Model.pack u)).isNaN = true := by
  rw [h]
  exact isNaN_iff.2 unpack_packedNaN

theorem isNaN_add_left (h : x.isNaN = true) (y : Float32) : (x + y).isNaN = true := by
  refine isNaN_ofModel (u := UnpackedFloat.add _ (partsOfSingle x) (partsOfSingle y)) ?_
  rw [isNaN_iff.1 h]
  rfl

theorem isNaN_add_right (x : Float32) (h : y.isNaN = true) : (x + y).isNaN = true := by
  refine isNaN_ofModel (u := UnpackedFloat.add _ (partsOfSingle x) (partsOfSingle y)) ?_
  rw [isNaN_iff.1 h]
  cases partsOfSingle x <;> rfl

theorem isNaN_mul_right (x : Float32) (h : y.isNaN = true) : (x * y).isNaN = true := by
  refine isNaN_ofModel (u := UnpackedFloat.mul _ (partsOfSingle x) (partsOfSingle y)) ?_
  rw [isNaN_iff.1 h]
  cases partsOfSingle x <;> rfl

theorem isNaN_sub_left (h : x.isNaN = true) (y : Float32) : (x - y).isNaN = true := by
  refine isNaN_ofModel (u := UnpackedFloat.sub _ (partsOfSingle x) (partsOfSingle y)) ?_
  rw [isNaN_iff.1 h]
  rfl

theorem isNaN_div_left (h : x.isNaN = true) (y : Float32) : (x / y).isNaN = true := by
  refine isNaN_ofModel (u := UnpackedFloat.div _ (partsOfSingle x) (partsOfSingle y)) ?_
  rw [isNaN_iff.1 h]
  rfl

theorem isNaN_exp (h : x.isNaN = true) : (exp x).isNaN = true := by
  unfold exp
  rwa [if_pos h]

/-- An infinity taken from one of the same sign. -/
theorem isNaN_sub_infinity (hx : partsOfSingle x = .infinity s) (hy : partsOfSingle y = .infinity s) :
    (x - y).isNaN = true := by
  refine isNaN_ofModel (u := UnpackedFloat.sub _ (partsOfSingle x) (partsOfSingle y)) ?_
  rw [hx, hy]
  cases s <;> rfl

/-! ## Divergence -/

/-- Whether a single is what is left of a sum that grew beyond all bounds: it is no number, or positive
infinity. -/
def Diverged (x : Float32) : Prop :=
  x.isNaN = true ∨ IsInfinity x

/-- What has diverged does not come back in a sum. -/
theorem Diverged.add (h : Diverged x) (y : Float32) : Diverged (x + y) := by
  rcases h with h | h
  · exact .inl (isNaN_add_left h y)
  · have hparts : partsOfSingle (x + y) = UnpackedFloat.unpack Format.binary32
        (UnpackedFloat.pack Format.binary32
          (UnpackedFloat.add Format.binary32 (partsOfSingle x) (partsOfSingle y))) := rfl
    rw [h] at hparts
    cases hy : partsOfSingle y with
    | notANumber => exact .inl (isNaN_add_right x (isNaN_iff.2 hy))
    | infinity t =>
      rw [hy] at hparts
      cases t with
      | negative => exact .inl (isNaN_iff.2 (hparts.trans unpack_packedNaN))
      | positive => exact .inr (hparts.trans (unpack_packedInfinity .positive))
    | zero t =>
      rw [hy] at hparts
      exact .inr (hparts.trans (unpack_packedInfinity .positive))
    | finite t m e hm =>
      rw [hy] at hparts
      exact .inr (hparts.trans (unpack_packedInfinity .positive))

/-- What has neither diverged nor is finite. -/
theorem negativeInfinity_of_not (h : ¬Diverged x) (hx : x.isFinite = false) :
    partsOfSingle x = .infinity .negative := by
  obtain ⟨s, hs⟩ := infinite_of_not hx (Bool.eq_false_of_not_eq_true fun hn => h (.inl hn))
  cases s with
  | negative => exact hs
  | positive => exact absurd (.inr hs) h

/-- The largest of some minus infinities. -/
theorem largest_negativeInfinity (hx : partsOfSingle x = .infinity .negative)
    (h : ∀ y ∈ xs, partsOfSingle y = .infinity .negative) :
    partsOfSingle (xs.foldl larger x) = .infinity .negative := by
  have hnumber {y : Float32} (hy : partsOfSingle y = .infinity .negative) : y.isNaN = false := by
    rw [isNaN_eq, hy]
    rfl
  induction xs generalizing x with
  | nil => exact hx
  | cons y rest ih =>
    obtain ⟨hy, hrest⟩ := List.forall_mem_cons.1 h
    refine ih ?_ hrest
    rw [larger_of_numbers (hnumber hx) (hnumber hy)]
    split <;> assumption

end Triage.Number
