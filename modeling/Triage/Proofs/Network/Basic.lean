/-
What a layer or a network that was accepted is like. The parts of a layer are as long as its widths
say, as long as these are narrow enough for their product to be a number of 64 bits; the layers of a
network follow on one another, all but the last with ReLU, the last with softmax over two classes
or more.
-/
import Mathlib.Algebra.Group.Nat.Defs
import Mathlib.Data.List.Chain
import Triage.Network.Basic

namespace Triage

/-! ## Layers -/

/-- Whether the arrays of a layer have the length that its widths give. -/
structure Layer.Sized (l : Layer) : Prop where
  weights : l.weights.size = l.inputs * l.outputs
  bias : l.bias.size = l.outputs

theorem wordProduct_eq_mod {a b : Nat} (ha : a < UInt64.size) (hb : b < UInt64.size) :
    wordProduct a b = a * b % UInt64.size := by
  unfold wordProduct
  rw [UInt64.toNat_mul, UInt64.toNat_ofNat_of_lt' ha, UInt64.toNat_ofNat_of_lt' hb]

/-- The product of two numbers of 32 bits has no more than 64. -/
theorem wordProduct_eq {a b : Nat} (ha : a < 2 ^ 32) (hb : b < 2 ^ 32) :
    wordProduct a b = a * b := by
  have hlt : a * b < 2 ^ 32 * 2 ^ 32 := Nat.mul_lt_mul'' ha hb
  have hsize : UInt64.size = 2 ^ 32 * 2 ^ 32 := rfl
  rw [wordProduct_eq_mod (by omega) (by omega)]
  exact Nat.mod_eq_of_lt hlt

/-- The parts of a layer that was accepted, neither of its widths having more than 32 bits. -/
theorem Layer.of_ok {inputs outputs : Nat} {weights bias : Singles} {activation : Activation}
    {l : Layer} (h : Layer.of inputs outputs weights bias activation = .ok l)
    (hi : l.inputs < 2 ^ 32) (ho : l.outputs < 2 ^ 32) :
    0 < l.inputs ∧ 0 < l.outputs ∧ l.Sized := by
  unfold Layer.of at h
  split at h
  · cases h
  · rename_i hpos
    split at h
    · cases h
    · rename_i hweights
      split at h
      · cases h
      · rename_i hbias
        cases h
        simp only [not_or, Decidable.not_not] at hpos hweights hbias hi ho
        rw [wordProduct_eq hi ho] at hweights
        exact ⟨Nat.pos_of_ne_zero hpos.1, Nat.pos_of_ne_zero hpos.2, hweights, hbias⟩

/-! ## Networks -/

namespace Network

theorem chainFault_eq_none {ls : List Layer} : chainFault ls = none ↔
    ls.IsChain fun a b => a.activation = .relu ∧ b.inputs = a.outputs := by
  induction ls with
  | nil => simp [chainFault]
  | cons a rest ih =>
    cases rest with
    | nil => simp [chainFault]
    | cons b rest =>
      rw [List.isChain_cons_cons, ← ih, chainFault]
      by_cases ha : a.activation = .relu
      · by_cases hw : b.inputs = a.outputs
        · simp [ha, hw]
        · simp [ha, hw, Ne.symm hw]
      · simp [ha]

/-- The layers of a network that was accepted. -/
theorem of_ok {ls : List Layer} {n : Network} (h : Network.of ls = .ok n) :
    n.layers = ls ∧ (ls.IsChain fun a b => a.activation = .relu ∧ b.inputs = a.outputs) ∧
      ∃ last, ls.getLast? = some last ∧ last.activation = .softmax ∧ 2 ≤ last.outputs := by
  unfold Network.of at h
  split at h
  · cases h
  · rename_i last hlast
    split at h
    · cases h
    · rename_i hsoftmax
      split at h
      · cases h
      · rename_i hclasses
        split at h
        · cases h
        · rename_i hchain
          cases h
          exact ⟨rfl, chainFault_eq_none.1 hchain, last, hlast, Decidable.not_not.1 hsoftmax,
            Nat.le_of_not_lt hclasses⟩

end Network

end Triage
