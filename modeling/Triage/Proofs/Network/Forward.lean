/-
What a layer that was accepted can be asked for. The number of its weights is compared with the
product of its widths as a number of 64 bits. As long as the product is one, an accepted layer has a
weight from each input to each output, and takes every vector as wide as its inputs. A product that
has more bits is compared without them, and a layer is accepted that lacks most of its weights
(`hollow_accepted`).
-/
import Triage.Proofs.Network.Basic
import Triage.Proofs.Network.Slices

namespace Triage

namespace Layer

variable {l : Layer} {inputs outputs : Nat} {weights bias : Singles} {activation : Activation}

/-! ## Acceptance -/

/-- A layer is accepted just if its parts have the sizes that its widths give in 64 bits. -/
theorem of_eq_ok_iff (hi : inputs < UInt64.size) (ho : outputs < UInt64.size) :
    Layer.of inputs outputs weights bias activation = .ok l ↔
      (0 < inputs ∧ 0 < outputs ∧ weights.size = inputs * outputs % UInt64.size ∧
        bias.size = outputs) ∧ l = ⟨inputs, outputs, weights, bias, activation⟩ := by
  have hproduct := wordProduct_eq_mod hi ho
  unfold Layer.of
  rw [hproduct]
  constructor
  · intro h
    split at h
    · cases h
    · rename_i hpos
      split at h
      · cases h
      · rename_i hweights
        split at h
        · cases h
        · rename_i hbias
          cases h
          obtain ⟨hinputs, houtputs⟩ := not_or.1 hpos
          exact ⟨⟨Nat.pos_of_ne_zero hinputs, Nat.pos_of_ne_zero houtputs,
            Decidable.not_not.1 hweights, Decidable.not_not.1 hbias⟩, rfl⟩
  · rintro ⟨⟨hinputs, houtputs, hweights, hbias⟩, rfl⟩
    rw [if_neg (by omega), if_neg (not_not.2 hweights), if_neg (not_not.2 hbias)]

/-! ## Weights and sums -/

/-- The weight from an input to an output, unless it is not there or its place is no number of 64
bits. -/
def weight? (l : Layer) (input output : Nat) : Option Float32 := do
  let place ← word? (input * l.outputs + output)
  l.weights[place]?

/-- Adds what an input gives to each output. -/
def addInput? (l : Layer) (out : Singles) : Nat × Float32 → Option Singles
  | (i, v) => (row? l.weights l.outputs i).map (zipInto (fun sum w => sum + v * w) out)

/-- The output of a layer, unless a row of weights is missing. -/
def forward? (l : Layer) (x : Singles) : Option Singles := do
  let out ← (activeInputs x).foldlM l.addInput? l.bias
  pure (l.activation.apply out)

theorem place_lt {i j : Nat} (hi : i < l.inputs) (hj : j < l.outputs) :
    i * l.outputs + j < l.inputs * l.outputs :=
  Nat.lt_of_lt_of_le (Nat.add_lt_add_left hj _) (row_le hi)

theorem Sized.weight?_eq (hs : l.Sized) (hw : l.inputs * l.outputs < UInt64.size) {i j : Nat}
    (hi : i < l.inputs) (hj : j < l.outputs) : l.weight? i j = some (l.weight i j) := by
  have hplace := place_lt hi hj
  have hlt : i * l.outputs + j < l.weights.size := hs.weights ▸ hplace
  rw [weight?, word?_eq (hplace.trans hw)]
  simp [weight, hlt]

/-- Inputs added one after the other to all outputs give each output its weighted sum. -/
theorem Sized.foldlM_addInput? (hs : l.Sized) (hw : l.inputs * l.outputs < UInt64.size)
    {active : List (Nat × Float32)} (h : ∀ e ∈ active, e.1 < l.inputs)
    (start : Fin l.outputs → Float32) : active.foldlM l.addInput? (Array.ofFn start) =
      some (Array.ofFn fun j => weightedSum (l.weight · j) (start j) active) := by
  induction active generalizing start with
  | nil => rfl
  | cons e rest ih =>
    obtain ⟨i, v⟩ := e
    obtain ⟨hi, hrest⟩ := List.forall_mem_cons.1 h
    have hadd : l.addInput? (Array.ofFn start) (i, v) =
        some (Array.ofFn fun j => start j + v * l.weight i j) := by
      rw [addInput?, row?_eq hs.weights hw hi 0, Option.map_some, zipInto_ofFn _ _ Array.size_ofFn]
      simp [weight]
    rw [List.foldlM_cons, hadd]
    exact ih hrest _

/-- No row is missing for a vector as wide as the inputs. -/
theorem Sized.forward?_eq (hs : l.Sized) (hw : l.inputs * l.outputs < UInt64.size) {x : Singles}
    (hx : x.size = l.inputs) : l.forward? x = some (l.forward x) := by
  have hbias : l.bias = Array.ofFn fun j : Fin l.outputs => l.bias.getD j 0 :=
    Array.ext (by simp [hs.bias]) fun j hj _ => by simp [hj]
  have hactive : ∀ e ∈ activeInputs x, e.1 < l.inputs := fun e he =>
    hx ▸ lt_of_mem_activeInputs he
  have hsums : (activeInputs x).foldlM l.addInput? l.bias = some (l.sums x) := by
    conv_lhs => rw [hbias]
    exact hs.foldlM_addInput? hw hactive _
  rw [forward?, hsums]
  rfl

/-! ## Main statement -/

/-- A layer of widths that are numbers of 64 bits is accepted just if the widths are positive, the
number of weights is the rest of their product in 64 bits, and there is a bias for each output. If
the product has no more bits, that is the product itself, and no weight of an accepted layer is
missing, neither by itself nor for a vector as wide as the inputs. If it has more, an accepted layer
has too few weights, and the last of them is not there. -/
theorem accepted_iff_shape (hi : inputs < UInt64.size) (ho : outputs < UInt64.size) :
    ((∃ l, Layer.of inputs outputs weights bias activation = .ok l) ↔
      0 < inputs ∧ 0 < outputs ∧ weights.size = inputs * outputs % UInt64.size ∧
        bias.size = outputs) ∧
    (inputs * outputs < UInt64.size →
      ((∃ l, Layer.of inputs outputs weights bias activation = .ok l) ↔
        0 < inputs ∧ 0 < outputs ∧ weights.size = inputs * outputs ∧ bias.size = outputs) ∧
      ∀ l, Layer.of inputs outputs weights bias activation = .ok l →
        (∀ i < inputs, ∀ j < outputs, l.weight? i j = some (l.weight i j)) ∧
        ∀ x : Singles, x.size = inputs → l.forward? x = some (l.forward x)) ∧
    (UInt64.size ≤ inputs * outputs →
      ∀ l, Layer.of inputs outputs weights bias activation = .ok l →
        weights.size < inputs * outputs ∧ l.weight? (inputs - 1) (outputs - 1) = none) := by
  have hof := fun l => @of_eq_ok_iff l inputs outputs weights bias activation hi ho
  have hshape : (∃ l, Layer.of inputs outputs weights bias activation = .ok l) ↔
      0 < inputs ∧ 0 < outputs ∧ weights.size = inputs * outputs % UInt64.size ∧
        bias.size = outputs := by
    constructor
    · rintro ⟨l, hl⟩
      exact ((hof l).1 hl).1
    · intro h
      exact ⟨_, (hof _).2 ⟨h, rfl⟩⟩
  refine ⟨hshape, fun hw => ⟨?_, fun l hl => ?_⟩, fun hw l hl => ?_⟩
  · rw [hshape, Nat.mod_eq_of_lt hw]
  · obtain ⟨⟨-, -, hweights, hbias⟩, rfl⟩ := (hof l).1 hl
    rw [Nat.mod_eq_of_lt hw] at hweights
    have hsized : Sized ⟨inputs, outputs, weights, bias, activation⟩ := ⟨hweights, hbias⟩
    exact ⟨fun i hin j hout => hsized.weight?_eq hw hin hout,
      fun x hx => hsized.forward?_eq hw hx⟩
  · obtain ⟨⟨hinputs, houtputs, hweights, -⟩, rfl⟩ := (hof l).1 hl
    have hlt : weights.size < UInt64.size :=
      hweights ▸ Nat.mod_lt _ (by decide)
    have hlast : (inputs - 1) * outputs + (outputs - 1) = inputs * outputs - 1 := by
      obtain ⟨n, rfl⟩ := Nat.exists_eq_add_of_lt hinputs
      rw [Nat.zero_add, Nat.add_sub_cancel, Nat.succ_mul]
      omega
    refine ⟨Nat.lt_of_lt_of_le hlt hw, ?_⟩
    unfold weight? word?
    simp only [hlast]
    split
    · exact Array.getElem?_eq_none (by omega)
    · rfl

theorem accepted_iff_shape_two : ∃ l, Layer.of 2 3 #[1, 2, 3, 4, 5, 6] #[0, 0, 0] .relu = .ok l ∧
    l.weight? 1 2 = some 6 ∧ l.forward? #[1, 1] = some #[5, 7, 9] := by
  obtain ⟨-, hfits, -⟩ := @accepted_iff_shape 2 3 #[1, 2, 3, 4, 5, 6] #[0, 0, 0] .relu (by decide)
    (by decide)
  obtain ⟨haccepted, hthere⟩ := hfits (by decide)
  obtain ⟨l, hl⟩ := haccepted.2 (by decide)
  obtain ⟨hweight, hforward⟩ := hthere l hl
  refine ⟨l, hl, (hweight 1 (by decide) 2 (by decide)).trans ?_, (hforward #[1, 1] rfl).trans ?_⟩
  all_goals
    cases hl
    decide +kernel

/-- The product of the widths is two to the power of 64, so a layer without weights is accepted, and
no weight is found in it. -/
theorem hollow_accepted : ∃ l, Layer.of (2 ^ 63) 2 #[] #[0, 0] .softmax = .ok l ∧
    (#[] : Singles).size ≠ 2 ^ 63 * 2 ∧ l.weight? 0 0 = none :=
  ⟨_, rfl, by decide, rfl⟩

end Layer

end Triage
