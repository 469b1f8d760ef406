/-
What is left of weights that are kept as bytes. If all weights of a layer are finite, every scale is
finite and every byte lies between -127 and 127. A scale is positive unless its output is faint: some
weight of the output is other than zero, but all are below 2^-143, and the hundred and twenty-seventh
part of the largest is rounded to zero. The weights are divided by that zero then, so that those other
than zero are kept as 127 or -127, and none has an effect any more. The largest weight of any other
output is kept as a byte that is not below 64, and has an effect (`scales_of_finite`).
-/
import Triage.Proofs.Model.Broken
import Triage.Proofs.Number.Single

namespace Triage

open Number (magnitude)

variable {l : Layer} {i j : Nat}

/-! ## Effects -/

/-- What an input of one adds to the sum of an output as it is kept. -/
def StoredLayer.effect (l : StoredLayer) (i j : Nat) : Float32 :=
  l.unscaledSum [(i, 1)] j

/-- The single of a byte other than zero is finite and not below one. -/
theorem singleOfInt8_cases {q : Int8} (hq : q ≠ 0) :
    (singleOfInt8 q).isFinite = true ∧ 1 ≤ magnitude (singleOfInt8 q) := by
  have hall : ∀ n : Fin 256, Int8.ofBitVec (BitVec.ofFin n) ≠ 0 →
      (singleOfInt8 (Int8.ofBitVec (BitVec.ofFin n))).isFinite = true ∧
        ¬(singleOfInt8 (Int8.ofBitVec (BitVec.ofFin n))).abs < Float32.abs 1 := by
    decide +kernel
  obtain ⟨hfinite, hle⟩ := hall q.toBitVec.toFin hq
  rw [Number.abs_lt_abs hfinite (by decide), Number.magnitude_one] at hle
  exact ⟨hfinite, not_lt.1 hle⟩

theorem isFinite_singleOfInt8 (q : Int8) : (singleOfInt8 q).isFinite = true := by
  by_cases hq : q = 0
  · rw [hq]
    rfl
  · exact (singleOfInt8_cases hq).1

/-- An input of one is weighted by the byte alone. -/
theorem weightedSum_one (value : Nat → Int8) (i : Nat) :
    weightedSum (fun k => singleOfInt8 (value k)) 0 [(i, 1)] = singleOfInt8 (value i) := by
  show 0 + 1 * singleOfInt8 (value i) = _
  rw [Number.one_mul_eq (isFinite_singleOfInt8 _)]
  refine Number.zero_add_eq fun hparts => ?_
  by_cases hq : value i = 0
  · rw [hq] at hparts
    cases hparts
  · have hlarge := (singleOfInt8_cases hq).2
    rw [Number.magnitude_of_zero hparts] at hlarge
    exact absurd hlarge (by norm_num)

/-! ## Outputs -/

/-- Whether some weight of an output is other than zero, and none is above 63 times the least
single. -/
structure Layer.Faint (l : Layer) (j : Nat) : Prop where
  some : ∃ i < l.inputs, 0 < (l.weight i j).abs
  small : ∀ i < l.inputs, (l.weight i j).abs < Float32.ofBits 64

namespace Layer

theorem isFinite_weight (h : ∀ w ∈ l.weights, w.isFinite = true) (i j : Nat) :
    (l.weight i j).isFinite = true :=
  Number.getD_of_all (p := fun w : Float32 => w.isFinite = true) h (by decide) (i * l.outputs + j)

/-- The largest magnitude is that of a weight, or zero if there is none. -/
theorem magnitudeOf_finite (h : ∀ w ∈ l.weights, w.isFinite = true) (j : Nat) :
    ∃ z, z.isFinite = true ∧ magnitudeOf l j = z.abs ∧
      (z = 0 ∨ ∃ i < l.inputs, l.weight i j = z) ∧
      ∀ i < l.inputs, magnitude (l.weight i j) ≤ magnitude z := by
  have hall : ∀ y ∈ (List.range l.inputs).map (l.weight · j), y.isFinite = true := by
    intro y hy
    obtain ⟨i, -, rfl⟩ := List.mem_map.1 hy
    exact isFinite_weight h i j
  obtain ⟨z, hz, hfold, hmost⟩ := Number.largest_abs (x := 0) (by decide) hall
  rw [List.map_map] at hfold
  refine ⟨z, ?_, (magnitudeOf_eq l j).trans hfold, ?_, ?_⟩
  · rcases List.mem_cons.1 hz with rfl | hz
    · decide
    · exact hall z hz
  · rcases List.mem_cons.1 hz with rfl | hz
    · exact .inl rfl
    · obtain ⟨i, hi, hiz⟩ := List.mem_map.1 hz
      exact .inr ⟨i, List.mem_range.1 hi, hiz⟩
  · intro i hi
    exact hmost _ (List.mem_cons_of_mem 0 (List.mem_map_of_mem (List.mem_range.2 hi)))

/-- The scales of the outputs. -/
def scales (l : Layer) : Singles :=
  Array.ofFn fun j : Fin l.outputs => scaleOf l j

/-- The weights as bytes, each divided by the scale of its output. -/
def bytes (l : Layer) : Array Int8 :=
  l.weights.mapIdx fun k w => Number.toInt8 (w / l.scales.getD (k % l.outputs) 1)

theorem stored_weights (l : Layer) : (l.stored .int8).weights = .int8 l.scales l.bytes :=
  rfl

theorem getD_scales (hj : j < l.outputs) (x : Float32) : l.scales.getD j x = scaleOf l j := by
  unfold scales
  rw [Array.getD_eq_getD_getElem?, Array.getElem?_ofFn, dif_pos hj]
  rfl

theorem getD_bytes (hj : j < l.outputs) (i : Nat) :
    l.bytes.getD (i * l.outputs + j) 0 = Number.toInt8 (l.weight i j / scaleOf l j) := by
  have hmod : (i * l.outputs + j) % l.outputs = j := by
    rw [Nat.mul_add_mod_self_right, Nat.mod_eq_of_lt hj]
  unfold bytes weight
  rw [Array.getD_eq_getD_getElem?, Array.getD_eq_getD_getElem?, Array.getElem?_mapIdx]
  cases l.weights[i * l.outputs + j]? with
  | none => exact (Number.toInt8_zero_div _).symm
  | some w =>
    rw [Option.map_some, Option.getD_some, Option.getD_some, hmod, getD_scales hj]

theorem effect_eq (hj : j < l.outputs) (i : Nat) : (l.stored .int8).effect i j =
    singleOfInt8 (Number.toInt8 (l.weight i j / scaleOf l j)) * scaleOf l j := by
  rw [← getD_bytes hj, ← weightedSum_one (fun k => l.bytes.getD (k * l.outputs + j) 0)]
  exact congrArg (weightedSum _ 0 [(i, 1)] * ·) (getD_scales hj 0)

/-- An output is faint just if its largest magnitude is, but is not zero. -/
theorem faint_iff {z : Float32} (h : ∀ w ∈ l.weights, w.isFinite = true)
    (hmem : z = 0 ∨ ∃ i < l.inputs, l.weight i j = z)
    (hmost : ∀ i < l.inputs, magnitude (l.weight i j) ≤ magnitude z) :
    l.Faint j ↔ 0 < magnitude z ∧ magnitude z < 2 ^ (-143 : ℤ) := by
  have hpos (i : Nat) : 0 < (l.weight i j).abs ↔ 0 < magnitude (l.weight i j) :=
    Number.abs_pos_iff (isFinite_weight h i j)
  constructor
  · rintro ⟨⟨i, hi, hsome⟩, hall⟩
    have hzpos : 0 < magnitude z := lt_of_lt_of_le ((hpos i).1 hsome) (hmost i hi)
    refine ⟨hzpos, ?_⟩
    obtain rfl | ⟨k, hk, rfl⟩ := hmem
    · exact absurd hzpos (by decide +kernel)
    · exact (Number.abs_lt_iff (isFinite_weight h k j)).1 (hall k hk)
  · rintro ⟨hzpos, hsmall⟩
    refine ⟨?_, fun i hi => ?_⟩
    · obtain rfl | ⟨k, hk, rfl⟩ := hmem
      · exact absurd hzpos (by decide +kernel)
      · exact ⟨k, hk, (hpos k).2 hzpos⟩
    · exact (Number.abs_lt_iff (isFinite_weight h i j)).2 (lt_of_le_of_lt (hmost i hi) hsmall)

/-- The scale of an output whose weights are finite, and what becomes of the largest of them. -/
theorem scaleOf_cases (h : ∀ w ∈ l.weights, w.isFinite = true) (j : Nat) :
    (l.Faint j → scaleOf l j = 0) ∧
      (¬l.Faint j → 0 < scaleOf l j ∧ ((∃ i < l.inputs, 0 < (l.weight i j).abs) →
        ∃ i < l.inputs, 0 < magnitude (scaleOf l j) ∧
          64 * magnitude (scaleOf l j) ≤ magnitude (l.weight i j))) := by
  obtain ⟨z, hz, htop, hmem, hmost⟩ := magnitudeOf_finite h j
  have hscale : scaleOf l j = if 0 < z.abs then z.abs / 127 else 1 := by
    unfold scaleOf
    rw [htop]
  rw [faint_iff h hmem hmost, hscale]
  constructor
  · rintro ⟨hzpos, hsmall⟩
    rw [if_pos ((Number.abs_pos_iff hz).2 hzpos)]
    exact Number.part_eq_zero hz hsmall
  · intro hfaint
    by_cases hzpos : 0 < magnitude z
    · rw [if_pos ((Number.abs_pos_iff hz).2 hzpos)]
      have hlarge : 2 ^ (-143 : ℤ) ≤ magnitude z := not_lt.1 fun hlt => hfaint ⟨hzpos, hlt⟩
      obtain ⟨hpos, hpart, hgoes⟩ := Number.part_pos hlarge
      refine ⟨hpos, fun _ => ?_⟩
      obtain rfl | ⟨k, hk, rfl⟩ := hmem
      · exact absurd hzpos (by decide +kernel)
      · exact ⟨k, hk, hpart, hgoes⟩
    · rw [if_neg (mt (Number.abs_pos_iff hz).1 hzpos)]
      refine ⟨by decide, ?_⟩
      rintro ⟨i, hi, hsome⟩
      rw [Number.abs_pos_iff (isFinite_weight h i j)] at hsome
      exact absurd (hsome.trans_le (hmost i hi)) hzpos

/-- Finite weights kept as bytes. The scale of an output is zero just if the output is faint: its
weights other than zero are kept as 127 or -127 then, and none has an effect. The scale of any other
output is positive, and if a weight is other than zero, some weight is kept as a byte that is not
below 64 and has an effect. -/
theorem scales_of_finite (h : ∀ w ∈ l.weights, w.isFinite = true) :
    (l.stored .int8).weights = .int8 l.scales l.bytes ∧
      l.scales.size = l.outputs ∧ l.bytes.size = l.weights.size ∧
      (∀ q ∈ l.bytes, -127 ≤ q.toInt ∧ q.toInt ≤ 127) ∧
      ∀ j < l.outputs, (l.scales.getD j 0).isFinite = true ∧
        (l.Faint j → l.scales.getD j 0 = 0 ∧ ∀ i < l.inputs,
          (0 < (l.weight i j).abs → (l.bytes.getD (i * l.outputs + j) 0).toInt.natAbs = 127) ∧
            ((l.stored .int8).effect i j).abs = 0) ∧
        (¬l.Faint j → 0 < l.scales.getD j 0 ∧ ((∃ i < l.inputs, 0 < (l.weight i j).abs) →
          ∃ i < l.inputs, 64 ≤ (l.bytes.getD (i * l.outputs + j) 0).toInt.natAbs ∧
            0 < ((l.stored .int8).effect i j).abs)) := by
  refine ⟨l.stored_weights, Array.size_ofFn, Array.size_mapIdx, ?_, fun j hj => ?_⟩
  · intro q hq
    obtain ⟨k, hk, rfl⟩ := Array.mem_mapIdx.1 hq
    have := Number.natAbs_toInt8_le (l.weights[k] / l.scales.getD (k % l.outputs) 1)
    omega
  obtain ⟨hfaint, hother⟩ := scaleOf_cases h j
  simp only [getD_scales hj, getD_bytes hj, effect_eq hj]
  refine ⟨isFinite_scaleOf fun i _ => .inl (isFinite_weight h i j), fun hj => ?_, fun hj => ?_⟩
  · rw [hfaint hj]
    refine ⟨rfl, fun i hi => ⟨fun hw => ?_, ?_⟩⟩
    · exact Number.toInt8_div_zero ((Number.abs_pos_iff (isFinite_weight h i j)).1 hw)
    · exact Number.abs_mul_zero (isFinite_singleOfInt8 _)
  · obtain ⟨hpos, hlargest⟩ := hother hj
    refine ⟨hpos, fun hsome => ?_⟩
    obtain ⟨i, hi, hpart, hgoes⟩ := hlargest hsome
    have hbyte := Number.toInt8_div hpart hgoes
    have hsome : Number.toInt8 (l.weight i j / scaleOf l j) ≠ 0 := by
      intro hzero
      rw [hzero] at hbyte
      exact absurd hbyte (by decide)
    exact ⟨i, hi, hbyte, Number.abs_mul_pos (singleOfInt8_cases hsome).2 hpart⟩

/-- A layer of two outputs, the first of which is faint. -/
def halfFaint : Layer :=
  ⟨1, 2, #[Float32.ofBits 63, 1], #[0, 0], .softmax⟩

theorem scales_of_finite_halfFaint :
    (∀ w ∈ halfFaint.weights, w.isFinite = true) ∧
      (halfFaint.Faint 0 ∧ halfFaint.scales.getD 0 0 = 0) ∧
      ¬halfFaint.Faint 1 ∧ 0 < halfFaint.scales.getD 1 0 ∧
        ∃ i < 1, 64 ≤ (halfFaint.bytes.getD (i * 2 + 1) 0).toInt.natAbs ∧
          0 < ((halfFaint.stored .int8).effect i 1).abs := by
  have hfinite : ∀ w ∈ halfFaint.weights, w.isFinite = true := by decide +kernel
  have hfaint : halfFaint.Faint 0 := ⟨⟨0, by decide, by decide +kernel⟩, by decide +kernel⟩
  have hother : ¬halfFaint.Faint 1 := fun hf => absurd (hf.small 0 (by decide)) (by decide +kernel)
  obtain ⟨-, -, -, -, houtputs⟩ := scales_of_finite hfinite
  obtain ⟨-, hlost, -⟩ := houtputs 0 (by decide)
  obtain ⟨-, -, hkept⟩ := houtputs 1 (by decide)
  obtain ⟨hpos, heffect⟩ := hkept hother
  exact ⟨hfinite, ⟨hfaint, (hlost hfaint).1⟩, hother, hpos,
    heffect ⟨0, by decide, by decide +kernel⟩⟩

end Layer

namespace Model

/-- A network whose first layer has one faint output, which the second layer makes up for. -/
def faintFirst : Network :=
  ⟨[⟨1, 1, #[Float32.ofBits 63], #[0], .relu⟩, ⟨1, 2, #[0, 1e8], #[0, 0], .softmax⟩]⟩

/-- A faint output does not survive: its scale is zero and its only weight, which is not, has no
effect as it is kept. So the network decides in another way once its weights are kept as bytes. -/
theorem faint_lost :
    Network.of faintFirst.layers = .ok faintFirst ∧
      (∀ l ∈ faintFirst.layers, ∃ inputs outputs weights bias activation,
        Layer.of inputs outputs weights bias activation = .ok l) ∧
      (∀ l ∈ faintFirst.layers, ∀ w ∈ l.weights, w.isFinite = true) ∧
      (∃ l ∈ faintFirst.layers, 0 < (l.weight 0 0).abs ∧
        (l.stored .int8).weights = .int8 #[0] #[127] ∧ (l.stored .int8).effect 0 0 = 0) ∧
      faintFirst.scorer.predict #[1e36] = .ok 1 ∧
      (ofNetwork faintFirst .int8).scorer.predict #[1e36] = .ok 0 := by
  refine ⟨rfl, ?_, by decide +kernel, ⟨_, List.mem_cons_self, ?_⟩, ?_, ?_⟩
  · refine List.forall_mem_cons.2 ⟨⟨1, 1, #[Float32.ofBits 63], #[0], .relu, rfl⟩, ?_⟩
    exact List.forall_mem_singleton.2 ⟨1, 2, #[0, 1e8], #[0, 0], .softmax, rfl⟩
  · decide +kernel
  · decide +kernel
  · decide +kernel

end Model

end Triage
