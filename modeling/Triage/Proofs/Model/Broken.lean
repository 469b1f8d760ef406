/-
Networks with numbers that are not finite. Singles are checked when they are read, so a bias that is
not finite is always found, and so is a weight that is kept as it is. A weight that is kept as a
byte is only seen through the scale of its output: infinity makes that infinite, but what is no
number gives way to the other magnitudes and is kept as zero is. So a network is refused unless all
it has that is not finite are weights that are no number, kept as bytes; and then it is read as the
network with zeros in their place (`unseen_published`).
-/
import Triage.Proofs.Model.Format
import Triage.Proofs.Number.Finite
import Triage.Trained

namespace Triage

open Number (IsInfinity)

variable {l : Layer} {j : Nat}

/-! ## Scales -/

theorem magnitudeOf_eq (l : Layer) (j : Nat) :
    magnitudeOf l j =
      ((List.range l.inputs).map fun i => (l.weight i j).abs).foldl Number.larger 0 := by
  unfold magnitudeOf
  rw [List.foldl_map]

/-- A scale is finite if no weight of its output is infinite. -/
theorem isFinite_scaleOf (h : ∀ i < l.inputs,
    (l.weight i j).isFinite = true ∨ (l.weight i j).isNaN = true) :
    (scaleOf l j).isFinite = true := by
  have htop : (magnitudeOf l j).isFinite = true := by
    rw [magnitudeOf_eq]
    refine Number.isFinite_largest (by decide) ?_
    intro x hx
    obtain ⟨i, hi, rfl⟩ := List.mem_map.1 hx
    rw [Number.isFinite_abs, Number.isNaN_abs]
    exact h i (List.mem_range.1 hi)
  unfold scaleOf
  simp only
  split
  · exact Number.isFinite_div htop
  · decide

/-- A scale is not finite if a weight of its output is infinite. -/
theorem not_isFinite_scaleOf {i : Nat} (hi : i < l.inputs)
    (hw : (l.weight i j).isFinite = false) (hn : (l.weight i j).isNaN = false) :
    (scaleOf l j).isFinite = false := by
  have htop : IsInfinity (magnitudeOf l j) := by
    rw [magnitudeOf_eq]
    refine Number.isInfinity_largest (by decide) ⟨_, List.mem_map_of_mem (List.mem_range.2 hi), ?_⟩
    obtain ⟨s, hs⟩ := Number.infinite_of_not hw hn
    show Number.partsOfSingle _ = _
    rw [Number.partsOfSingle_abs, hs]
    rfl
  unfold scaleOf
  simp only
  rw [if_pos htop.div.2]
  exact htop.div.1

/-! ## Weights that are no number -/

/-- A layer with zeros for the weights that are no number. -/
def Layer.cleared (l : Layer) : Layer :=
  { l with weights := l.weights.map Number.cleared }

namespace Layer

theorem weight_cleared (l : Layer) (i j : Nat) :
    l.cleared.weight i j = Number.cleared (l.weight i j) := by
  show (l.weights.map Number.cleared).getD (i * l.outputs + j) 0 = _
  unfold weight
  rw [Array.getD_eq_getD_getElem?, Array.getD_eq_getD_getElem?, Array.getElem?_map]
  cases l.weights[i * l.outputs + j]? with
  | none => decide
  | some w => rfl

theorem scaleOf_cleared (l : Layer) (j : Nat) : scaleOf l.cleared j = scaleOf l j := by
  have htop : magnitudeOf l.cleared j = magnitudeOf l j := by
    rw [magnitudeOf_eq, magnitudeOf_eq]
    simp only [weight_cleared]
    exact Number.largest_cleared _ (by decide) (by decide)
  unfold scaleOf
  rw [htop]

theorem quantizeInt8_cleared (l : Layer) : quantizeInt8 l.cleared = quantizeInt8 l := by
  unfold quantizeInt8
  simp only [scaleOf_cleared]
  refine congrArg (StoredWeights.int8 _) (Array.ext ?_ ?_)
  · simp only [cleared, Array.size_mapIdx, Array.size_map]
  · intro k hk hk'
    simp only [cleared, Array.getElem_mapIdx, Array.getElem_map, Number.toInt8_cleared]

/-- A layer that is kept as bytes is kept as if weights that are no number were zero. -/
theorem stored_cleared (l : Layer) : l.cleared.stored .int8 = l.stored .int8 := by
  unfold stored
  simp only [quantizeInt8_cleared]
  rfl

end Layer

/-! ## Layers -/

/-- Whether a layer that is kept in a way shows that not all of its numbers are finite. -/
def Layer.Shows (l : Layer) (q : Quantization) : Prop :=
  (∃ b ∈ l.bias, b.isFinite = false) ∨
    ∃ w ∈ l.weights, w.isFinite = false ∧ (q = .float32 ∨ w.isNaN = false)

namespace Layer

/-- Every weight is that from some input to some output. -/
theorem Sized.exists_weight (h : l.Sized) {w : Float32} (hw : w ∈ l.weights) :
    ∃ i < l.inputs, ∃ j < l.outputs, l.weight i j = w := by
  obtain ⟨k, hk, rfl⟩ := Array.mem_iff_getElem.1 hw
  have hpos : 0 < l.outputs := by
    refine Nat.pos_of_ne_zero ?_
    intro hzero
    have hsize := h.weights
    rw [hzero, Nat.mul_zero] at hsize
    omega
  have hlt : k < l.inputs * l.outputs := h.weights ▸ hk
  refine ⟨k / l.outputs, Nat.div_lt_of_lt_mul (by rwa [Nat.mul_comm]), k % l.outputs,
    Nat.mod_lt k hpos, ?_⟩
  unfold weight
  rw [Nat.div_add_mod', Array.getElem_eq_getD 0]

/-- So the weights are those from an input to an output. -/
theorem Sized.weight_mem (h : l.Sized) {i : Nat} (hi : i < l.inputs) (hj : j < l.outputs) :
    l.weight i j ∈ l.weights := by
  have hlt : i * l.outputs + j < l.weights.size := by
    rw [h.weights]
    calc i * l.outputs + j < i * l.outputs + l.outputs := Nat.add_lt_add_left hj _
      _ = (i + 1) * l.outputs := (Nat.succ_mul i l.outputs).symm
      _ ≤ l.inputs * l.outputs := Nat.mul_le_mul_right _ hi
  unfold weight
  rw [← Array.getElem_eq_getD (h := hlt) 0]
  exact Array.getElem_mem hlt

/-- A layer that does not show it is kept as if weights that are no number were zero. -/
theorem stored_of_not_shows {q : Quantization} (h : ¬l.Shows q) :
    l.cleared.stored q = l.stored q := by
  cases q with
  | int8 => exact l.stored_cleared
  | float32 =>
    have hweights : l.weights.map Number.cleared = l.weights := by
      refine Array.ext (Array.size_map ..) ?_
      intro k hk hk'
      have hfinite : l.weights[k].isFinite = true := by
        by_contra hnot
        exact h (.inr ⟨_, Array.getElem_mem hk', Bool.eq_false_of_not_eq_true hnot, .inl rfl⟩)
      rw [Array.getElem_map, Number.cleared, Number.isNaN_of_isFinite hfinite]
      rfl
    unfold cleared
    rw [hweights]

theorem mem_scales {x : Float32} :
    x ∈ (l.stored .int8).weights.singles ↔ ∃ j < l.outputs, scaleOf l j = x := by
  show x ∈ (Array.ofFn fun j : Fin l.outputs => scaleOf l j).toList ↔ _
  rw [Array.mem_toList_iff, Array.mem_ofFn]
  exact ⟨fun ⟨j, hj⟩ => ⟨j, j.isLt, hj⟩, fun ⟨j, hlt, hj⟩ => ⟨⟨j, hlt⟩, hj⟩⟩

/-- A scale is not finite just if a weight is infinite. -/
theorem Sized.scale_iff (h : l.Sized) :
    (∃ x ∈ (l.stored .int8).weights.singles, x.isFinite = false) ↔
      ∃ w ∈ l.weights, w.isFinite = false ∧ w.isNaN = false := by
  constructor
  · rintro ⟨x, hx, hnot⟩
    obtain ⟨j, hj, rfl⟩ := mem_scales.1 hx
    by_contra hnone
    have hfinite : (scaleOf l j).isFinite = true := by
      refine isFinite_scaleOf ?_
      intro i hi
      by_contra hw
      obtain ⟨hw, hn⟩ := not_or.1 hw
      exact hnone ⟨_, h.weight_mem hi hj, Bool.eq_false_of_not_eq_true hw,
        Bool.eq_false_of_not_eq_true hn⟩
    rw [hfinite] at hnot
    cases hnot
  · rintro ⟨w, hw, hnot, hn⟩
    obtain ⟨i, hi, j, hj, rfl⟩ := h.exists_weight hw
    exact ⟨_, mem_scales.2 ⟨j, hj, rfl⟩, not_isFinite_scaleOf hi hnot hn⟩

/-- A layer shows it exactly if one of the singles that are kept of it is not finite. -/
theorem Sized.shows_iff (h : l.Sized) (q : Quantization) :
    l.Shows q ↔ ∃ x ∈ (l.stored q).singles, x.isFinite = false := by
  have hweights : (∃ w ∈ l.weights, w.isFinite = false ∧ (q = .float32 ∨ w.isNaN = false)) ↔
      ∃ x ∈ (l.stored q).weights.singles, x.isFinite = false := by
    cases q with
    | float32 => simp [Layer.stored, StoredWeights.singles]
    | int8 => simp [h.scale_iff]
  unfold Shows StoredLayer.singles
  rw [hweights]
  constructor
  · rintro (⟨b, hb, hnot⟩ | ⟨x, hx, hnot⟩)
    · exact ⟨b, List.mem_append_right _ (Array.mem_toList_iff.2 hb), hnot⟩
    · exact ⟨x, List.mem_append_left _ hx, hnot⟩
  · rintro ⟨x, hx, hnot⟩
    rcases List.mem_append.1 hx with hx | hx
    · exact .inr ⟨x, hx, hnot⟩
    · exact .inl ⟨x, Array.mem_toList_iff.1 hx, hnot⟩

end Layer

/-! ## Networks -/

namespace Model

theorem lt_of_sizedBytes {n v : Nat} {bytes : List UInt8} (h : sizedBytes n v = .ok bytes) :
    v < 256 ^ n := by
  unfold sizedBytes at h
  split at h
  · assumption
  · cases h

/-- The layers that are written are no wider than the format allows. -/
theorem widths_of_layerBytes {ls : List StoredLayer} {bytes : List UInt8}
    (h : layerBytes ls = .ok bytes) : ∀ l ∈ ls, l.inputs < 256 ^ 4 ∧ l.outputs < 256 ^ 4 := by
  induction ls generalizing bytes with
  | nil =>
    intro l hl
    cases hl
  | cons l rest ih =>
    obtain ⟨head, hhead, h⟩ := ok_of_bind h
    obtain ⟨tail, htail, -⟩ := ok_of_bind h
    obtain ⟨inputs, hinputs, hhead⟩ := ok_of_bind hhead
    obtain ⟨outputs, houtputs, -⟩ := ok_of_bind hhead
    exact List.forall_mem_cons.2 ⟨⟨lt_of_sizedBytes hinputs, lt_of_sizedBytes houtputs⟩, ih htail⟩

theorem widths_of_toBytes {m : Model} {bytes : List UInt8} (h : m.toBytes = .ok bytes) :
    ∀ l ∈ m.layers, l.inputs < 256 ^ 4 ∧ l.outputs < 256 ^ 4 := by
  obtain ⟨body, hbody, -⟩ := ok_of_map h
  obtain ⟨count, -, hbody⟩ := ok_of_bind hbody
  obtain ⟨layers, hlayers, -⟩ := ok_of_bind hbody
  exact widths_of_layerBytes hlayers

/-- The layers of a network that is written were accepted with arrays as long as their widths
say. -/
theorem sized_of_toBytes {n : Network} {q : Quantization} {bytes : List UInt8}
    (hparts : ∀ l ∈ n.layers, ∃ inputs outputs weights bias activation,
      Layer.of inputs outputs weights bias activation = .ok l)
    (h : (ofNetwork n q).toBytes = .ok bytes) :
    ∀ l ∈ n.layers, 0 < l.inputs ∧ 0 < l.outputs ∧ l.Sized := by
  intro l hl
  obtain ⟨_, _, _, _, _, hof⟩ := hparts l hl
  obtain ⟨hinputs, houtputs⟩ := widths_of_toBytes h (l.stored q) (List.mem_map_of_mem hl)
  exact Layer.of_ok hof hinputs houtputs

/-- A layer shows it just if one of the singles that are kept of the network is not finite. -/
theorem shows_iff {n : Network} {q : Quantization} (hsized : ∀ l ∈ n.layers, l.Sized) :
    (∃ l ∈ n.layers, l.Shows q) ↔ ∃ x ∈ (ofNetwork n q).singles, x.isFinite = false := by
  constructor
  · rintro ⟨l, hl, hshows⟩
    obtain ⟨x, hx, hnot⟩ := ((hsized l hl).shows_iff q).1 hshows
    exact ⟨x, List.mem_flatMap.2 ⟨_, List.mem_map_of_mem hl, hx⟩, hnot⟩
  · rintro ⟨x, hx, hnot⟩
    obtain ⟨_, hstored, hx⟩ := List.mem_flatMap.1 hx
    obtain ⟨l, hl, rfl⟩ := List.mem_map.1 hstored
    exact ⟨l, hl, ((hsized l hl).shows_iff q).2 ⟨x, hx, hnot⟩⟩

theorem finiteFault?_of_mem {xs : List Float32} {x : Float32} (hx : x ∈ xs)
    (hnot : x.isFinite = false) : finiteFault? xs = some .notFinite := by
  have hall : xs.all Float32.isFinite = false := List.all_eq_false.2 ⟨x, hx, by simp [hnot]⟩
  unfold finiteFault?
  rw [hall]
  rfl

/-- What is written of a network is refused, when it is read and when its accuracy is asked for, if
one of its layers shows that not all of its numbers are finite. Otherwise it is read as the model
that was written, which is that of the network with zeros for the weights that are no number. -/
theorem broken_refused {ls : List Layer} {n : Network} {q : Quantization} {bytes : List UInt8}
    (hparts : ∀ l ∈ ls, ∃ inputs outputs weights bias activation,
      Layer.of inputs outputs weights bias activation = .ok l)
    (hn : Network.of ls = .ok n) (hbytes : (ofNetwork n q).toBytes = .ok bytes) :
    ((∃ l ∈ ls, l.Shows q) → ofBytes bytes = .error .notFinite ∧
      ∀ xs labels, Trained.storedAccuracyOf true bytes xs labels =
        .error (.corrupt (.model .notFinite))) ∧
    ((∀ l ∈ ls, ¬l.Shows q) → ofBytes bytes = .ok (ofNetwork n q) ∧
      ofNetwork n q = ofNetwork ⟨ls.map Layer.cleared⟩ q) := by
  obtain ⟨rfl, hlinks, last, hlast, hsoftmax, hclasses⟩ := Network.of_ok hn
  have hlayers := sized_of_toBytes hparts hbytes
  have hchained : Chained (ofNetwork n q).layers :=
    chained_stored hlinks hlast hsoftmax hclasses q
  have hne : n.layers ≠ [] := by simpa [ofNetwork] using hchained.ne_nil
  -- All that can be wrong with what is read is a single.
  have hread : ofBytes bytes = unlessFault (finiteFault? (ofNetwork n q).singles)
      (ofNetwork n q) := by
    rw [ofBytes_toBytes (List.forall_mem_map.2 fun l hl => (hlayers l hl).2.2.stored q) hbytes,
      fault?_eq (List.forall_mem_map.2 fun l hl => ⟨(hlayers l hl).1, (hlayers l hl).2.1⟩)
        hchained, methodOf_ofNetwork hne]
    rfl
  have hshows := shows_iff (q := q) fun l hl => (hlayers l hl).2.2
  constructor
  · intro h
    obtain ⟨x, hx, hnot⟩ := hshows.1 h
    have hrefused : ofBytes bytes = .error .notFinite := by
      rw [hread, finiteFault?_of_mem hx hnot]
      rfl
    refine ⟨hrefused, ?_⟩
    intro xs labels
    unfold Trained.storedAccuracyOf
    rw [if_pos rfl, hrefused]
    rfl
  · intro h
    have hfinite : ∀ x ∈ (ofNetwork n q).singles, x.isFinite = true := by
      intro x hx
      by_contra hnot
      obtain ⟨l, hl, hshown⟩ := hshows.2 ⟨x, hx, Bool.eq_false_of_not_eq_true hnot⟩
      exact h l hl hshown
    constructor
    · rw [hread, finiteFault?_eq_none.2 hfinite]
      rfl
    · unfold ofNetwork
      rw [List.map_map]
      exact congrArg (Model.mk q) (List.map_congr_left fun l hl =>
        (Layer.stored_of_not_shows (h l hl)).symm)

/-- A layer of two classes with one weight that is given. -/
def lopsided (w : Float32) : Layer :=
  ⟨1, 2, #[w, 1], #[0, 0], .softmax⟩

theorem lopsided_parts (w : Float32) : ∀ l ∈ [lopsided w], ∃ inputs outputs weights bias activation,
    Layer.of inputs outputs weights bias activation = .ok l := by
  have hof : Layer.of 1 2 #[w, 1] #[0, 0] .softmax = .ok (lopsided w) := rfl
  exact List.forall_mem_singleton.2 ⟨_, _, _, _, _, hof⟩

theorem lopsided_refused : ∃ bytes, (ofNetwork ⟨[lopsided (1 / 0)]⟩ .int8).toBytes = .ok bytes ∧
    ofBytes bytes = .error .notFinite := by
  have hok : (ofNetwork ⟨[lopsided (1 / 0)]⟩ .int8).toBytes.isOk = true := by decide +kernel
  obtain ⟨bytes, hbytes⟩ := ok_of_isOk hok
  obtain ⟨hrefused, -⟩ := broken_refused (lopsided_parts (1 / 0)) rfl hbytes
  have hshows : (lopsided (1 / 0)).Shows .int8 :=
    .inr ⟨1 / 0, by simp [lopsided], by decide +kernel, .inr (by decide +kernel)⟩
  exact ⟨bytes, hbytes, (hrefused ⟨_, List.mem_singleton_self _, hshows⟩).1⟩

/-- A weight that is no number, kept as a byte, is not seen: the network is read as one with a zero
in its place. Kept as it is, it is refused. -/
theorem unseen_published :
    (∃ w ∈ (lopsided (0 / 0)).weights, w.isFinite = false) ∧
      Layer.of 1 2 #[0 / 0, 1] #[0, 0] .softmax = .ok (lopsided (0 / 0)) ∧
      Network.of [lopsided (0 / 0)] = .ok ⟨[lopsided (0 / 0)]⟩ ∧
      ((ofNetwork ⟨[lopsided (0 / 0)]⟩ .int8).toBytes.toOption.map ofBytes) =
        some (.ok (ofNetwork ⟨[lopsided 0]⟩ .int8)) ∧
      ((ofNetwork ⟨[lopsided (0 / 0)]⟩ .float32).toBytes.toOption.map ofBytes) =
        some (.error .notFinite) := by
  refine ⟨⟨0 / 0, by simp [lopsided], by decide +kernel⟩, rfl, rfl, ?_, ?_⟩
  · decide +kernel
  · decide +kernel

end Model

end Triage
