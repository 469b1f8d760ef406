/-
What training reports of a divergence, and what it does not. It looks at the probabilities of each
sample, and these are not all finite if a sum of the output layer is no number or positive infinity, or
if all of them are minus infinity. A bias of that layer that has diverged is therefore found, and so is
a weight that is no number and belongs to an active input. Nothing is looked at after the last batch,
and in front of the output layer what is no number gives way to a zero, so a training can come to
weights that are not finite (`divergence_unreported`).
-/
import Triage.Proofs.Number.Faults
import Triage.Proofs.Training.Tables

namespace Triage

open Number (Diverged isNaN_add_left isNaN_add_right isNaN_mul_right isNaN_of_isFinite)

/-! ## Probabilities -/

theorem isNaN_weightedSum {weight : Nat → Float32} {start : Float32}
    {active : List (Nat × Float32)}
    (h : start.isNaN = true ∨ ∃ e ∈ active, (weight e.1).isNaN = true) :
    (weightedSum weight start active).isNaN = true := by
  induction active generalizing start with
  | nil =>
    rcases h with h | ⟨e, he, -⟩
    · exact h
    · cases he
  | cons e rest ih =>
    refine @ih (start + e.2 * weight e.1) ?_
    rcases h with h | ⟨e', he', hweight⟩
    · exact .inl (isNaN_add_left h _)
    · rcases List.mem_cons.1 he' with rfl | he'
      · exact .inl (isNaN_add_right start (isNaN_mul_right _ hweight))
      · exact .inr ⟨e', he', hweight⟩

theorem diverged_weightedSum {weight : Nat → Float32} {start : Float32}
    (h : Diverged start) (active : List (Nat × Float32)) :
    Diverged (weightedSum weight start active) := by
  induction active generalizing start with
  | nil => exact h
  | cons e rest ih => exact ih (h.add _)

/-- Every distance from the largest sum is a number, if the probabilities are finite. -/
theorem isNaN_distance {x : Singles} (h : (softmax x).all Float32.isFinite = true) {v : Float32}
    (hv : v ∈ x) : (v - maximum x).isNaN = false := by
  refine Bool.eq_false_of_not_eq_true fun hnan => ?_
  have hpower := Number.isNaN_exp hnan
  have hmem : Number.exp (v - maximum x) ∈ x.map fun v => Number.exp (v - maximum x) :=
    Array.mem_map_of_mem hv
  have hfinite {w : Float32} (hw : w ∈ softmax x) : w.isNaN = false :=
    isNaN_of_isFinite (Array.all_eq_true_iff_forall_mem.1 h w hw)
  unfold softmax at hfinite
  simp only at hfinite
  split at hfinite
  · have hquotient := hfinite (Array.mem_map_of_mem hmem)
    rw [Number.isNaN_div_left hpower] at hquotient
    cases hquotient
  · have hnumber := hfinite hmem
    rw [hpower] at hnumber
    cases hnumber

/-- If the probabilities are finite, no sum has diverged, and there is a finite one. -/
theorem sums_of_finite {x : Singles} (h : (softmax x).all Float32.isFinite = true) :
    (∀ v ∈ x, ¬Diverged v) ∧ (0 < x.size → ∃ v ∈ x, v.isFinite = true) := by
  have hlowest : Number.partsOfSingle (Float32.ofBits 0xff800000) = .infinity .negative := rfl
  have hmaximum : maximum x = x.toList.foldl Number.larger (Float32.ofBits 0xff800000) := by
    rw [maximum, Array.foldl_toList]
  have hnone : ∀ v ∈ x, ¬Diverged v := by
    rintro v hv (hnan | hinf)
    · have hdistance := isNaN_distance h hv
      rw [Number.isNaN_sub_left hnan] at hdistance
      cases hdistance
    · have htop : Number.IsInfinity (maximum x) := by
        rw [hmaximum]
        exact Number.isInfinity_largest (by decide) ⟨v, Array.mem_toList_iff.2 hv, hinf⟩
      have hdistance := isNaN_distance h hv
      rw [Number.isNaN_sub_infinity hinf htop] at hdistance
      cases hdistance
  refine ⟨hnone, fun hsize => ?_⟩
  by_contra hall
  push Not at hall
  have hnegative : ∀ v ∈ x, Number.partsOfSingle v = .infinity .negative := fun v hv =>
    Number.negativeInfinity_of_not (hnone v hv) (Bool.eq_false_of_not_eq_true (hall v hv))
  have htop : Number.partsOfSingle (maximum x) = .infinity .negative := by
    rw [hmaximum]
    exact Number.largest_negativeInfinity hlowest fun v hv =>
      hnegative v (Array.mem_toList_iff.1 hv)
  have hmem : x[0] ∈ x := Array.getElem_mem hsize
  have hdistance := isNaN_distance h hmem
  rw [Number.isNaN_sub_infinity (hnegative _ hmem) htop] at hdistance
  cases hdistance

namespace Training

/-! ## What is looked at -/

/-- A layer is the last on the way of a sample, or the way goes on behind it. -/
theorem last_passage {rates : List Float32} {out : Singles} {rest : List Layer} {s : Random.Source}
    {first p : Passage}
    (h : (first :: (passThrough rates out rest s).1).getLast? = some p) :
    (p = first ∧ rest = []) ∨ (passThrough rates out rest s).1.getLast? = some p := by
  rw [List.getLast?_cons] at h
  cases hlast : (passThrough rates out rest s).1.getLast? with
  | none =>
    rw [hlast] at h
    have hlayers := passages_layers rates out rest s
    rw [List.getLast?_eq_none_iff.1 hlast] at hlayers
    exact .inl ⟨(Option.some.inj h).symm, hlayers.symm⟩
  | some q =>
    rw [hlast] at h
    exact .inr h

/-- What comes out of an output layer are the probabilities of its sums. -/
theorem output_eq {rates : List Float32} {x : Singles} {ls : List Layer} {s : Random.Source}
    {p : Passage} (hp : (passThrough rates x ls s).1.getLast? = some p)
    (hsoftmax : p.layer.activation = .softmax) :
    (passThrough rates x ls s).2.1 = softmax (p.layer.sums p.input) := by
  induction ls generalizing rates x s with
  | nil => cases hp
  | cons l rest ih =>
    unfold passThrough at hp ⊢
    cases hact : l.activation with
    | softmax =>
      simp only [hact] at hp ⊢
      rcases last_passage hp with ⟨rfl, rfl⟩ | hp
      · simp [passThrough, Layer.forward, Activation.apply, hact]
      · exact ih hp
    | relu =>
      simp only [hact] at hp ⊢
      rcases last_passage hp with ⟨rfl, rfl⟩ | hp
      · rw [hact] at hsoftmax
        cases hsoftmax
      · exact ih hp

/-- Whether a visit shows that the output layer has not diverged: no sum has, one at least is finite,
no bias has diverged, and all weights from inputs that are not zero are numbers. -/
structure Passage.Intact (p : Passage) : Prop where
  sums : ∀ x ∈ p.layer.sums p.input, ¬Diverged x
  finite : ∃ x ∈ p.layer.sums p.input, x.isFinite = true
  bias : ∀ j < p.layer.outputs, ¬Diverged (p.layer.bias.getD j 0)
  weights : ∀ e ∈ activeInputs p.input, ∀ j < p.layer.outputs,
    (p.layer.weight e.1 j).isNaN = false

theorem Passage.intact {p : Passage} (hpos : 0 < p.layer.outputs)
    (h : (softmax (p.layer.sums p.input)).all Float32.isFinite = true) : p.Intact := by
  obtain ⟨hnone, hsome⟩ := sums_of_finite h
  have hsize : (p.layer.sums p.input).size = p.layer.outputs := Array.size_ofFn
  have hsum (j : Nat) (hj : j < p.layer.outputs) :
      ¬Diverged (weightedSum (p.layer.weight · j) (p.layer.bias.getD j 0)
        (activeInputs p.input)) := by
    refine hnone _ ?_
    unfold Layer.sums
    exact Array.mem_ofFn.2 ⟨⟨j, hj⟩, rfl⟩
  refine ⟨hnone, hsome (hsize ▸ hpos), fun j hj hbias => ?_, fun e he j hj => ?_⟩
  · exact hsum j hj (diverged_weightedSum hbias _)
  · exact Bool.eq_false_of_not_eq_true fun hnan =>
      hsum j hj (.inl (isNaN_weightedSum (.inr ⟨e, he, hnan⟩)))

/-- What a visit that is not faulty shows of the output layer. -/
theorem Visit.Through.intact {v : Visit} {inputs classes : Nat} {hidden : List Nat}
    (h : v.Through (outlines inputs hidden classes)) (hclasses : 2 ≤ classes)
    (hv : v.isFaulty = false) {p : Passage} (hp : v.passages.getLast? = some p) : p.Intact := by
  obtain ⟨rates, x, ls, s, houtlines, hpassages, houtput⟩ := h
  rw [hpassages] at hp
  have hlayers := passages_layers rates x ls s
  obtain ⟨last, hlast, hsoftmax, houtputs⟩ := last_of_outlines houtlines
  obtain rfl : p.layer = last := by
    rw [← hlayers, List.getLast?_map, hp] at hlast
    exact Option.some.inj hlast
  refine Passage.intact (by omega) ?_
  rw [← output_eq hp hsoftmax, ← houtput]
  simpa [Visit.isFaulty] using hv

/-! ## Main statement -/

section

variable {settings : TrainingSettings} {xs : List Singles} {labels : List Nat}
  {classes width : Nat}

/-- The layers are accepted as a network, whatever their weights are. -/
theorem fit_cut (h : checkedWidth xs labels classes = .ok width) :
    CutAtFault (fit settings xs labels classes)
      ((visitTraining settings xs labels classes width).1,
        ⟨(visitTraining settings xs labels classes width).2⟩) := by
  obtain ⟨-, houtlines, -⟩ := @visitTraining_spec settings xs labels classes width
  have haccepted := network_of_outlines houtlines (suitable_of_checkedWidth h).two_le
  have hcut := (trainedLayers_cut h).bind (show CutAtFault (Network.of _) ([], ⟨_⟩) from haccepted)
  rwa [List.append_nil, ← fit_eq] at hcut

/-- Samples and labels that are suitable being given, a training fails just if there is a visit with
probabilities that are not all finite, and the error names the epoch of the first one. It comes to a
network just if there is no such visit, and the network is what the last batch made of the layers.
Every visit without such probabilities shows that the output layer had not diverged when the sample
passed it. -/
theorem divergence_reported (h : checkedWidth xs labels classes = .ok width) :
    (∀ e, fit settings xs labels classes = .error e ↔
      ∃ v, (visitTraining settings xs labels classes width).1.find? Visit.isFaulty = some v ∧
        e = .training (.nonFinite v.epoch)) ∧
    (∀ n, fit settings xs labels classes = .ok n ↔
      (∀ v ∈ (visitTraining settings xs labels classes width).1, v.isFaulty = false) ∧
        n.layers = (visitTraining settings xs labels classes width).2) ∧
    ∀ v ∈ (visitTraining settings xs labels classes width).1, v.isFaulty = false →
      ∀ p, v.passages.getLast? = some p → p.Intact := by
  obtain ⟨hvisits, -⟩ := @visitTraining_spec settings xs labels classes width
  have hclasses := (suitable_of_checkedWidth h).two_le
  have hfit : CutAtFault (fit settings xs labels classes) _ := fit_cut h
  refine ⟨fun e => hfit.error_iff, fun n => hfit.ok_iff.trans (and_congr_right fun _ => ?_),
    fun v hv hfaulty p hp => (hvisits v hv).intact hclasses hfaulty hp⟩
  exact ⟨congrArg Network.layers, congrArg Network.mk⟩

end

theorem divergence_reported_short : ∃ n, fit shortSettings [#[1], #[0], #[2]] [0, 1, 0] 2 = .ok n ∧
    n.layers = (visitTraining shortSettings [#[1], #[0], #[2]] [0, 1, 0] 2 1).2 ∧
    ∀ v ∈ (visitTraining shortSettings [#[1], #[0], #[2]] [0, 1, 0] 2 1).1,
      ∀ p, v.passages.getLast? = some p → p.Intact := by
  obtain ⟨-, hnetwork, hintact⟩ := @divergence_reported shortSettings [#[1], #[0], #[2]] [0, 1, 0] 2 1
    (by decide)
  obtain ⟨n, hn⟩ := ok_of_isOk
    (show (fit shortSettings [#[1], #[0], #[2]] [0, 1, 0] 2).isOk = true by decide +kernel)
  obtain ⟨hgood, hlayers⟩ := (hnetwork n).1 hn
  exact ⟨n, hn, hlayers, fun v hv => hintact v hv (hgood v hv)⟩

/-- Settings of a training with one batch and a step so long that it overflows. -/
def steepSettings : TrainingSettings :=
  { TrainingSettings.standard with
    hidden := [], dropout := [], epochs := 1, batchSize := 1, learningRate := 1e38 }

/-- The only batch is taken with finite samples and finite probabilities, and leaves a weight that is
not finite; nothing looks at it any more. -/
theorem divergence_unreported : steepSettings.fault? = none ∧
    ∃ n, fit steepSettings [#[100]] [0] 2 = .ok n ∧
      ∃ l ∈ n.layers, ∃ w ∈ l.weights, w.isFinite = false := by
  have hrun : (fit steepSettings [#[100]] [0] 2).toOption.any (fun n =>
      n.layers.any fun l => l.weights.toList.any (!·.isFinite)) = true := by decide +kernel
  obtain ⟨n, hn⟩ := ok_of_isOk
    (show (fit steepSettings [#[100]] [0] 2).isOk = true by decide +kernel)
  rw [hn] at hrun
  obtain ⟨l, hl, hany⟩ := List.any_eq_true.1 hrun
  obtain ⟨w, hw, hinfinite⟩ := List.any_eq_true.1 hany
  exact ⟨by decide +kernel, n, hn, l, hl, w, Array.mem_toList_iff.1 hw, by simpa using hinfinite⟩

/-- What is no number in a sample is hidden by the layer it comes to, but not what it does to the
weights there. -/
example : (fit shortSettings [#[Float32.ofBits 0x7fc00000], #[1]] [0, 1] 2).toOption.any (fun n =>
    n.layers.any fun l => l.weights.any (·.isNaN)) = true := by decide +kernel

end Training

end Triage
