/-
How exact an export with the weights as they are is. A model keeps the parameters of the network it
was made from, and is read back with the same ones. But a layer of a network starts each sum at the
bias, and a stored layer adds the bias to the finished sum, so the two round in a different order:
for biases of zero every score is the same (`Model.unbiased_reads_back`), and a bias that is large
enough swallows inputs one by one that it would not swallow together (`Model.biased_differs`).
-/
import Triage.Proofs.Model.Format
import Triage.Proofs.Number.Zero

namespace Triage

/-! ## Sums -/

/-- A sum that starts at anything but minus zero is not minus zero. -/
theorem weightedSum_ne_negativeZero (weight : Nat → Float32) (active : List (Nat × Float32))
    {start : Float32} (h : Number.partsOfSingle start ≠ .zero .negative) :
    Number.partsOfSingle (weightedSum weight start active) ≠ .zero .negative := by
  induction active generalizing start with
  | nil => exact h
  | cons e rest ih => exact ih (Number.add_ne_negativeZero h _)

/-- For a bias of zero it does not matter if a sum starts with it or ends with it. -/
theorem weightedSum_add_zero (weight : Nat → Float32) (active : List (Nat × Float32)) :
    weightedSum weight 0 active + 0 = weightedSum weight 0 active := by
  refine Number.add_zero_eq (weightedSum_ne_negativeZero weight active ?_)
  have hzero : Number.partsOfSingle 0 = .zero .positive := rfl
  rw [hzero]
  simp

/-! ## Layers -/

namespace Layer

/-- Whether every bias of a layer is zero, and not minus zero. -/
def Unbiased (l : Layer) : Prop :=
  ∀ b ∈ l.bias, b = 0

theorem Unbiased.getD_bias {l : Layer} (h : l.Unbiased) (j : Nat) : l.bias.getD j 0 = 0 := by
  rw [Array.getD_eq_getD_getElem?]
  cases hb : l.bias[j]? with
  | none => rfl
  | some b => exact h b (Array.mem_of_getElem? hb)

/-- The sums of a layer without biases are those of the layer as it is kept. -/
theorem Unbiased.sums_stored {l : Layer} (h : l.Unbiased) (x : Singles) :
    (l.stored .float32).sums x = l.sums x := by
  refine congrArg Array.ofFn (funext fun j => ?_)
  rw [h.getD_bias]
  show weightedSum (l.weight · j) 0 (activeInputs x) + l.bias.getD j 0 = _
  rw [h.getD_bias, weightedSum_add_zero]

theorem Unbiased.forward_stored {l : Layer} (h : l.Unbiased) (x : Singles) :
    (l.stored .float32).forward x = l.forward x :=
  congrArg l.activation.apply (h.sums_stored x)

end Layer

/-! ## Networks -/

namespace Network

/-- The singles of a network, layer by layer. -/
def singles (n : Network) : List Float32 :=
  n.layers.flatMap fun l => l.weights.toList ++ l.bias.toList

theorem forward_stored {n : Network} (h : ∀ l ∈ n.layers, l.Unbiased) (x : Singles) :
    (Model.ofNetwork n .float32).forward x = n.forward x := by
  obtain ⟨ls⟩ := n
  induction ls generalizing x with
  | nil => rfl
  | cons l rest ih =>
    obtain ⟨hl, hrest⟩ := List.forall_mem_cons.1 h
    show (Model.ofNetwork ⟨rest⟩ .float32).forward ((l.stored .float32).forward x) = _
    rw [hl.forward_stored]
    exact ih _ hrest

theorem inputs_stored (n : Network) (q : Quantization) :
    (Model.ofNetwork n q).inputs = n.inputs := by
  obtain ⟨ls⟩ := n
  cases ls <;> rfl

/-- A network without biases scores every vector as its export does, and refuses the same ones. -/
theorem score_stored {n : Network} (h : ∀ l ∈ n.layers, l.Unbiased) (x : Singles) :
    (Model.ofNetwork n .float32).scorer.score x = n.scorer.score x := by
  have hscorer : (Model.ofNetwork n .float32).scorer =
      ⟨n.inputs, (Model.ofNetwork n .float32).classes, (Model.ofNetwork n .float32).forward⟩ := by
    rw [← inputs_stored n .float32]
    rfl
  rw [hscorer]
  unfold Scorer.score scorer
  simp only [forward_stored h]

end Network

/-! ## Exports -/

namespace Model

/-- The singles that are kept are those of the network. -/
theorem singles_ofNetwork (n : Network) : (ofNetwork n .float32).singles = n.singles := by
  unfold singles ofNetwork
  rw [List.flatMap_map]
  rfl

/-- A network whose parameters are finite and whose layers are not too many or too wide is exported
and read back with the same parameters, and if it has no biases the model that is read gives bit by
bit the scores of the network. -/
theorem unbiased_reads_back {ls : List Layer} {n : Network}
    (hparts : ∀ l ∈ ls, ∃ inputs outputs weights bias activation,
      Layer.of inputs outputs weights bias activation = .ok l)
    (hn : Network.of ls = .ok n) (hcount : ls.length ≤ 65535)
    (hwidths : ∀ l ∈ ls, l.inputs ≤ 4294967295 ∧ l.outputs ≤ 4294967295)
    (hfinite : ∀ x ∈ n.singles, x.isFinite = true) :
    ∃ bytes m, (ofNetwork n .float32).toBytes = .ok bytes ∧ ofBytes bytes = .ok m ∧
      m.singles = n.singles ∧
      ((∀ l ∈ ls, l.Unbiased) → ∀ x, m.scorer.score x = n.scorer.score x) := by
  obtain ⟨rfl, hlinks, last, hlast, hsoftmax, hclasses⟩ := Network.of_ok hn
  have hlayers : ∀ l ∈ n.layers, 0 < l.inputs ∧ 0 < l.outputs ∧ l.Sized := by
    intro l hl
    obtain ⟨_, _, _, _, _, hof⟩ := hparts l hl
    obtain ⟨hinputs, houtputs⟩ := hwidths l hl
    exact Layer.of_ok hof (by omega) (by omega)
  have hchained := chained_stored hlinks hlast hsoftmax hclasses .float32
  have hformed : (ofNetwork n .float32).WellFormed := by
    refine ⟨List.forall_mem_map.2 fun l hl => ?_, hchained, ?_⟩
    · obtain ⟨hinputs, houtputs, hsized⟩ := hlayers l hl
      refine ⟨hinputs, houtputs, hsized.stored .float32, fun x hx => hfinite x ?_⟩
      exact List.mem_flatMap.2 ⟨l, hl, hx⟩
    · exact (methodOf_ofNetwork (by simpa using hchained.ne_nil) .float32).symm
  obtain ⟨bytes, hbytes⟩ : ∃ bytes, (ofNetwork n .float32).toBytes = .ok bytes := by
    refine toBytes_isOk ?_ (List.forall_mem_map.2 fun l hl => ?_)
    · rw [ofNetwork, List.length_map]
      omega
    · obtain ⟨hinputs, houtputs⟩ := hwidths l hl
      exact ⟨Nat.lt_succ_of_le hinputs, Nat.lt_succ_of_le houtputs⟩
  exact ⟨bytes, _, hbytes, ofBytes_eq_ok.2 ⟨hformed, hbytes⟩, singles_ofNetwork n,
    Network.score_stored⟩

/-- Two classes between which the first of two inputs decides, both with a bias. -/
def leaning (bias : Float32) : Layer :=
  ⟨2, 2, #[1, 0, 1, 0], #[bias, bias], .softmax⟩

theorem leaning_reads_back : Layer.of 2 2 #[1, 0, 1, 0] #[0, 0] .softmax = .ok (leaning 0) ∧
    Network.of [leaning 0] = .ok ⟨[leaning 0]⟩ ∧
    (∀ x ∈ (Network.mk [leaning 0]).singles, x.isFinite = true) ∧
    ∃ bytes m, (ofNetwork ⟨[leaning 0]⟩ .float32).toBytes = .ok bytes ∧ ofBytes bytes = .ok m ∧
      ∀ x, m.scorer.score x = (Network.mk [leaning 0]).scorer.score x := by
  have hlayer : Layer.of 2 2 #[1, 0, 1, 0] #[0, 0] .softmax = .ok (leaning 0) := rfl
  have hfinite : ∀ x ∈ (Network.mk [leaning 0]).singles, x.isFinite = true := by decide +kernel
  have hunbiased : (leaning 0).Unbiased := by
    unfold Layer.Unbiased leaning
    simp
  obtain ⟨bytes, m, hbytes, hread, -, hscore⟩ := unbiased_reads_back
    (List.forall_mem_singleton.2 ⟨_, _, _, _, _, hlayer⟩) rfl (by decide) (by decide) hfinite
  exact ⟨hlayer, rfl, hfinite, bytes, m, hbytes, hread,
    hscore (List.forall_mem_singleton.2 hunbiased)⟩

/-- A network with finite parameters whose export scores a vector otherwise: added to the bias one
by one the inputs are lost, and their sum is not. -/
theorem biased_differs :
    Layer.of 2 2 #[1, 0, 1, 0] #[16777216, 16777216] .softmax = .ok (leaning 16777216) ∧
    Network.of [leaning 16777216] = .ok ⟨[leaning 16777216]⟩ ∧
    (∀ x ∈ (Network.mk [leaning 16777216]).singles, x.isFinite = true) ∧
    ((ofNetwork ⟨[leaning 16777216]⟩ .float32).toBytes.toOption.bind fun bytes =>
      (ofBytes bytes).toOption) = some (ofNetwork ⟨[leaning 16777216]⟩ .float32) ∧
    (Network.mk [leaning 16777216]).scorer.score #[1, 1] = .ok #[0.5, 0.5] ∧
    (ofNetwork ⟨[leaning 16777216]⟩ .float32).scorer.score #[1, 1] ≠ .ok #[0.5, 0.5] := by
  decide +kernel

end Model

end Triage
