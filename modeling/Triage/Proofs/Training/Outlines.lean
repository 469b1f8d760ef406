/-
Layers that can be gone through one after the other. The outline of a layer is what is chosen before
any weight is drawn: its widths, and what is applied to its sums. Layers with the outlines of a network
are in step: what comes out of one is what the next takes, all but the last are hidden, and their
arrays are as long as their widths say.
-/
import Triage.Proofs.Network.Forward
import Triage.Proofs.Training.Shapes

namespace Triage

/-! ## Layers in step -/

/-- Layers whose arrays are as long as their widths say, which is a number of 64 bits. All but the
last are hidden, and each takes what the one before it gives. -/
structure InStep (ls : List Layer) : Prop where
  sized : ∀ l ∈ ls, l.Sized
  words : ∀ l ∈ ls, l.inputs * l.outputs < UInt64.size
  chain : ls.IsChain fun a b => a.activation = .relu ∧ b.inputs = a.outputs

/-- Whether a vector is as wide as the first of some layers takes. -/
def Enters (x : Singles) (ls : List Layer) : Prop :=
  ∀ l, ls.head? = some l → x.size = l.inputs

theorem linked_of_chain {ls : List Layer}
    (h : ls.IsChain fun a b => a.activation = .relu ∧ b.inputs = a.outputs) : Linked ls :=
  h.imp fun _ _ hab => hab.2.symm

namespace InStep

variable {l : Layer} {ls : List Layer}

theorem linked (h : InStep ls) : Linked ls :=
  linked_of_chain h.chain

theorem tail (h : InStep (l :: ls)) : InStep ls :=
  ⟨fun l' hl => h.sized l' (List.mem_cons_of_mem _ hl),
    fun l' hl => h.words l' (List.mem_cons_of_mem _ hl), h.chain.tail⟩

theorem drop (h : InStep ls) (n : Nat) : InStep (ls.drop n) :=
  ⟨fun l hl => h.sized l (List.mem_of_mem_drop hl),
    fun l hl => h.words l (List.mem_of_mem_drop hl), h.chain.drop n⟩

theorem forward?_eq (h : InStep (l :: ls)) {x : Singles} (hx : Enters x (l :: ls)) :
    l.forward? x = some (l.forward x) :=
  (h.sized l List.mem_cons_self).forward?_eq (h.words l List.mem_cons_self) (hx l rfl)

/-- What comes out of a layer enters the next. -/
theorem enters (h : InStep (l :: ls)) {out : Singles} (hout : out.size = l.outputs) :
    Enters out ls := by
  intro l' hl'
  obtain ⟨rest, rfl⟩ := List.head?_eq_some_iff.1 hl'
  rw [hout]
  exact (List.isChain_cons_cons.1 h.chain).1.2.symm

end InStep

/-! ## Outlines -/

/-- The widths of a layer and what is applied to its sums. -/
def Layer.outline (l : Layer) : (Nat × Nat) × Activation :=
  (l.widths, l.activation)

/-- The outlines of hidden layers of the given widths and an output layer. -/
def outlines : Nat → List Nat → Nat → List ((Nat × Nat) × Activation)
  | inputs, [], classes => [((inputs, classes), .softmax)]
  | inputs, width :: rest, classes => ((inputs, width), .relu) :: outlines width rest classes

theorem outlines_widths (inputs : Nat) (hidden : List Nat) (classes : Nat) :
    (outlines inputs hidden classes).map Prod.fst = chainWidths inputs hidden classes := by
  induction hidden generalizing inputs with
  | nil => rfl
  | cons width rest ih => exact congrArg ((inputs, width) :: ·) (ih width)

section

variable {ls : List Layer} {inputs classes : Nat} {hidden : List Nat}

theorem widths_of_outlines (h : ls.map Layer.outline = outlines inputs hidden classes) :
    ls.map Layer.widths = chainWidths inputs hidden classes := by
  rw [← outlines_widths, ← h, List.map_map]
  rfl

theorem enters_of_outlines (h : ls.map Layer.outline = outlines inputs hidden classes) {x : Singles}
    (hx : x.size = inputs) : Enters x ls := by
  intro l hl
  obtain ⟨rest, rfl⟩ := List.head?_eq_some_iff.1 hl
  cases hidden <;>
  · obtain ⟨hl, -⟩ := List.cons.inj h
    rw [hx]
    exact (congrArg (·.1.1) hl).symm

/-- The last of the layers is the output layer. -/
theorem last_of_outlines (h : ls.map Layer.outline = outlines inputs hidden classes) :
    ∃ last, ls.getLast? = some last ∧ last.activation = .softmax ∧ last.outputs = classes := by
  induction hidden generalizing inputs ls with
  | nil =>
    obtain ⟨l, rest, rfl, hl, hrest⟩ := List.map_eq_cons_iff.1 h
    rw [List.map_eq_nil_iff.1 hrest]
    exact ⟨l, rfl, congrArg (·.2) hl, congrArg (·.1.2) hl⟩
  | cons width hidden ih =>
    obtain ⟨l, rest, rfl, -, hrest⟩ := List.map_eq_cons_iff.1 h
    obtain ⟨last, hlast, hspec⟩ := ih hrest
    exact ⟨last, by rw [List.getLast?_cons, hlast]; rfl, hspec⟩

theorem chain_of_outlines (h : ls.map Layer.outline = outlines inputs hidden classes) :
    ls.IsChain fun a b => a.activation = .relu ∧ b.inputs = a.outputs := by
  induction hidden generalizing inputs ls with
  | nil =>
    obtain ⟨l, rest, rfl, -, hrest⟩ := List.map_eq_cons_iff.1 h
    rw [List.map_eq_nil_iff.1 hrest]
    exact .singleton l
  | cons width hidden ih =>
    obtain ⟨l, rest, rfl, hl, hrest⟩ := List.map_eq_cons_iff.1 h
    have hchain := ih hrest
    -- Whether it is hidden or the last, the next layer has the inputs that are outputs of this one.
    cases hidden <;>
    · obtain ⟨l', rest', rfl, hl', -⟩ := List.map_eq_cons_iff.1 hrest
      refine .cons_cons ⟨congrArg (·.2) hl, ?_⟩ hchain
      rw [show l.outputs = width from congrArg (·.1.2) hl,
        show l'.inputs = width from congrArg (·.1.1) hl']

theorem inStep_of_outlines (h : ls.map Layer.outline = outlines inputs hidden classes)
    (hsized : ∀ l ∈ ls, l.Sized)
    (hwords : ∀ w ∈ chainWidths inputs hidden classes, w.1 * w.2 < UInt64.size) : InStep ls := by
  refine ⟨hsized, fun l hl => hwords l.widths ?_, chain_of_outlines h⟩
  rw [← widths_of_outlines h]
  exact List.mem_map_of_mem hl

/-- Layers with such outlines make up a network. -/
theorem network_of_outlines (h : ls.map Layer.outline = outlines inputs hidden classes)
    (hclasses : 2 ≤ classes) : Network.of ls = .ok ⟨ls⟩ := by
  obtain ⟨last, hlast, hsoftmax, houtputs⟩ := last_of_outlines h
  have hfault : Network.chainFault ls = none :=
    Network.chainFault_eq_none.2 (chain_of_outlines h)
  unfold Network.of
  rw [hlast]
  simp only [hsoftmax, houtputs, hfault, ne_eq, not_true_eq_false, if_false,
    Nat.not_lt.2 hclasses]

end

namespace Training

/-- A move changes no outline. -/
theorem outline_move (rate : Float32) (step : Nat) {ls : List MovingLayer} {gs : List Gradient}
    (h : gs.length = ls.length) :
    ((ls.zipWith (MovingLayer.move rate step) gs).map MovingLayer.current).map Layer.outline =
      (ls.map MovingLayer.current).map Layer.outline := by
  induction ls generalizing gs with
  | nil => rfl
  | cons l ls ih =>
    obtain ⟨g, gs, rfl⟩ := List.exists_cons_of_length_eq_add_one h
    exact congrArg (l.current.outline :: ·) (ih (Nat.succ.inj h))

/-- The outlines of the layers a training begins with. -/
theorem drawLayers_outlines (inputs : Nat) (hidden : List Nat) (classes : Nat) (s : Random.Source) :
    (drawLayers inputs hidden classes s).1.map Layer.outline = outlines inputs hidden classes := by
  induction hidden generalizing inputs s with
  | nil => rfl
  | cons width rest ih => exact congrArg (((inputs, width), .relu) :: ·) (ih width _)

end Training

end Triage
