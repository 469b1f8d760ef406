/-
A model gives a probability for each class, and one that can be read never reads outside its arrays.
`Model.score?` goes through the layers input by input, in the order the weights stand in, and every
part of an array it asks for may be missing; on a well-formed model none is, and the outcome is that
of the model as a classifier.
-/
import Triage.Proofs.Model.Format
import Triage.Proofs.Network.Slices

namespace Triage

/-! ## Widths -/

theorem StoredLayer.size_forward (l : StoredLayer) (x : Singles) :
    (l.forward x).size = l.outputs := by
  unfold forward sums
  rw [Activation.size_apply, Array.size_ofFn]

/-- What comes out of layers is as wide as the last of them. -/
theorem StoredLayer.size_foldl_forward (ls : List StoredLayer) (x : Singles) :
    (ls.foldl (fun v l => l.forward v) x).size =
      (ls.getLast?.map StoredLayer.outputs).getD x.size := by
  induction ls generalizing x with
  | nil => rfl
  | cons l rest ih =>
    rw [List.foldl_cons, ih, size_forward, List.getLast?_cons]
    cases rest.getLast? <;> rfl

/-- A model gives a probability for each class. -/
theorem Model.size_forward {m : Model} (h : m.layers ≠ []) (x : Singles) :
    (m.forward x).size = m.classes := by
  unfold forward classes
  rw [StoredLayer.size_foldl_forward, List.getLast?_eq_some_getLast h]
  rfl

/-! ## Layers -/

namespace StoredLayer

/-- A weight before it is scaled. -/
def unscaled (l : StoredLayer) (i j : Nat) : Float32 :=
  match l.weights with
  | .float32 w => w.getD (i * l.outputs + j) 0
  | .int8 _ values => singleOfInt8 (values.getD (i * l.outputs + j) 0)

/-- The weights of an input before they are scaled. -/
def row? (l : StoredLayer) (i : Nat) : Option Singles :=
  match l.weights with
  | .float32 w => slice? w (i * l.outputs) ((i + 1) * l.outputs)
  | .int8 _ values =>
    (slice? values (i * l.outputs) ((i + 1) * l.outputs)).map (·.map singleOfInt8)

/-- Adds what an input gives to each output. -/
def addInput? (l : StoredLayer) (out : Singles) : Nat × Float32 → Option Singles
  | (i, v) => (l.row? i).map (zipInto (fun sum w => sum + v * w) out)

/-- Whole numbers that have been added up are scaled. -/
def rescale (l : StoredLayer) (out : Singles) : Singles :=
  match l.weights with
  | .float32 _ => out
  | .int8 scales _ => zipInto (· * ·) out scales

/-- The output of a layer, unless a weight is missing. -/
def forward? (l : StoredLayer) (x : Singles) : Option Singles := do
  let out ← (activeInputs x).foldlM l.addInput? (Array.replicate l.outputs 0)
  pure (l.activation.apply (zipInto (· + ·) (l.rescale out) l.bias))

theorem row?_eq {l : StoredLayer} (hs : l.Sized) {i : Nat} (hi : i < l.inputs) :
    l.row? i = some (Array.ofFn fun j : Fin l.outputs => l.unscaled i j) := by
  have hweights := hs.weights
  unfold row? unscaled
  cases hw : l.weights with
  | float32 w =>
    rw [hw] at hweights
    exact slice?_row hweights hi 0
  | int8 scales values =>
    rw [hw] at hweights
    simp only [slice?_row hweights.2 hi 0, Option.map_some, Array.map_ofFn]
    rfl

/-- Inputs added one after the other to all outputs give each output its weighted sum. -/
theorem foldlM_addInput? {l : StoredLayer} (hs : l.Sized) {active : List (Nat × Float32)}
    (h : ∀ e ∈ active, e.1 < l.inputs) (start : Fin l.outputs → Float32) :
    active.foldlM l.addInput? (Array.ofFn start) =
      some (Array.ofFn fun j => weightedSum (l.unscaled · j) (start j) active) := by
  induction active generalizing start with
  | nil => rfl
  | cons e rest ih =>
    obtain ⟨i, v⟩ := e
    obtain ⟨hi, hrest⟩ := List.forall_mem_cons.1 h
    have hadd : l.addInput? (Array.ofFn start) (i, v) =
        some (Array.ofFn fun j => start j + v * l.unscaled i j) := by
      rw [addInput?, row?_eq hs hi, Option.map_some, zipInto_ofFn _ _ Array.size_ofFn]
      simp
    rw [List.foldlM_cons, hadd]
    exact ih hrest _

theorem rescale_ofFn {l : StoredLayer} (hs : l.Sized) (active : List (Nat × Float32)) :
    l.rescale (Array.ofFn fun j : Fin l.outputs => weightedSum (l.unscaled · j) 0 active) =
      Array.ofFn fun j : Fin l.outputs => l.unscaledSum active j := by
  have hweights := hs.weights
  unfold rescale unscaledSum unscaled
  cases hw : l.weights with
  | float32 w => rfl
  | int8 scales values =>
    rw [hw] at hweights
    exact zipInto_ofFn _ _ hweights.1

/-- No weight is missing for an input of the right width. -/
theorem forward?_eq {l : StoredLayer} (hs : l.Sized) {x : Singles} (hx : x.size = l.inputs) :
    l.forward? x = some (l.forward x) := by
  have hzero : Array.replicate l.outputs (0 : Float32) = Array.ofFn fun _ : Fin l.outputs => 0 :=
    Array.ext (by simp) fun j _ _ => by simp
  have hactive : ∀ e ∈ activeInputs x, e.1 < l.inputs := fun e he =>
    hx ▸ lt_of_mem_activeInputs he
  rw [forward?, hzero, foldlM_addInput? hs hactive]
  show some (l.activation.apply (zipInto _ (l.rescale _) l.bias)) = _
  rw [rescale_ofFn hs, zipInto_ofFn _ _ hs.bias]
  rfl

end StoredLayer

/-! ## Models -/

namespace Model

/-- The output of the layers one after the other, unless a weight is missing. -/
def forward? (m : Model) (x : Singles) : Option Singles :=
  m.layers.foldlM (fun v l => l.forward? v) x

/-- The outcome for a vector, unless there is no layer or a weight is missing. -/
def score? (m : Model) (x : Singles) : Option (Except Error Singles) := do
  let first ← m.layers[0]?
  if x.size = first.inputs then (m.forward? x).map .ok
  else some (.error (.dimension first.inputs x.size))

theorem foldlM_forward? {ls : List StoredLayer} (hs : ∀ l ∈ ls, l.Sized)
    (hc : ls.IsChain fun a b => b.inputs = a.outputs) {x : Singles}
    (hx : ∀ l ∈ ls.head?, x.size = l.inputs) :
    ls.foldlM (fun v l => l.forward? v) x = some (ls.foldl (fun v l => l.forward v) x) := by
  induction ls generalizing x with
  | nil => rfl
  | cons l rest ih =>
    obtain ⟨hl, hrest⟩ := List.forall_mem_cons.1 hs
    rw [List.foldlM_cons, StoredLayer.forward?_eq hl (hx l rfl)]
    refine ih hrest hc.tail fun next hnext => ?_
    rw [StoredLayer.size_forward]
    exact (hc.rel_head? hnext).symm

/-- Nothing is missing from a well-formed model, whatever vector it is given. -/
theorem WellFormed.score?_eq {m : Model} (h : m.WellFormed) (x : Singles) :
    m.score? x = some (m.scorer.score x) := by
  obtain ⟨first, rest, hls⟩ := List.exists_cons_of_ne_nil h.chained.ne_nil
  have hfirst : m.layers[0]? = some first := by rw [hls]; rfl
  have hinputs : m.inputs = first.inputs := by rw [inputs, hls]; rfl
  have hlinks : m.layers.IsChain fun a b => b.inputs = a.outputs :=
    h.chained.links.imp fun _ _ hlink => hlink.2
  unfold score? Scorer.score scorer
  simp only [hfirst, hinputs]
  by_cases hx : x.size = first.inputs
  · have hforward : m.forward? x = some (m.forward x) :=
      foldlM_forward? (fun l hl => (h.sound l hl).sized) hlinks fun l hl => by
        rw [hls] at hl
        cases hl
        exact hx
    simp [hx, hforward]
  · simp [hx]

end Model

end Triage
