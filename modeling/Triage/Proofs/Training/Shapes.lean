/-
The sizes of what training computes. What happens to a sample on its way is kept for each layer in
order, an error has as many entries as the layer it is at has outputs, a gradient is as long as the
arrays it is for, and a move leaves these as long as they are.
-/
import Mathlib.Data.List.Forall2
import Triage.Proofs.Model.Bytes
import Triage.Proofs.Network.Scoring
import Triage.Training.Fit

namespace Triage

/-! ## Widths -/

/-- The widths of a layer. -/
def Layer.widths (l : Layer) : Nat × Nat :=
  (l.inputs, l.outputs)

/-- The widths of layers from a number of inputs over hidden layers to a number of classes. -/
def chainWidths (inputs : Nat) (hidden : List Nat) (classes : Nat) : List (Nat × Nat) :=
  (inputs :: hidden).zip (hidden ++ [classes])

/-- Whether each layer takes what the one before it gives. -/
def Linked : List Layer → Prop :=
  List.IsChain fun a b => a.outputs = b.inputs

namespace Training

/-! ## Forward -/

theorem size_forward (l : Layer) (x : Singles) : (l.forward x).size = l.outputs := by
  unfold Layer.forward Layer.sums
  rw [Activation.size_apply, Array.size_ofFn]

theorem length_drawGates (rate : Float32) (out : List Float32) (s : Random.Source) :
    (drawGates rate out s).1.length = out.length := by
  induction out generalizing s with
  | nil => rfl
  | cons a rest ih => simp [drawGates, ih]

/-- What happened on the way of a sample is kept for each layer in order. -/
theorem passages_layers (rates : List Float32) (x : Singles) (ls : List Layer)
    (s : Random.Source) : (passThrough rates x ls s).1.map Passage.layer = ls := by
  induction ls generalizing rates x s with
  | nil => rfl
  | cons l rest ih =>
    unfold passThrough
    cases l.activation <;> simp [ih]

/-- What comes out is as wide as the last layer. -/
theorem size_passThrough (rates : List Float32) (x : Singles) (ls : List Layer)
    (s : Random.Source) : (passThrough rates x ls s).2.1.size =
      (ls.getLast?.map Layer.outputs).getD x.size := by
  induction ls generalizing rates x s with
  | nil => rfl
  | cons l rest ih =>
    have hout : (l.forward x).size = l.outputs := size_forward l x
    have hlast : ((l :: rest).getLast?.map Layer.outputs).getD x.size =
        (rest.getLast?.map Layer.outputs).getD l.outputs := by
      rw [List.getLast?_cons]
      cases rest.getLast? <;> rfl
    rw [hlast]
    unfold passThrough
    cases l.activation with
    | softmax =>
      simp only [ih, hout]
    | relu =>
      simp only [ih, Array.size_zipWith, List.size_toArray, length_drawGates, Array.length_toList,
        hout, Nat.min_self]

/-! ## Backward -/

/-- Whether a gradient is for a layer: there is an entry for each weight and each bias. -/
structure Gradient.Fits (g : Gradient) (l : Layer) : Prop where
  weights : g.weights.size = l.inputs * l.outputs
  bias : g.bias.size = l.outputs

theorem Gradient.fits_zero {l : Layer} (h : l.Sized) : (zero l).Fits l :=
  ⟨by simp [zero, h.weights], by simp [zero, h.bias]⟩

theorem Gradient.Fits.mean {g : Gradient} {l : Layer} (h : g.Fits l) (count : Nat) :
    (g.mean count).Fits l :=
  ⟨by simp [Gradient.mean, h.weights], by simp [Gradient.mean, h.bias]⟩

theorem size_addRow (outputs : Nat) (delta : List Float32) (w : Singles) (i : Nat) (x : Float32) :
    (addRow outputs delta w i x).size = w.size := by
  unfold addRow
  generalize delta.zipIdx = entries
  induction entries generalizing w with
  | nil => rfl
  | cons e rest ih => rw [List.foldl_cons, ih, Array.size_modify]

theorem size_addRows (outputs : Nat) (delta : List Float32) (entries : List (Nat × Float32))
    (w : Singles) :
    (entries.foldl (fun w (i, x) => addRow outputs delta w i x) w).size = w.size := by
  induction entries generalizing w with
  | nil => rfl
  | cons e rest ih => rw [List.foldl_cons, ih, size_addRow]

theorem Gradient.Fits.add {g : Gradient} {l : Layer} (h : g.Fits l) (input : Singles)
    {delta : Singles} (hd : delta.size = l.outputs) : (g.add l input delta).Fits l := by
  obtain ⟨w, b⟩ := g
  refine ⟨?_, ?_⟩
  · exact (size_addRows l.outputs delta.toList _ w).trans h.weights
  · show (b.zipWith (· + ·) delta).size = _
    rw [Array.size_zipWith, hd, show b.size = l.outputs from h.bias, Nat.min_self]

/-- The error pulled back to the outputs of the layer before is as wide as that layer. The gradients
of a sample are added last layer first, so the induction is on what is left of the way. -/
theorem backward_fits {delta : Singles} {passages : List Passage} {gs : List Gradient}
    (hlinked : Linked (passages.map Passage.layer))
    (hdelta : ∀ p, passages.getLast? = some p → delta.size = p.layer.outputs)
    (hfits : List.Forall₂ Gradient.Fits gs (passages.map Passage.layer)) :
    List.Forall₂ Gradient.Fits (backward delta passages gs).1 (passages.map Passage.layer) ∧
      ∀ p, passages.head? = some p → (backward delta passages gs).2.size = p.layer.outputs := by
  induction passages generalizing gs with
  | nil =>
    cases hfits
    exact ⟨.nil, fun p hp => by cases hp⟩
  | cons p rest ih =>
    obtain ⟨g, gs, hg, hgs, rfl⟩ := List.forall₂_cons_right_iff.1 hfits
    cases rest with
    | nil =>
      cases hgs
      have hd : delta.size = p.layer.outputs := hdelta p rfl
      refine ⟨.cons (hg.add p.input hd) .nil, fun q hq => ?_⟩
      cases hq
      exact hd
    | cons q rest =>
      obtain ⟨hpq, hrest⟩ := List.isChain_cons_cons.1 hlinked
      obtain ⟨hback, -⟩ := ih hrest (fun r hr => hdelta r (by simpa using hr)) hgs
      have hd (next : Singles) : (pullBack q.layer next p.gates).size = p.layer.outputs := by
        rw [hpq]
        exact Array.size_ofFn
      refine ⟨.cons (hg.add p.input (hd _)) hback, fun r hr => ?_⟩
      cases hr
      exact hd _

/-! ## Samples -/

section

variable (rates : List Float32) (x : Singles) {ls : List Layer} (label : Nat) (s : Random.Source)

/-- The error begins as wide as what came out of the last layer. -/
theorem size_outputError {p : Passage} (hp : (passThrough rates x ls s).1.getLast? = some p) :
    (outputError (passThrough rates x ls s).2.1 label).size = p.layer.outputs := by
  have hlayers := passages_layers rates x ls s
  rw [outputError, Array.size_modify, size_passThrough, ← hlayers, List.getLast?_map, hp]
  rfl

/-- Gradients that fit the layers still do when those of a sample are added. -/
theorem fits_sample {gs : List Gradient} (hlinked : Linked ls)
    (hfits : List.Forall₂ Gradient.Fits gs ls) :
    List.Forall₂ Gradient.Fits (backward (outputError (passThrough rates x ls s).2.1 label)
      (passThrough rates x ls s).1 gs).1 ls := by
  have hlayers := passages_layers rates x ls s
  obtain ⟨hback, -⟩ := backward_fits (hlayers.symm ▸ hlinked)
    (fun _ hp => size_outputError rates x label s hp) (hlayers.symm ▸ hfits)
  rwa [hlayers] at hback

end

theorem fits_zero {ls : List Layer} (hsized : ∀ l ∈ ls, l.Sized) :
    List.Forall₂ Gradient.Fits (ls.map Gradient.zero) ls := by
  rw [List.forall₂_map_left_iff, List.forall₂_same]
  exact fun l hl => Gradient.fits_zero (hsized l hl)

theorem fits_mean {gs : List Gradient} {ls : List Layer}
    (hfits : List.Forall₂ Gradient.Fits gs ls) (count : Nat) :
    List.Forall₂ Gradient.Fits (gs.map (Gradient.mean count)) ls := by
  rw [List.forall₂_map_left_iff]
  exact hfits.imp fun _ _ hg => hg.mean count

/-! ## Moves -/

/-- Whether parameters and their means are so many. -/
structure Moving.Sized (p : Moving) (n : Nat) : Prop where
  values : p.values.size = n
  means : p.means.size = n
  squares : p.squares.size = n

theorem Moving.sized_start (values : Singles) : (start values).Sized values.size :=
  ⟨rfl, Array.size_replicate, Array.size_replicate⟩

theorem Moving.Sized.move {p : Moving} {n : Nat} (h : p.Sized n) (rate : Float32) (step : Nat)
    {gradient : Singles} (hg : gradient.size = n) : (p.move rate step gradient).Sized n := by
  unfold Moving.move
  refine ⟨?_, ?_, ?_⟩ <;> simp [h.values, h.means, h.squares, hg]

/-- Whether the arrays of a layer under training have the length that its widths give. -/
structure MovingLayer.Sized (l : MovingLayer) : Prop where
  weights : l.weights.Sized (l.shape.inputs * l.shape.outputs)
  bias : l.bias.Sized l.shape.outputs

theorem MovingLayer.sized_start {l : Layer} (h : l.Sized) : (start l).Sized := by
  have hw := Moving.sized_start l.weights
  have hb := Moving.sized_start l.bias
  rw [h.weights] at hw
  rw [h.bias] at hb
  exact ⟨hw, hb⟩

theorem MovingLayer.Sized.current {l : MovingLayer} (h : l.Sized) : l.current.Sized :=
  ⟨h.weights.values, h.bias.values⟩

theorem MovingLayer.Sized.move {l : MovingLayer} (h : l.Sized) (rate : Float32) (step : Nat)
    {g : Gradient} (hg : g.Fits l.current) : (l.move rate step g).Sized :=
  ⟨h.weights.move rate step hg.weights, h.bias.move rate step hg.bias⟩

/-- All layers are moved, each by its own gradient. -/
theorem sized_moves (rate : Float32) (step : Nat) {ls : List MovingLayer} {gs : List Gradient}
    (hs : ∀ l ∈ ls, l.Sized) (hfits : List.Forall₂ Gradient.Fits gs (ls.map MovingLayer.current)) :
    ∀ l ∈ ls.zipWith (MovingLayer.move rate step) gs, l.Sized := by
  induction ls generalizing gs with
  | nil => simp
  | cons l ls ih =>
    obtain ⟨g, gs, hg, hgs, rfl⟩ := List.forall₂_cons_right_iff.1 hfits
    obtain ⟨hl, hrest⟩ := List.forall_mem_cons.1 hs
    exact List.forall_mem_cons.2 ⟨hl.move rate step hg, ih hrest hgs⟩

/-! ## Starts -/

theorem size_drawMany (draw : Random.Source → Float32 × Random.Source) (n : Nat)
    (s : Random.Source) (acc : Array Float32) :
    (drawMany draw n s acc).1.size = acc.size + n := by
  induction n generalizing s acc with
  | zero => rfl
  | succ n ih =>
    simp only [drawMany, ih, Array.size_push]
    omega

theorem sized_drawLayer (inputs outputs : Nat) (activation : Activation) (s : Random.Source) :
    (drawLayer inputs outputs activation s).1.Sized :=
  ⟨by simp [drawLayer, size_drawMany], by simp [drawLayer]⟩

theorem sized_drawLayers (inputs : Nat) (hidden : List Nat) (classes : Nat) (s : Random.Source) :
    ∀ l ∈ (drawLayers inputs hidden classes s).1, l.Sized := by
  induction hidden generalizing inputs s with
  | nil => exact List.forall_mem_singleton.2 (sized_drawLayer inputs classes .softmax s)
  | cons width rest ih =>
    exact List.forall_mem_cons.2 ⟨sized_drawLayer inputs width .relu s, ih width _⟩

end Training

end Triage
