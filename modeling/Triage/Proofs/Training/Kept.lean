/-
Training moves the weights of a network but never its shape. The layers keep the outlines they began
with, from the width of the samples to the number of classes, and arrays as long as these say. A batch
keeps that whatever comes out of its samples, so a training without its check does, from the first
batch to the last; and a training that checks comes to the layers of that one if it comes to any.
-/
import Triage.Proofs.Training.Outlines
import Triage.Proofs.Training.Visits

namespace Triage.Training

/-! ## Layers under training -/

/-- Whether layers under training have the outlines of a network of the given widths, and arrays as
long as these say. -/
structure Kept (ls : List MovingLayer) (inputs : Nat) (hidden : List Nat) (classes : Nat) : Prop where
  outlines : (ls.map MovingLayer.current).map Layer.outline = outlines inputs hidden classes
  sized : ∀ l ∈ ls, l.Sized

section

variable {ls : List MovingLayer} {inputs classes : Nat} {hidden : List Nat}

theorem Kept.current (h : Kept ls inputs hidden classes) :
    ∀ l ∈ ls.map MovingLayer.current, l.Sized := by
  intro l hl
  obtain ⟨l, hmem, rfl⟩ := List.mem_map.1 hl
  exact (h.sized l hmem).current

/-- A move by gradients that fit the layers. -/
theorem Kept.move (h : Kept ls inputs hidden classes) {gs : List Gradient}
    (hfits : List.Forall₂ Gradient.Fits gs (ls.map MovingLayer.current)) (rate : Float32)
    (step : Nat) : Kept (ls.zipWith (MovingLayer.move rate step) gs) inputs hidden classes :=
  ⟨(outline_move rate step (hfits.length_eq.trans (List.length_map _))).trans h.outlines,
    sized_moves rate step h.sized hfits⟩

theorem kept_start (inputs : Nat) (hidden : List Nat) (classes : Nat) (s : Random.Source) :
    Kept ((drawLayers inputs hidden classes s).1.map MovingLayer.start) inputs hidden classes := by
  refine ⟨?_, fun l hl => ?_⟩
  · rw [List.map_map, List.map_map]
    exact drawLayers_outlines inputs hidden classes s
  · obtain ⟨l, hmem, rfl⟩ := List.mem_map.1 hl
    exact MovingLayer.sized_start (sized_drawLayers inputs hidden classes s l hmem)

end

/-! ## Visits -/

/-- Whether a visit went through layers of the given outlines. -/
def Visit.Through (v : Visit) (outlines : List ((Nat × Nat) × Activation)) : Prop :=
  ∃ rates x ls s, ls.map Layer.outline = outlines ∧
    v.passages = (passThrough rates x ls s).1 ∧ v.output = (passThrough rates x ls s).2.1

/-- What a step keeps, and what holds of its visits, does so for any number of steps. -/
theorem visitAll_spec {σ ι : Type} (step : σ → ι → Visited σ) {I : σ → Prop} {P : Visit → Prop}
    (h : ∀ s i, I s → (∀ v ∈ (step s i).1, P v) ∧ I (step s i).2) (is : List ι) {s : σ} (hs : I s) :
    (∀ v ∈ (visitAll step s is).1, P v) ∧ I (visitAll step s is).2 := by
  induction is generalizing s with
  | nil => exact ⟨fun v hv => absurd hv List.not_mem_nil, hs⟩
  | cons i rest ih =>
    obtain ⟨hfirst, hnext⟩ := h s i hs
    obtain ⟨hmore, hlast⟩ := ih hnext
    exact ⟨List.forall_mem_append.2 ⟨hfirst, hmore⟩, hlast⟩

section

variable (settings : TrainingSettings) (epoch : Nat) {p : Progress} {inputs classes : Nat}
  {hidden : List Nat}

theorem visitSample_spec (h : Kept p.layers inputs hidden classes)
    (sums : List Gradient × Random.Source) (e : Example)
    (hfits : List.Forall₂ Gradient.Fits sums.1 (p.layers.map MovingLayer.current)) :
    (∀ v ∈ (visitSample settings.dropout (p.layers.map MovingLayer.current) epoch sums e).1,
      v.Through (outlines inputs hidden classes)) ∧
    List.Forall₂ Gradient.Fits
      (visitSample settings.dropout (p.layers.map MovingLayer.current) epoch sums e).2.1
      (p.layers.map MovingLayer.current) := by
  have hlinked := linked_of_chain (chain_of_outlines h.outlines)
  refine ⟨fun v hv => ?_, fits_sample settings.dropout e.1 e.2 sums.2 hlinked hfits⟩
  rw [List.mem_singleton.1 hv]
  exact ⟨_, _, _, _, h.outlines, rfl, rfl⟩

theorem visitBatch_spec (batch : List Example) (h : Kept p.layers inputs hidden classes) :
    (∀ v ∈ (visitBatch settings epoch p batch).1, v.Through (outlines inputs hidden classes)) ∧
      Kept (visitBatch settings epoch p batch).2.layers inputs hidden classes := by
  obtain ⟨hvisits, hfits⟩ := visitAll_spec _ (visitSample_spec settings epoch h) batch
    (s := ((p.layers.map MovingLayer.current).map Gradient.zero, p.source)) (fits_zero h.current)
  exact ⟨hvisits, h.move (fits_mean hfits batch.length) settings.learningRate (p.step + 1)⟩

theorem visitEpochs_spec (samples : Array Example) (order : Array Nat) (n : Nat)
    (h : Kept p.layers inputs hidden classes) :
    (∀ v ∈ (visitEpochs settings samples epoch order p n).1,
      v.Through (outlines inputs hidden classes)) ∧
    Kept (visitEpochs settings samples epoch order p n).2.layers inputs hidden classes := by
  induction n generalizing epoch order p with
  | zero => exact ⟨fun v hv => absurd hv List.not_mem_nil, h⟩
  | succ n ih =>
    obtain ⟨hvisits, hnext⟩ := visitAll_spec (visitBatch settings epoch)
      (fun _ batch h => visitBatch_spec settings epoch batch h)
      (batchesOf settings samples (Random.shuffle order p.source).1)
      (s := { p with source := (Random.shuffle order p.source).2 }) h
    obtain ⟨hmore, hlast⟩ := ih (epoch + 1) (Random.shuffle order p.source).1 hnext
    exact ⟨List.forall_mem_append.2 ⟨hvisits, hmore⟩, hlast⟩

end

/-! ## Suitable samples -/

/-- What training asks of samples and labels: there is a sample at least, all have one width, which is
not zero, and each has the label of one of two classes or more. -/
structure Suitable (xs : List Singles) (labels : List Nat) (classes width : Nat) : Prop where
  two_le : 2 ≤ classes
  nonempty : xs ≠ []
  length : xs.length = labels.length
  width_pos : 0 < width
  widths : ∀ x ∈ xs, x.size = width
  class_lt : ∀ label ∈ labels, label < classes

theorem suitable_of_checkedWidth {xs : List Singles} {labels : List Nat} {classes width : Nat}
    (h : checkedWidth xs labels classes = .ok width) : Suitable xs labels classes width := by
  unfold checkedWidth at h
  split at h
  · cases h
  · rename_i hclasses
    cases xs with
    | nil => cases h
    | cons x rest =>
      simp only at h
      split at h
      · cases h
      · rename_i hlength
        split at h
        · cases h
        · rename_i hempty
          split at h
          · cases h
          · rename_i hwidths
            split at h
            · cases h
            · rename_i hlabels
              cases h
              refine ⟨Nat.le_of_not_lt hclasses, List.cons_ne_nil _ _, Decidable.not_not.1 hlength,
                Nat.pos_of_ne_zero hempty, fun y hy => ?_, fun label hl => ?_⟩
              · simpa using List.find?_eq_none.1 hwidths y hy
              · simpa using List.find?_eq_none.1 hlabels label hl

/-! ## Whole trainings -/

/-- The layers that a training comes to, before they are made a network. -/
def trainedLayers (settings : TrainingSettings) (xs : List Singles) (labels : List Nat)
    (classes : Nat) : Except Error (List Layer) := do
  let width ← checkedWidth xs labels classes
  let (layers, s) := drawLayers width settings.hidden classes
    (Random.Source.ofSeed settings.initSeed)
  let samples := (xs.zip labels).toArray
  let done ← takeEpochs settings samples 1 (Array.range samples.size)
    ⟨layers.map MovingLayer.start, 0, s⟩ settings.epochs
  pure (done.layers.map MovingLayer.current)

/-- A whole training without the check, for samples of the given width. -/
def visitTraining (settings : TrainingSettings) (xs : List Singles) (labels : List Nat)
    (classes width : Nat) : Visited (List Layer) :=
  let (layers, s) := drawLayers width settings.hidden classes
    (Random.Source.ofSeed settings.initSeed)
  let samples := (xs.zip labels).toArray
  let (visits, done) := visitEpochs settings samples 1 (Array.range samples.size)
    ⟨layers.map MovingLayer.start, 0, s⟩ settings.epochs
  (visits, done.layers.map MovingLayer.current)

section

variable {settings : TrainingSettings} {xs : List Singles} {labels : List Nat}
  {classes width : Nat}

theorem visitTraining_spec :
    (∀ v ∈ (visitTraining settings xs labels classes width).1,
      v.Through (outlines width settings.hidden classes)) ∧
    (visitTraining settings xs labels classes width).2.map Layer.outline =
      outlines width settings.hidden classes ∧
    ∀ l ∈ (visitTraining settings xs labels classes width).2, l.Sized := by
  obtain ⟨hvisits, hkept⟩ := visitEpochs_spec settings 1 (xs.zip labels).toArray
    (Array.range (xs.zip labels).toArray.size) settings.epochs
    (p := ⟨_, 0, _⟩) (kept_start width settings.hidden classes (Random.Source.ofSeed settings.initSeed))
  exact ⟨hvisits, hkept.outlines, hkept.current⟩

theorem trainedLayers_cut (h : checkedWidth xs labels classes = .ok width) :
    CutAtFault (trainedLayers settings xs labels classes)
      (visitTraining settings xs labels classes width) := by
  unfold trainedLayers
  rw [h, ok_bind]
  exact (takeEpochs_cut _ _ _ _).map _

theorem trainedLayers_spec {ls : List Layer}
    (h : trainedLayers settings xs labels classes = .ok ls) :
    ∃ width, Suitable xs labels classes width ∧
      ls.map Layer.outline = outlines width settings.hidden classes ∧ ∀ l ∈ ls, l.Sized := by
  obtain ⟨width, hwidth, -⟩ := ok_of_bind h
  obtain ⟨-, hkept⟩ := @visitTraining_spec settings xs labels classes width
  obtain ⟨-, rfl⟩ := (trainedLayers_cut hwidth).ok_iff.1 h
  exact ⟨width, suitable_of_checkedWidth hwidth, hkept⟩

theorem fit_eq : fit settings xs labels classes =
    (trainedLayers settings xs labels classes >>= Network.of) := by
  unfold fit trainedLayers
  cases checkedWidth xs labels classes with
  | error e => rfl
  | ok width =>
    simp only [ok_bind]
    cases takeEpochs settings (xs.zip labels).toArray 1 (Array.range (xs.zip labels).toArray.size)
      ⟨(drawLayers width settings.hidden classes
          (Random.Source.ofSeed settings.initSeed)).1.map MovingLayer.start, 0,
        (drawLayers width settings.hidden classes (Random.Source.ofSeed settings.initSeed)).2⟩
      settings.epochs <;> rfl

/-- The layers that a training comes to are accepted as a network. -/
theorem network_of_trained {ls : List Layer}
    (h : trainedLayers settings xs labels classes = .ok ls) : Network.of ls = .ok ⟨ls⟩ := by
  obtain ⟨width, hsuitable, houtlines, -⟩ := trainedLayers_spec h
  exact network_of_outlines houtlines hsuitable.two_le

/-- The layers of a network that was trained have the outlines asked for. -/
theorem fit_spec {n : Network} (h : fit settings xs labels classes = .ok n) :
    ∃ width, Suitable xs labels classes width ∧
      n.layers.map Layer.outline = outlines width settings.hidden classes ∧
      ∀ l ∈ n.layers, l.Sized := by
  rw [fit_eq] at h
  obtain ⟨ls, hls, hn⟩ := ok_of_bind h
  rw [network_of_trained hls] at hn
  cases hn
  exact trainedLayers_spec hls

end

end Triage.Training
