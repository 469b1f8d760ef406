/-
Training without its check. Samples are sent through the layers and their gradients are added whatever
comes out, and each visit of a sample is written down. The training that checks goes as this one does
up to the first visit whose probabilities are not all finite: there it ends, with an error that names
the epoch of that visit, and if there is no such visit, both come to the same layers.
-/
import Triage.Proofs.Result
import Triage.Training.Fit

namespace Triage.Training

/-! ## Visits -/

/-- A sample that was sent through the layers: in which epoch, what happened at each layer, and what
came out. -/
structure Visit where
  epoch : Nat
  passages : List Passage
  output : Singles

/-- Whether some probability is not finite. -/
def Visit.isFaulty (v : Visit) : Bool :=
  !v.output.all Float32.isFinite

/-- A result with the visits on the way to it. -/
abbrev Visited (α : Type) :=
  List Visit × α

/-- Whether a computation goes as another one up to the first faulty visit. -/
def CutAtFault {α : Type} (x : Except Error α) (run : Visited α) : Prop :=
  x = match run.1.find? Visit.isFaulty with
    | some v => .error (.training (.nonFinite v.epoch))
    | none => .ok run.2

/-- Steps taken one after the other. -/
def visitAll {σ ι : Type} (step : σ → ι → Visited σ) (s : σ) : List ι → Visited σ
  | [] => ([], s)
  | i :: rest =>
    let (visits, s) := step s i
    let (more, s) := visitAll step s rest
    (visits ++ more, s)

namespace CutAtFault

variable {α β : Type} {x : Except Error α} {run : Visited α}

theorem bind {f : α → Except Error β} {next : Visited β} (h : CutAtFault x run)
    (hf : CutAtFault (f run.2) next) : CutAtFault (x >>= f) (run.1 ++ next.1, next.2) := by
  unfold CutAtFault at *
  rw [List.find?_append]
  cases hfind : run.1.find? Visit.isFaulty with
  | some v =>
    rw [hfind] at h
    rw [h]
    rfl
  | none =>
    rw [hfind] at h
    rw [h, ok_bind, hf, Option.none_or]

theorem map (f : α → β) (h : CutAtFault x run) :
    CutAtFault (x >>= fun a => .ok (f a)) (run.1, f run.2) := by
  have hlast := h.bind (f := fun a => .ok (f a))
    (show CutAtFault (.ok (f run.2)) ([], f run.2) from rfl)
  rwa [List.append_nil] at hlast

theorem foldlM {σ ι : Type} {f : σ → ι → Except Error σ} {step : σ → ι → Visited σ}
    (h : ∀ s i, CutAtFault (f s i) (step s i)) (is : List ι) (s : σ) :
    CutAtFault (is.foldlM f s) (visitAll step s is) := by
  induction is generalizing s with
  | nil => rfl
  | cons i rest ih => exact (h s i).bind (ih (step s i).2)

/-- The error is that of the first faulty visit. -/
theorem error_iff (h : CutAtFault x run) {e : Error} : x = .error e ↔
    ∃ v, run.1.find? Visit.isFaulty = some v ∧ e = .training (.nonFinite v.epoch) := by
  rw [h]
  cases hfind : run.1.find? Visit.isFaulty with
  | some v => simp [eq_comm]
  | none => simp

/-- There is a result just if no visit is faulty. -/
theorem ok_iff (h : CutAtFault x run) {a : α} :
    x = .ok a ↔ (∀ v ∈ run.1, v.isFaulty = false) ∧ a = run.2 := by
  rw [h]
  cases hfind : run.1.find? Visit.isFaulty with
  | some v =>
    have hfaulty := List.find?_some hfind
    refine ⟨nofun, fun hnone => ?_⟩
    rw [hnone.1 v (List.mem_of_find?_eq_some hfind)] at hfaulty
    cases hfaulty
  | none =>
    have hnone := List.find?_eq_none.1 hfind
    constructor
    · rintro ⟨⟩
      exact ⟨fun v hv => Bool.not_eq_true _ ▸ hnone v hv, rfl⟩
    · rintro ⟨-, rfl⟩
      rfl

end CutAtFault

/-! ## Trainings as folds -/

section

variable {settings : TrainingSettings} {epoch : Nat}

theorem takeSamples_eq (rates : List Float32) (ls : List Layer) (es : List Example)
    (sums : List Gradient × Random.Source) : takeSamples rates ls epoch es sums.1 sums.2 =
      es.foldlM (fun sums e => takeSample rates ls epoch sums.1 sums.2 e) sums := by
  induction es generalizing sums with
  | nil => rfl
  | cons e rest ih =>
    rw [takeSamples, List.foldlM_cons]
    cases takeSample rates ls epoch sums.1 sums.2 e with
    | error f => rfl
    | ok next => exact ih next

theorem takeBatch_eq (p : Progress) (es : List Example) :
    takeBatch settings epoch p es =
      (takeSamples settings.dropout (p.layers.map MovingLayer.current) epoch es
        ((p.layers.map MovingLayer.current).map Gradient.zero) p.source >>= fun sums =>
          .ok ⟨p.layers.zipWith (MovingLayer.move settings.learningRate (p.step + 1))
            (sums.1.map (Gradient.mean es.length)), p.step + 1, sums.2⟩) := by
  unfold takeBatch
  simp only
  cases takeSamples settings.dropout (p.layers.map MovingLayer.current) epoch es
    ((p.layers.map MovingLayer.current).map Gradient.zero) p.source <;> rfl

theorem takeBatches_eq (p : Progress) (batches : List (List Example)) :
    takeBatches settings epoch p batches = batches.foldlM (takeBatch settings epoch) p := by
  induction batches generalizing p with
  | nil => rfl
  | cons b rest ih =>
    rw [takeBatches, List.foldlM_cons]
    cases takeBatch settings epoch p b with
    | error f => rfl
    | ok next => exact ih next

/-- The batches of an epoch, in the order that the samples are shuffled to. -/
def batchesOf (settings : TrainingSettings) (samples : Array Example) (order : Array Nat) :
    List (List Example) :=
  pieces settings.batchSize order.size (order.toList.filterMap (samples[·]?))

theorem takeEpochs_succ (samples : Array Example) (order : Array Nat) (p : Progress) (n : Nat) :
    takeEpochs settings samples epoch order p (n + 1) =
      (takeBatches settings epoch { p with source := (Random.shuffle order p.source).2 }
        (batchesOf settings samples (Random.shuffle order p.source).1) >>= fun q =>
          takeEpochs settings samples (epoch + 1) (Random.shuffle order p.source).1 q n) := by
  rw [takeEpochs, batchesOf]
  simp only
  cases takeBatches settings epoch { p with source := (Random.shuffle order p.source).2 }
      (pieces settings.batchSize (Random.shuffle order p.source).1.size
        ((Random.shuffle order p.source).1.toList.filterMap (samples[·]?))) <;> rfl

end

/-! ## Trainings without the check -/

/-- Adds the gradients of one sample, whatever came out. -/
def visitSample (rates : List Float32) (layers : List Layer) (epoch : Nat)
    (sums : List Gradient × Random.Source) (e : Example) :
    Visited (List Gradient × Random.Source) :=
  let (passages, y, s) := passThrough rates e.1 layers sums.2
  ([⟨epoch, passages, y⟩], (backward (outputError y e.2) passages sums.1).1, s)

/-- Takes a batch. -/
def visitBatch (settings : TrainingSettings) (epoch : Nat) (p : Progress) (batch : List Example) :
    Visited Progress :=
  let layers := p.layers.map MovingLayer.current
  let (visits, gs, s) := visitAll (visitSample settings.dropout layers epoch)
    (layers.map Gradient.zero, p.source) batch
  let gs := gs.map (Gradient.mean batch.length)
  (visits, ⟨p.layers.zipWith (MovingLayer.move settings.learningRate (p.step + 1)) gs,
    p.step + 1, s⟩)

/-- Takes `n` epochs, `epoch` being the number of the first. -/
def visitEpochs (settings : TrainingSettings) (samples : Array Example) (epoch : Nat)
    (order : Array Nat) (p : Progress) : Nat → Visited Progress
  | 0 => ([], p)
  | n + 1 =>
    let (order, s) := Random.shuffle order p.source
    let (visits, p) := visitAll (visitBatch settings epoch) { p with source := s }
      (batchesOf settings samples order)
    let (more, p) := visitEpochs settings samples (epoch + 1) order p n
    (visits ++ more, p)

section

variable {settings : TrainingSettings} {epoch : Nat}

theorem takeSample_cut (epoch : Nat) (rates : List Float32) (ls : List Layer)
    (sums : List Gradient × Random.Source) (e : Example) :
    CutAtFault (takeSample rates ls epoch sums.1 sums.2 e)
      (visitSample rates ls epoch sums e) := by
  unfold takeSample visitSample CutAtFault
  rcases passThrough rates e.1 ls sums.2 with ⟨passages, y, s⟩
  cases hy : y.all Float32.isFinite <;> simp [Visit.isFaulty, hy]

theorem takeBatch_cut (p : Progress) (batch : List Example) :
    CutAtFault (takeBatch settings epoch p batch) (visitBatch settings epoch p batch) := by
  rw [takeBatch_eq]
  have hsamples := CutAtFault.foldlM (takeSample_cut epoch settings.dropout
    (p.layers.map MovingLayer.current)) batch
      ((p.layers.map MovingLayer.current).map Gradient.zero, p.source)
  rw [← takeSamples_eq] at hsamples
  exact hsamples.map _

theorem takeEpochs_cut (samples : Array Example) (order : Array Nat) (p : Progress) (n : Nat) :
    CutAtFault (takeEpochs settings samples epoch order p n)
      (visitEpochs settings samples epoch order p n) := by
  induction n generalizing epoch order p with
  | zero => rfl
  | succ n ih =>
    rw [takeEpochs_succ, takeBatches_eq]
    exact (CutAtFault.foldlM takeBatch_cut (batchesOf settings samples _) _).bind (ih _ _)

end

end Triage.Training
