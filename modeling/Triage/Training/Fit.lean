/-
Training of a network. The weights are drawn at random within bounds that depend on the widths of
their layer. In each epoch the samples are put in a random order and taken in batches; after each
batch all layers move by the mean gradient. All draws come from one stream, in the order they are
made. A sample whose probabilities are not all finite ends the training.

The loss of an epoch is not among what is computed here, nor is the error that ends a training whose
mean loss is not finite: no weight depends on the loss, and the mean is finite whenever an epoch comes
to its end. Triage.Proofs.Training.Tables has the training with both and shows that.
-/
import Triage.Training.Adam
import Triage.Training.Settings

namespace Triage.Training

/-! ## Start -/

/-- Numbers drawn one after the other. -/
def drawMany (draw : Random.Source → Float32 × Random.Source) :
    Nat → Random.Source → Array Float32 → Array Float32 × Random.Source
  | 0, s, acc => (acc, s)
  | n + 1, s, acc =>
    let (x, s) := draw s
    drawMany draw n s (acc.push x)

/-- The bound of a layer's weights: the root of six over the sum of its widths. The sum is that of
natural numbers, and that of 64-bit words as long as it is below `2 ^ 64`; the widths of a layer whose
weights fit in memory add up to less. -/
def weightBound (inputs outputs : Nat) : Float32 :=
  (6 / Float32.ofNat (inputs + outputs)).sqrt

/-- A layer with random weights and no bias. -/
def drawLayer (inputs outputs : Nat) (activation : Activation) (s : Random.Source) :
    Layer × Random.Source :=
  let (w, s) := drawMany (Random.symmetric (weightBound inputs outputs)) (inputs * outputs) s #[]
  (⟨inputs, outputs, w, Array.replicate outputs 0, activation⟩, s)

/-- Hidden layers of the given widths and an output layer, one after the other. -/
def drawLayers (inputs : Nat) (hidden : List Nat) (classes : Nat) (s : Random.Source) :
    List Layer × Random.Source :=
  match hidden with
  | [] =>
    let (l, s) := drawLayer inputs classes .softmax s
    ([l], s)
  | width :: rest =>
    let (l, s) := drawLayer inputs width .relu s
    let (ls, s) := drawLayers width rest classes s
    (l :: ls, s)

/-! ## Samples -/

/-- What training is given for each sample. -/
abbrev Example := Singles × Nat

/-- The width of the samples, all of which must have the same, and a label below `classes`. -/
def checkedWidth (xs : List Singles) (labels : List Nat) (classes : Nat) : Except Error Nat :=
  if classes < 2 then .error (.precondition (.tooFewClasses classes))
  else
    match xs with
    | [] => .error (.precondition .noSamples)
    | x :: _ =>
      if xs.length ≠ labels.length then .error (.dimension xs.length labels.length)
      else if x.size = 0 then .error (.precondition .emptyFeatures)
      else
        match xs.find? (·.size ≠ x.size) with
        | some row => .error (.dimension x.size row.size)
        | none =>
          match labels.find? (classes ≤ ·) with
          | some label => .error (.precondition (.labelRange label classes))
          | none => .ok x.size

/-! ## Batches -/

/-- Adds the gradients of one sample. -/
def takeSample (rates : List Float32) (layers : List Layer) (epoch : Nat)
    (gs : List Gradient) (s : Random.Source) (e : Example) :
    Except Error (List Gradient × Random.Source) :=
  let (passages, y, s) := passThrough rates e.1 layers s
  if y.all Float32.isFinite then .ok ((backward (outputError y e.2) passages gs).1, s)
  else .error (.training (.nonFinite epoch))

/-- Adds the gradients of samples, one after the other. -/
def takeSamples (rates : List Float32) (layers : List Layer) (epoch : Nat) :
    List Example → List Gradient → Random.Source → Except Error (List Gradient × Random.Source)
  | [], gs, s => .ok (gs, s)
  | e :: rest, gs, s =>
    match takeSample rates layers epoch gs s e with
    | .error f => .error f
    | .ok (gs, s) => takeSamples rates layers epoch rest gs s

/-- A network under training: its layers, the number of batches taken, which has no bound, and the
place in the stream of random words. -/
structure Progress where
  layers : List MovingLayer
  step : Nat
  source : Random.Source

/-- Takes a batch. -/
def takeBatch (settings : TrainingSettings) (epoch : Nat) (p : Progress) (batch : List Example) :
    Except Error Progress :=
  let layers := p.layers.map MovingLayer.current
  match takeSamples settings.dropout layers epoch batch (layers.map Gradient.zero) p.source with
  | .error f => .error f
  | .ok (gs, s) =>
    let gs := gs.map (Gradient.mean batch.length)
    .ok ⟨p.layers.zipWith (MovingLayer.move settings.learningRate (p.step + 1)) gs,
      p.step + 1, s⟩

/-- A list in pieces of `n`, the last of which may be shorter; `fuel` bounds their number. -/
def pieces {α : Type} (n : Nat) : Nat → List α → List (List α)
  | 0, _ => []
  | _ + 1, [] => []
  | fuel + 1, as => as.take n :: pieces n fuel (as.drop n)

/-- Takes batches one after the other. -/
def takeBatches (settings : TrainingSettings) (epoch : Nat) (p : Progress) :
    List (List Example) → Except Error Progress
  | [] => .ok p
  | b :: rest =>
    match takeBatch settings epoch p b with
    | .error f => .error f
    | .ok p => takeBatches settings epoch p rest

/-! ## Epochs -/

/-- Takes `n` epochs, `epoch` being the number of the first. The order of the samples is shuffled
again before each. -/
def takeEpochs (settings : TrainingSettings) (samples : Array Example) (epoch : Nat)
    (order : Array Nat) (p : Progress) : Nat → Except Error Progress
  | 0 => .ok p
  | n + 1 =>
    let (order, s) := Random.shuffle order p.source
    let batches := pieces settings.batchSize order.size (order.toList.filterMap (samples[·]?))
    match takeBatches settings epoch { p with source := s } batches with
    | .error f => .error f
    | .ok p => takeEpochs settings samples (epoch + 1) order p n

/-- Trains a network on samples with labels below `classes`. -/
def fit (settings : TrainingSettings) (xs : List Singles) (labels : List Nat) (classes : Nat) :
    Except Error Network := do
  let width ← checkedWidth xs labels classes
  let (layers, s) := drawLayers width settings.hidden classes
    (Random.Source.ofSeed settings.initSeed)
  let start : Progress := ⟨layers.map MovingLayer.start, 0, s⟩
  let samples := (xs.zip labels).toArray
  let done ← takeEpochs settings samples 1 (Array.range samples.size) start settings.epochs
  Network.of (done.layers.map MovingLayer.current)

/-! ## Evaluation -/

/-- Trains on one set of samples and finds the accuracy on another. -/
def fitAndTest (settings : TrainingSettings) (xs : List Singles) (labels : List Nat)
    (testXs : List Singles) (testLabels : List Nat) (classes : Nat) :
    Except Error (Network × Float) := do
  let network ← fit settings xs labels classes
  let accuracy ← network.scorer.accuracy testXs testLabels
  pure (network, accuracy)

/-- Splits samples, trains on one part and finds the accuracy on the other. -/
def splitAndFit (settings : TrainingSettings) (xs : List Singles) (labels : List Nat)
    (classes : Nat) : Except Error (Network × Float) := do
  if xs.length ≠ labels.length then .error (.dimension xs.length labels.length)
  let split ← Split.stratified labels settings.testFraction settings.splitSeed
  let (trainXs, testXs) := split.select xs.toArray
  let (trainLabels, testLabels) := split.select labels.toArray
  fitAndTest settings trainXs trainLabels testXs testLabels classes

end Triage.Training
