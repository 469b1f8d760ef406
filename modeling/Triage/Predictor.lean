/-
Predictors: a stored bundle put to use. Messages are classified as they come, without any state of
the training; for the ad task a message is flagged if the probability of an advertisement reaches a
threshold.
-/
import Triage.Bundle
import Triage.Model.Bytes
import Triage.Text.Normalizer

namespace Triage

open Storage (Host Path)

/-- A bundle that was read, with the threshold of the ad task. -/
structure Predictor where
  task : Task
  vectorizer : Vectorizer
  model : Model
  labels : Labels
  /-- The size of the stored model in bytes. -/
  modelBytes : Nat
  threshold : Float32

/-- What is said of one message. -/
structure Prediction where
  /-- The label of the most probable class. -/
  label : String
  index : Nat
  /-- The probability of that class. -/
  confidence : Float32
  probabilities : Singles
  /-- The share of the message's n-grams that are in the vocabulary, and their number. -/
  coverage : Float32
  matched : Nat
  /-- Whether the message is flagged; only the ad task flags messages. -/
  isAd : Option Bool
  deriving DecidableEq

/-- What a bundle holds. -/
structure BundleInfo where
  task : Task
  labels : List String
  vocabulary : Nat
  settings : VectorizerSettings
  quantization : Quantization
  shapes : List (Nat × Nat)
  modelBytes : Nat
  deriving DecidableEq

namespace Predictor

/-! ## Loading -/

/-- The threshold used where nothing else is said. -/
def standardThreshold : Float32 := 0.85

/-- The fault of parts that do not fit each other: the model takes as many features as there are
terms, there is a label for each of its outputs, and the labels of the ad task are fixed. -/
def fault? (task : Task) (v : Vectorizer) (model : Model) (labels : Labels) :
    Option ArtifactFault :=
  if model.inputs ≠ v.size then some (.featureCount model.inputs v.size)
  else if model.classes ≠ labels.size then some (.outputCount model.classes labels.size)
  else if task = .ad ∧ labels ≠ .ad then some (.adLabels labels.names)
  else none

/-- The predictor in the files found: the vectorizer is looked at first, then the model, then the
labels, and last whether they fit each other. -/
def ofFound (dir : Path) (task : Task) (found : Bundle.Found) : Except Error Predictor := do
  let v ← Vectorizer.ofFound dir task.name fun f => found (.vectorizer f)
  let bytes ← (found .model).mapError .file
  let model ← (Model.ofBytes bytes).mapError fun f => .corrupt (.model f)
  let labels ← Labels.ofFound (BundleFile.labels.path dir task) (found .labels)
  match fault? task v model labels with
  | some f => .error (.corrupt f)
  | none => pure ⟨task, v, model, labels, bytes.length, standardThreshold⟩

/-- The predictor of the bundle stored in a directory. -/
def load {m : Type → Type} [Monad m] [Host m] (dir : Path) (task : Task) :
    m (Except Error Predictor) := do
  let found ← Bundle.find dir task
  pure (ofFound dir task found)

/-- A number brought to the ends of the unit interval if it lies outside. -/
def clampUnit (x : Float32) : Float32 :=
  if x < 0 then 0 else if 1 < x then 1 else x

/-- A predictor with another threshold, which is kept within the unit interval; for NaN the standard
one is taken. -/
def withThreshold (p : Predictor) (x : Float32) : Predictor :=
  { p with threshold := if x.isNaN then standardThreshold else clampUnit x }

/-! ## Use -/

/-- What the bundle holds. -/
def info (p : Predictor) : BundleInfo where
  task := p.task
  labels := p.labels.names
  vocabulary := p.vectorizer.size
  settings := p.vectorizer.settings
  quantization := p.model.method
  shapes := p.model.shapes
  modelBytes := p.modelBytes

/-- Whether a message with these probabilities is flagged. -/
def flag (p : Predictor) (probabilities : Singles) : Option Bool :=
  match p.task with
  | .ad => some (p.threshold ≤ probabilities.getD ((p.labels.index? "ad").getD 0) 0)
  | .topic => none

/-- Classifies a message. -/
def predict (p : Predictor) (text : String) : Except Error Prediction := do
  let normal := Text.normalize text
  let probabilities ← p.model.scorer.score (p.vectorizer.transform normal)
  let index := argmax probabilities
  match p.labels.name? index with
  | none => .error (.corrupt (.noLabel index))
  | some label =>
    pure
      { label, index, probabilities
        confidence := probabilities.getD index 0
        coverage := p.vectorizer.coverage normal
        matched := p.vectorizer.matched normal
        isAd := p.flag probabilities }

/-- Classifies messages one by one. -/
def predictAll (p : Predictor) : List String → Except Error (List Prediction)
  | [] => .ok []
  | text :: rest => do
    let prediction ← p.predict text
    let predictions ← predictAll p rest
    pure (prediction :: predictions)

end Predictor

end Triage
