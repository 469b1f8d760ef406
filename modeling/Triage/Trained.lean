/-
Trained classifiers of a task. The labels of the samples are encoded, their texts brought to normal
form and divided into a training and a test part; the vectorizer and the network see the training
part alone. The model is stored in its binary form, and what is read back from that form is tested
on the test part.
-/
import Triage.Bundle
import Triage.Dataset
import Triage.Model.Bytes
import Triage.Text.Normalizer
import Triage.Training.Fit
import Triage.Vectorizer.Fit

namespace Triage

/-- A trained classifier with the figures of its training. -/
structure Trained where
  task : Task
  bundle : Bundle
  /-- The number of samples, and how many of them were used for training and for the test. -/
  samples : Nat
  train : Nat
  test : Nat
  /-- The accuracy of the network on the test part. -/
  accuracy : Float
  /-- The accuracy of the stored model on the test part, if it was tested. -/
  storedAccuracy : Option Float

namespace Trained

/-! ## Labels -/

/-- The topics of samples, `row` being the number of the first; none may be missing. -/
def topicsFrom (row : Nat) : List Sample → Except DatasetFault (List String)
  | [] => .ok []
  | s :: rest =>
    match Task.topic.labelOf s with
    | none => .error (.missingTopic row)
    | some topic => (topicsFrom (row + 1) rest).map (topic :: ·)

/-- The label table of a task and the class of each sample. The table of the ad task is fixed, that
of the topic task lists the topics that occur. -/
def encodeLabels (task : Task) (samples : List Sample) :
    Except DatasetFault (Labels × List Nat) := do
  match task with
  | .ad => pure (.ad, ← Labels.ad.encode (samples.map Sample.label))
  | .topic =>
    let topics ← topicsFrom 1 samples
    let table ← Labels.ofObserved topics
    pure (table, ← table.encode topics)

/-! ## Training -/

/-- The accuracy of the model in bytes, if it is asked for. -/
def storedAccuracyOf (verify : Bool) (bytes : List UInt8) (xs : List Singles) (labels : List Nat) :
    Except Error (Option Float) := do
  if verify then
    let model ← (Model.ofBytes bytes).mapError fun f => .corrupt (.model f)
    some <$> model.scorer.accuracy xs labels
  else pure none

/-- Trains a classifier on samples with settings that have no fault. -/
def ofSamples (task : Task) (settings : Settings) (samples : List Sample) :
    Except Error Trained := do
  let (table, labels) ← (encodeLabels task samples).mapError .dataset
  if table.size < 2 then .error (.precondition (.taskClasses task table.size))
  let texts := samples.map fun s => Text.normalizeOption s.text
  let split ← Split.stratified labels settings.training.testFraction settings.training.splitSeed
  let (trainTexts, testTexts) := split.select texts.toArray
  let (trainLabels, testLabels) := split.select labels.toArray
  let vectorizer ← Vectorizer.checkedFit settings.vectorizer trainTexts
  let testVectors := testTexts.map vectorizer.transform
  let (network, accuracy) ← Training.fitAndTest settings.training
    (trainTexts.map vectorizer.transform) trainLabels testVectors testLabels table.size
  let model ← (Model.ofNetwork network settings.exporting.quantization).toBytes
  let storedAccuracy ← storedAccuracyOf settings.exporting.verify model testVectors testLabels
  pure
    { task, accuracy, storedAccuracy
      bundle := ⟨vectorizer, model, table⟩
      samples := samples.length
      train := trainTexts.length
      test := testTexts.length }

/-- Trains a classifier on samples, the settings being checked before. -/
def of (task : Task) (settings : Settings) (samples : List Sample) : Except Error Trained :=
  match settings.fault? with
  | some f => .error (.configuration f)
  | none => ofSamples task settings samples

end Trained

end Triage
