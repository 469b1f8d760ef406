/-
Settings of a training run.
-/
import Triage.Error
import Triage.Split

namespace Triage

/-- What a training run is told: the network's shape, how it is trained, and how the samples are
divided and drawn. -/
structure TrainingSettings where
  /-- The width of each hidden layer. -/
  hidden : List Nat
  /-- The share of units dropped behind each hidden layer. -/
  dropout : List Float32
  epochs : Nat
  batchSize : Nat
  learningRate : Float32
  /-- The share of the samples held out. -/
  testFraction : Float
  splitSeed : UInt64
  initSeed : UInt64
  deriving DecidableEq

namespace TrainingSettings

/-- The settings used where nothing else is said. -/
def standard : TrainingSettings where
  hidden := [128, 64, 32]
  dropout := [0.4, 0.3, 0]
  epochs := 15
  batchSize := 32
  learningRate := 0.001
  testFraction := 0.2
  splitSeed := 42
  initSeed := 42

/-- Whether a rate lies between zero and one, one left out. -/
def isRate (p : Float32) : Bool :=
  0 ≤ p && p < 1

/-- The first fault of settings. -/
def fault? (s : TrainingSettings) : Option ConfigFault :=
  if s.hidden.any (· == 0) then some .hiddenWidth
  else if s.dropout.length ≠ s.hidden.length then
    some (.dropoutCount s.dropout.length s.hidden.length)
  else if s.dropout.any (!isRate ·) then some .dropoutRate
  else if s.epochs = 0 ∨ s.batchSize = 0 then some .epochsOrBatch
  else if !(s.learningRate.isFinite && 0 < s.learningRate) then some .learningRate
  else if !Split.isProper s.testFraction then some .testFraction
  else none

end TrainingSettings

end Triage
