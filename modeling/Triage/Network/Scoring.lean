/-
Sums, activations and choices over vectors of singles. Every operation rounds, so the order of the
terms is part of each definition: sums run over the inputs in order, and zero inputs are left out.
-/
import Triage.Error
import Triage.Network.Activation
import Triage.Number.Exponential

namespace Triage

/-- A vector of singles. -/
abbrev Singles := Array Float32

/-! ## Sums -/

/-- The inputs of a vector that are not zero, with their places. -/
def activeInputs (x : Singles) : List (Nat × Float32) :=
  x.toList.zipIdx.filterMap fun (v, i) => if v == 0 then none else some (i, v)

/-- The weighted inputs added one by one to a start. -/
def weightedSum (weight : Nat → Float32) (start : Float32) (inputs : List (Nat × Float32)) :
    Float32 :=
  inputs.foldl (fun sum (i, v) => sum + v * weight i) start

/-! ## Activations -/

/-- The largest member of a vector, minus infinity if it has none; NaN is passed over. -/
def maximum (x : Singles) : Float32 :=
  x.foldl Number.larger (Float32.ofBits 0xff800000)

/-- Exponentials of the distances from the maximum, divided by their sum if that is positive. -/
def softmax (x : Singles) : Singles :=
  let top := maximum x
  let powers := x.map fun v => Number.exp (v - top)
  let sum := powers.foldl (· + ·) 0
  if 0 < sum then powers.map (· / sum) else powers

/-- Negative members replaced by zero. -/
def relu (x : Singles) : Singles :=
  x.map (Number.larger · 0)

/-- The activation as a function on vectors. -/
def Activation.apply : Activation → Singles → Singles
  | .relu => Triage.relu
  | .softmax => Triage.softmax

/-! ## Choices -/

/-- The place of the largest of the members from `index` on, or `best` if none is larger than the
member there. -/
def argmaxFrom (best : Nat) (top : Float32) (index : Nat) : List Float32 → Nat
  | [] => best
  | v :: rest =>
    if top < v then argmaxFrom index v (index + 1) rest else argmaxFrom best top (index + 1) rest

/-- The place of the largest member, the first one if there are several; zero for no members. -/
def argmax (x : Singles) : Nat :=
  match x.toList with
  | [] => 0
  | v :: rest => argmaxFrom 0 v 1 rest

/-! ## Scorers -/

/-- What a classifier is used through: the width of its inputs, the number of its classes, and the
probability of each class for an input of that width. -/
structure Scorer where
  inputs : Nat
  classes : Nat
  probabilities : Singles → Singles

namespace Scorer

/-- The probabilities of the classes for a vector, which must have the right width. -/
def score (s : Scorer) (x : Singles) : Except Error Singles :=
  if x.size = s.inputs then .ok (s.probabilities x) else .error (.dimension s.inputs x.size)

/-- The most probable class. -/
def predict (s : Scorer) (x : Singles) : Except Error Nat :=
  (s.score x).map argmax

/-- How many vectors are put into the class given with them. -/
def countCorrect (s : Scorer) : List (Singles × Nat) → Except Error Nat
  | [] => .ok 0
  | (x, label) :: rest => do
    let found ← s.predict x
    let n ← countCorrect s rest
    pure (if found = label then n + 1 else n)

/-- The share of vectors put into the class given with them. -/
def accuracy (s : Scorer) (xs : List Singles) (labels : List Nat) : Except Error Float :=
  if xs.isEmpty then .error (.precondition .emptyEvaluation)
  else if xs.length ≠ labels.length then .error (.dimension xs.length labels.length)
  else (s.countCorrect (xs.zip labels)).map fun n => Float.ofNat n / Float.ofNat xs.length

end Scorer

end Triage
