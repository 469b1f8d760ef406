/-
Feed-forward networks of fully connected layers. The weights of a layer stand input by input, so
those of one input are neighbours.
-/
import Triage.Network.Scoring

namespace Triage

/-! ## Layers -/

/-- The product of two numbers of 64 bits, in 64 bits. -/
def wordProduct (a b : Nat) : Nat :=
  (UInt64.ofNat a * UInt64.ofNat b).toNat

/-- A fully connected layer. -/
structure Layer where
  inputs : Nat
  outputs : Nat
  weights : Singles
  bias : Singles
  activation : Activation
  deriving DecidableEq

namespace Layer

/-- A layer from its parts. The number of weights is checked against the product of the widths as a
number of 64 bits. -/
def of (inputs outputs : Nat) (weights bias : Singles) (activation : Activation) :
    Except Error Layer :=
  if inputs = 0 ∨ outputs = 0 then .error (.argument .layerDimensions)
  else if weights.size ≠ wordProduct inputs outputs then
    .error (.dimension (wordProduct inputs outputs) weights.size)
  else if bias.size ≠ outputs then .error (.dimension outputs bias.size)
  else .ok ⟨inputs, outputs, weights, bias, activation⟩

/-- The weight from an input to an output. -/
def weight (l : Layer) (input output : Nat) : Float32 :=
  l.weights.getD (input * l.outputs + output) 0

/-- The sums of a layer: each starts at the bias of its output. -/
def sums (l : Layer) (x : Singles) : Singles :=
  let active := activeInputs x
  Array.ofFn fun j : Fin l.outputs => weightedSum (l.weight · j) (l.bias.getD j 0) active

/-- The output of a layer. -/
def forward (l : Layer) (x : Singles) : Singles :=
  l.activation.apply (l.sums x)

/-- The number of weights and biases. -/
def parameters (l : Layer) : Nat :=
  l.weights.size + l.bias.size

end Layer

/-! ## Networks -/

/-- Layers applied one after the other. -/
structure Network where
  layers : List Layer
  deriving DecidableEq

namespace Network

/-- The first pair of neighbours that do not fit: all but the last layer use ReLU, and a layer takes
what the one before it gives. -/
def chainFault : List Layer → Option Error
  | a :: b :: rest =>
    if a.activation ≠ .relu then some (.argument .hiddenActivation)
    else if a.outputs ≠ b.inputs then some (.dimension a.outputs b.inputs)
    else chainFault (b :: rest)
  | _ => none

/-- A network from its layers: there is one at least, and the last one uses softmax over two classes
or more. -/
def of (layers : List Layer) : Except Error Network :=
  match layers.getLast? with
  | none => .error (.argument .noLayers)
  | some last =>
    if last.activation ≠ .softmax then .error (.argument .outputActivation)
    else if last.outputs < 2 then .error (.argument .outputClasses)
    else
      match chainFault layers with
      | some e => .error e
      | none => .ok ⟨layers⟩

/-- What a network is called. -/
def name : String :=
  "mlp"

/-- The width of the inputs. -/
def inputs (n : Network) : Nat :=
  (n.layers.head?.map Layer.inputs).getD 0

/-- The number of classes. -/
def classes (n : Network) : Nat :=
  (n.layers.getLast?.map Layer.outputs).getD 0

/-- The number of weights and biases. -/
def parameters (n : Network) : Nat :=
  n.layers.foldr (·.parameters + ·) 0

/-- The output of the layers one after the other. -/
def forward (n : Network) (x : Singles) : Singles :=
  n.layers.foldl (fun v l => l.forward v) x

/-- A network as a classifier. -/
def scorer (n : Network) : Scorer :=
  ⟨n.inputs, n.classes, n.forward⟩

end Network

end Triage
