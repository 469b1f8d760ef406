/-
Models for storage: networks whose weights are kept either as they are or as whole numbers of one
byte with a scale for each output.
-/
import Triage.Network.Basic

namespace Triage

/-- How the weights of an exported model are kept. -/
inductive Quantization where
  | float32
  | int8
  deriving DecidableEq, Repr

namespace Quantization

/-- The name of a way to keep weights. -/
def name : Quantization → String
  | .float32 => "float32"
  | .int8 => "int8"

/-- The way with a name. -/
def named? (name : String) : Option Quantization :=
  if name = "float32" then some .float32 else if name = "int8" then some .int8 else none

end Quantization

/-! ## Layers -/

/-- Weights as they are kept, input by input. -/
inductive StoredWeights where
  | float32 (weights : Singles)
  | int8 (scales : Singles) (values : Array Int8)
  deriving DecidableEq

/-- A layer as it is kept. -/
structure StoredLayer where
  inputs : Nat
  outputs : Nat
  activation : Activation
  weights : StoredWeights
  bias : Singles
  deriving DecidableEq

/-- The single of a byte. -/
def singleOfInt8 (q : Int8) : Float32 :=
  Float32.ofInt q.toInt

namespace StoredLayer

/-- The weighted inputs of one output: whole numbers are scaled after they have been added up. -/
def unscaledSum (l : StoredLayer) (active : List (Nat × Float32)) (j : Nat) : Float32 :=
  match l.weights with
  | .float32 w => weightedSum (fun i => w.getD (i * l.outputs + j) 0) 0 active
  | .int8 scales values =>
    weightedSum (fun i => singleOfInt8 (values.getD (i * l.outputs + j) 0)) 0 active *
      scales.getD j 0

/-- The sums of a layer, to which the bias is added last. -/
def sums (l : StoredLayer) (x : Singles) : Singles :=
  let active := activeInputs x
  Array.ofFn fun j : Fin l.outputs => l.unscaledSum active j + l.bias.getD j 0

/-- The output of a layer. -/
def forward (l : StoredLayer) (x : Singles) : Singles :=
  l.activation.apply (l.sums x)

/-- The room the weights and biases take, in bytes. -/
def memory (l : StoredLayer) : Nat :=
  (match l.weights with
    | .float32 w => 4 * w.size
    | .int8 scales values => 4 * scales.size + values.size) + 4 * l.bias.size

end StoredLayer

/-! ## Quantization -/

/-- The largest magnitude among the weights of an output. -/
def magnitudeOf (l : Layer) (j : Nat) : Float32 :=
  (List.range l.inputs).foldl (fun top i => Number.larger top (l.weight i j).abs) 0

/-- The scale of an output: its largest magnitude becomes 127. -/
def scaleOf (l : Layer) (j : Nat) : Float32 :=
  let top := magnitudeOf l j
  if 0 < top then top / 127 else 1

/-- The weights of a layer as whole numbers with scales. -/
def quantizeInt8 (l : Layer) : StoredWeights :=
  let scales := Array.ofFn fun j : Fin l.outputs => scaleOf l j
  .int8 scales (l.weights.mapIdx fun k w => Number.toInt8 (w / scales.getD (k % l.outputs) 1))

/-- A layer as it is kept in a given way. -/
def Layer.stored (l : Layer) (q : Quantization) : StoredLayer where
  inputs := l.inputs
  outputs := l.outputs
  activation := l.activation
  weights := match q with
    | .float32 => .float32 l.weights
    | .int8 => quantizeInt8 l
  bias := l.bias

/-! ## Models -/

/-- A model as it is kept. -/
structure Model where
  method : Quantization
  layers : List StoredLayer
  deriving DecidableEq

namespace Model

/-- A network as a model. -/
def ofNetwork (n : Network) (q : Quantization) : Model :=
  ⟨q, n.layers.map (·.stored q)⟩

/-- What a model is called. -/
def name (m : Model) : String :=
  Network.name ++ match m.method with
    | .float32 => "-f32"
    | .int8 => "-int8"

/-- The width of the inputs. -/
def inputs (m : Model) : Nat :=
  (m.layers.head?.map StoredLayer.inputs).getD 0

/-- The number of classes. -/
def classes (m : Model) : Nat :=
  (m.layers.getLast?.map StoredLayer.outputs).getD 0

/-- The widths of the layers. -/
def shapes (m : Model) : List (Nat × Nat) :=
  m.layers.map fun l => (l.inputs, l.outputs)

/-- The room the weights and biases take, in bytes. -/
def memory (m : Model) : Nat :=
  m.layers.foldr (·.memory + ·) 0

/-- The output of the layers one after the other. -/
def forward (m : Model) (x : Singles) : Singles :=
  m.layers.foldl (fun v l => l.forward v) x

/-- A model as a classifier. -/
def scorer (m : Model) : Scorer :=
  ⟨m.inputs, m.classes, m.forward⟩

end Model

end Triage
