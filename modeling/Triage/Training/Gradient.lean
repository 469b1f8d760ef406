/-
Back-propagation. A sample is sent through the layers with units dropped at random, and from what
came out and what should have come out the gradient of each weight is found, last layer first.
-/
import Triage.Network.Basic
import Triage.Random.Draw

namespace Triage.Training

/-! ## Forward -/

/-- A layer on the way of one sample: the layer, what went in, and the gate of each unit. A gate is
zero where the unit was dropped or inactive, else the factor its output was raised by. -/
structure Passage where
  layer : Layer
  input : Singles
  gates : Singles

/-- Whether a unit is kept at a dropout rate. A rate of zero draws nothing. -/
def keep (rate : Float32) (s : Random.Source) : Bool × Random.Source :=
  if rate == 0 then (true, s)
  else
    let (u, s) := Random.unit s
    (rate ≤ u, s)

/-- The gates of units, drawn one after the other. -/
def drawGates (rate : Float32) : List Float32 → Random.Source → List Float32 × Random.Source
  | [], s => ([], s)
  | a :: rest, s =>
    let (kept, s) := keep rate s
    let (gates, s) := drawGates rate rest s
    ((if 0 < a && kept then 1 / (1 - rate) else 0) :: gates, s)

/-- The output of a unit behind its gate. -/
def gated (a gate : Float32) : Float32 :=
  if gate == 0 then 0 else a * gate

/-- Sends a sample through layers, keeping what happened at each. A hidden layer has a dropout rate,
zero if none is left in the list. -/
def passThrough (rates : List Float32) (x : Singles) :
    List Layer → Random.Source → List Passage × Singles × Random.Source
  | [], s => ([], x, s)
  | l :: rest, s =>
    let out := l.forward x
    match l.activation with
    | .softmax =>
      let (passages, y, s) := passThrough (rates.drop 1) out rest s
      (⟨l, x, #[]⟩ :: passages, y, s)
    | .relu =>
      let (gates, s) := drawGates ((rates.head?).getD 0) out.toList s
      let gates := gates.toArray
      let (passages, y, s) := passThrough (rates.drop 1) (out.zipWith gated gates) rest s
      (⟨l, x, gates⟩ :: passages, y, s)

/-! ## Backward -/

/-- What is to be changed in a layer: one entry for each weight and each bias. -/
structure Gradient where
  weights : Singles
  bias : Singles

/-- No change. -/
def Gradient.zero (l : Layer) : Gradient :=
  ⟨Array.replicate l.weights.size 0, Array.replicate l.bias.size 0⟩

/-- Adds to the weights of one input. -/
def addRow (outputs : Nat) (delta : List Float32) (w : Singles) (i : Nat) (x : Float32) : Singles :=
  delta.zipIdx.foldl (fun w (d, j) => w.modify (i * outputs + j) (· + x * d)) w

/-- Adds the part of one sample: for a weight, the product of its input and the error of its
output. -/
def Gradient.add (g : Gradient) (l : Layer) (input delta : Singles) : Gradient :=
  let ⟨w, b⟩ := g
  { weights := (activeInputs input).foldl
      (fun w (i, x) => addRow l.outputs delta.toList w i x) w
    bias := b.zipWith (· + ·) delta }

/-- The error at the outputs of the layer before, through the gates there. -/
def pullBack (l : Layer) (delta gates : Singles) : Singles :=
  let errors := delta.toList.zipIdx
  Array.ofFn fun i : Fin l.inputs =>
    let gate := gates.getD i 0
    if gate == 0 then 0
    else errors.foldl (fun sum (d, j) => sum + l.weight i j * d) 0 * gate

/-- Adds a sample's part to the gradients of layers, `delta` being the error at the last one. The
error at the first one is returned with them. -/
def backward (delta : Singles) : List Passage → List Gradient → List Gradient × Singles
  | p :: q :: rest, g :: gs =>
    let (gs, next) := backward delta (q :: rest) gs
    let d := pullBack q.layer next p.gates
    (g.add p.layer p.input d :: gs, d)
  | [p], [g] => ([g.add p.layer p.input delta], delta)
  | _, gs => (gs, delta)

/-- The error at the output: the probabilities, less one for the class that was right. -/
def outputError (probabilities : Singles) (label : Nat) : Singles :=
  probabilities.modify label (· - 1)

/-- The mean over a batch of so many samples. -/
def Gradient.mean (count : Nat) (g : Gradient) : Gradient :=
  let scale := 1 / Float32.ofNat count
  ⟨g.weights.map (· * scale), g.bias.map (· * scale)⟩

end Triage.Training
