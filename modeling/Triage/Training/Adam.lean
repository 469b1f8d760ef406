/-
Adam: every parameter has a running mean of its gradient and one of the square of its gradient, and
moves by their quotient. Both means start at zero, which is corrected for. The correction depends on
the number of the step. That is a natural number, which is what a counter of 32 bits with a sign holds
as long as there are fewer than `2 ^ 31` steps; past them such a counter would begin again below zero.
-/
import Triage.Training.Gradient

namespace Triage.Training

/-- The share of the old mean that is kept. -/
def meanDecay : Float32 := 0.9

/-- The share of the old mean of squares that is kept. -/
def squareDecay : Float32 := 0.999

/-- Keeps the quotient finite where the mean of squares vanishes. -/
def smallest : Float32 := 0.0000001

/-- A power by repeated squaring, `result` holding the factors taken so far; `fuel` bounds the
binary digits of the exponent. -/
def powerFrom (result base : Float32) (exponent : Nat) : Nat → Float32
  | 0 => result
  | fuel + 1 =>
    let result := if exponent % 2 = 1 then result * base else result
    if exponent / 2 = 0 then result
    else powerFrom result (base * base) (exponent / 2) fuel

/-- A power with a natural exponent. -/
def power (base : Float32) (exponent : Nat) : Float32 :=
  powerFrom 1 base exponent (exponent.log2 + 1)

/-- Parameters with their two means. -/
structure Moving where
  values : Singles
  means : Singles
  squares : Singles

/-- Parameters that have not moved yet. -/
def Moving.start (values : Singles) : Moving :=
  ⟨values, Array.replicate values.size 0, Array.replicate values.size 0⟩

/-- The new mean of a gradient. -/
def nextMean (m g : Float32) : Float32 :=
  meanDecay * m + (1 - meanDecay) * g

/-- The new mean of a gradient's square. -/
def nextSquare (v g : Float32) : Float32 :=
  squareDecay * v + (1 - squareDecay) * g * g

/-- Moves parameters at step number `step`, counted from one. -/
def Moving.move (p : Moving) (rate : Float32) (step : Nat) (gradient : Singles) : Moving :=
  let meanPart := 1 - power meanDecay step
  let squarePart := 1 - power squareDecay step
  let means := p.means.zipWith nextMean gradient
  let squares := p.squares.zipWith nextSquare gradient
  let steps := means.zipWith
    (fun m v => rate * (m / meanPart) / ((v / squarePart).sqrt + smallest)) squares
  ⟨p.values.zipWith (· - ·) steps, means, squares⟩

/-- A layer under training. -/
structure MovingLayer where
  shape : Layer
  weights : Moving
  bias : Moving

/-- A layer before its first step. -/
def MovingLayer.start (l : Layer) : MovingLayer :=
  ⟨l, .start l.weights, .start l.bias⟩

/-- The layer as it stands. -/
def MovingLayer.current (l : MovingLayer) : Layer :=
  { l.shape with weights := l.weights.values, bias := l.bias.values }

/-- Moves a layer. -/
def MovingLayer.move (rate : Float32) (step : Nat) (l : MovingLayer) (g : Gradient) :
    MovingLayer :=
  ⟨l.shape, l.weights.move rate step g.weights, l.bias.move rate step g.bias⟩

end Triage.Training
