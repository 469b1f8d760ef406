/-
Activations of a layer.
-/

namespace Triage

/-- What is applied to the sums of a layer. -/
inductive Activation where
  | relu
  | softmax
  deriving DecidableEq, Repr

/-- The name of an activation in messages. -/
def Activation.name : Activation → String
  | .relu => "Relu"
  | .softmax => "Softmax"

end Triage
