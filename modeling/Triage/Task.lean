/-
The two questions asked of a message: whether it is an advertisement, and what it is about.
-/

namespace Triage

/-- A classification task. -/
inductive Task where
  | ad
  | topic
  deriving DecidableEq, Repr

namespace Task

/-- The name of a task, which its files begin with. -/
def name : Task → String
  | .ad => "ad"
  | .topic => "topic"

/-- Both tasks, in the order they are trained. -/
def all : List Task := [.ad, .topic]

end Task

end Triage
