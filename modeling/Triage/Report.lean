/-
Training runs: a classifier is trained and its bundle is published, and a report tells how it went.
Nothing is written before everything has succeeded. The runs of several tasks share nothing but the
samples and the directory, and one that fails does not stop the others.
-/
import Triage.Trained

namespace Triage

open Storage (Host Path)

/-- The report of a run. -/
structure Report where
  task : Task
  samples : Nat
  train : Nat
  test : Nat
  labels : List String
  vocabulary : Nat
  accuracy : Float
  storedAccuracy : Option Float
  modelBytes : Nat
  seconds : Float
  output : Path
  deriving DecidableEq

/-- The report of a trained classifier whose bundle is in a directory. -/
def Trained.report (t : Trained) (seconds : Float) (output : Path) : Report where
  task := t.task
  samples := t.samples
  train := t.train
  test := t.test
  labels := t.bundle.labels.names
  vocabulary := t.bundle.vectorizer.size
  accuracy := t.accuracy
  storedAccuracy := t.storedAccuracy
  modelBytes := t.bundle.model.length
  seconds := seconds
  output := output

/-! ## Warnings -/

/-- What is noticed in a run but does not stop it. -/
inductive Warning where
  | worseStored (task : Task) (stored accuracy : Float)
  | leftover (task : Task) (l : Bundle.Leftover)
  deriving DecidableEq

def Warning.message : Warning → String
  | .worseStored task stored accuracy =>
    task.name ++ ": exported model accuracy " ++ Decimal.fixed 4 stored ++
      " is well below float accuracy " ++ Decimal.fixed 4 accuracy
  | .leftover task l =>
    task.name ++ ": could not remove " ++ l.path.text ++ ": " ++ l.fault.message

/-- The warnings about a trained classifier: storing it may cost a twentieth of accuracy. -/
def Trained.warnings (t : Trained) : List Warning :=
  match t.storedAccuracy with
  | some stored =>
    if stored + 0.05 < t.accuracy then [.worseStored t.task stored t.accuracy] else []
  | none => []

/-! ## Runs -/

/-- How a run ended. -/
structure Run where
  result : Except Error Report
  warnings : List Warning

section

variable {m : Type → Type} [Monad m] [Host m]

/-- Trains a classifier and publishes its bundle in a directory. -/
def run (task : Task) (settings : Settings) (samples : List Sample) (dir : Path) : m Run := do
  let start ← Host.clock
  match Trained.of task settings samples with
  | .error e => pure ⟨.error e, []⟩
  | .ok trained => do
    let placement ← trained.bundle.publish dir task
    let stop ← Host.clock
    pure
      { result := (placement.result.map fun () => trained.report (stop - start) dir).mapError .file
        warnings := trained.warnings ++ placement.leftovers.map (.leftover task) }

/-- Runs tasks one after the other. -/
def runTasks (tasks : List Task) (settings : Settings) (samples : List Sample) (dir : Path) :
    m (List (Task × Run)) :=
  match tasks with
  | [] => pure []
  | task :: rest => do
    let r ← run task settings samples dir
    let rs ← runTasks rest settings samples dir
    pure ((task, r) :: rs)

end

end Triage
