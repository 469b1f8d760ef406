/-
How commands are carried out.
-/
import Triage.CommandLine.Output

namespace Triage.CommandLine

open Storage (Host Path)

/-! ## Transcripts -/

/-- What is noted besides the results. -/
inductive Note where
  | warning (w : Warning)
  | failure (task : Task) (e : Error)
  deriving DecidableEq

def Note.text : Note → String
  | .warning w => "[WARN] " ++ w.message
  | .failure task e => "[ERROR] " ++ task.name ++ ": " ++ e.message

/-- What a command leaves: its result if it got that far, notes, and the error it ended with. -/
structure Transcript where
  outcome : Option Outcome
  notes : List Note
  error : Option Error

namespace Transcript

/-- The transcript of an error. -/
def ofError (e : Error) : Transcript :=
  ⟨none, [], some e⟩

/-- The transcript of a result. -/
def ofOutcome (o : Outcome) : Transcript :=
  ⟨some o, [], none⟩

/-- The exit status. -/
def exit (t : Transcript) : UInt32 :=
  if t.error.isSome then 1 else 0

/-- What is written to the standard output. -/
def output (d : Display) (t : Transcript) : String :=
  (t.outcome.map (·.text d)).getD ""

/-- Whether a note is shown; warnings are not if little is to be said. -/
def isShown (d : Display) : Note → Bool
  | .warning _ => !d.quiet
  | .failure .. => true

/-- The lines written to the standard error output. -/
def errorLines (d : Display) (t : Transcript) : List String :=
  (t.notes.filter (isShown d)).map Note.text ++ (t.error.map ("Error: " ++ ·.message)).toList

end Transcript

/-! ## Training -/

/-- Settings with what the command line says otherwise. -/
def overrideSettings (s : Settings) (seed : Option UInt64) (epochs : Option Nat) : Settings :=
  { s with training := { s.training with
      splitSeed := seed.getD s.training.splitSeed
      initSeed := seed.getD s.training.initSeed
      epochs := epochs.getD s.training.epochs } }

/-- Settings that have no fault. -/
def checkSettings (s : Settings) : Except Error Settings :=
  match s.fault? with
  | some f => .error (.configuration f)
  | none => .ok s

/-- The transcript of training runs: it ends with an error if one of them failed. -/
def ofRuns (runs : List (Task × Run)) : Transcript :=
  let reports := runs.filterMap fun (_, r) => r.result.toOption
  let failures := runs.filterMap fun (task, r) =>
    match r.result with
    | .ok _ => none
    | .error e => some (task, e)
  { outcome := some (.training reports failures)
    notes := runs.flatMap (fun (_, r) => r.warnings.map .warning) ++
      failures.map fun (task, e) => .failure task e
    error := if failures.isEmpty then none
      else some (.training (.tasksFailed failures.length runs.length)) }

section

variable {m : Type → Type} [Monad m] [Host m]

/-- Reads the settings in a file; without one, the standard settings are taken. -/
def loadSettings : Option Path → m (Except Error Settings)
  | none => pure (.ok .standard)
  | some p => Settings.load p

/-- Trains classifiers. The settings are read before the samples. -/
def runTraining (data output : Path) (tasks : List Task) (settings : Option Path)
    (seed : Option UInt64) (epochs : Option Nat) : m Transcript := do
  let settings ← loadSettings settings
  match settings.bind fun s => checkSettings (overrideSettings s seed epochs) with
  | .error e => pure (.ofError e)
  | .ok settings => do
    match ← Dataset.load data with
    | .error e => pure (.ofError e)
    | .ok samples => ofRuns <$> runTasks tasks settings samples output

/-! ## Commands -/

/-- The predictions for texts. -/
def predictionsOf (p : Predictor) (texts : List String) : Except Error Outcome :=
  (p.predictAll texts).map fun predictions =>
    .predictions p.task (if p.task = .ad then some p.threshold else none) (texts.zip predictions)

/-- A result or an error as a transcript. -/
def conclude : Except Error Outcome → Transcript
  | .ok o => .ofOutcome o
  | .error e => .ofError e

/-- Carries out a command. -/
def Command.execute : Command → m Transcript
  | .train data output tasks settings seed epochs =>
    runTraining data output tasks settings seed epochs
  | .normalize texts =>
    pure (.ofOutcome (.normalized (texts.map fun text => (text, Text.normalize text))))
  | .predict bundle task threshold texts => do
    let p ← Predictor.load bundle task
    pure (conclude (p.bind fun p =>
      predictionsOf (threshold.elim p p.withThreshold) texts))
  | .inspect bundle task => do
    let p ← Predictor.load bundle task
    pure (conclude (p.map fun p => .bundle bundle p.info))

end

end Triage.CommandLine
