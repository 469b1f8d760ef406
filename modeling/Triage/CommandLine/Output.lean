/-
Results and how they are shown: as JSON, whose members stand in a fixed order, or as lines for
people to read, where numbers have four places and members are sorted.
-/
import Triage.CommandLine.Arguments
import Triage.Json.Value
import Triage.Predictor
import Triage.Report

namespace Triage.CommandLine

open Storage (Path)
open Json (Value)

/-- What a command found out. -/
inductive Outcome where
  | training (reports : List Report) (failures : List (Task × Error))
  /-- Texts with their normal forms. -/
  | normalized (texts : List (String × String))
  | predictions (task : Task) (threshold : Option Float32) (rows : List (String × Prediction))
  | bundle (dir : Path) (info : BundleInfo)

/-! ## As JSON -/

def naturalValue (n : Nat) : Value :=
  .number (.natural n)

def doubleValue (x : Float) : Value :=
  .number (.double x)

def singleValue (x : Float32) : Value :=
  .number (.single x)

def textsValue (ss : List String) : Value :=
  .array (ss.map .text)

/-- The members of a report after the task. -/
def reportMembers (r : Report) : List (String × Value) :=
  [("samples", naturalValue r.samples),
   ("train_samples", naturalValue r.train),
   ("test_samples", naturalValue r.test),
   ("labels", textsValue r.labels),
   ("vocabulary_size", naturalValue r.vocabulary),
   ("test_accuracy", doubleValue r.accuracy),
   ("quantized_accuracy", (r.storedAccuracy.map doubleValue).getD .null),
   ("model_bytes", naturalValue r.modelBytes),
   ("duration_secs", doubleValue r.seconds),
   ("output_dir", .text r.output.text)]

def reportValue (r : Report) : Value :=
  .object (("task", .text r.task.name) :: reportMembers r)

def failureValue (task : Task) (e : Error) : Value :=
  .object [("task", .text task.name), ("error", .text e.message)]

def normalizedValue (text normal : String) : Value :=
  .object [("input", .text text), ("normalized", .text normal)]

/-- A prediction; the flag is left out where there is none. -/
def predictionValue (text : String) (p : Prediction) : Value :=
  .object
    ([("text", .text text),
      ("label", .text p.label),
      ("index", naturalValue p.index),
      ("confidence", singleValue p.confidence),
      ("probabilities", .array (p.probabilities.toList.map singleValue)),
      ("coverage", singleValue p.coverage),
      ("matched_ngrams", naturalValue p.matched)] ++
      (p.isAd.map fun b => [("is_ad", .bool b)]).getD [])

def infoValue (i : BundleInfo) : Value :=
  .object
    [("task", .text i.task.name),
     ("labels", textsValue i.labels),
     ("vocabulary_size", naturalValue i.vocabulary),
     ("max_features", naturalValue i.settings.maxFeatures),
     ("ngram_range", .array
       [naturalValue i.settings.ngrams.least, naturalValue i.settings.ngrams.most]),
     ("quantization", .text i.quantization.name),
     ("layers", .array (i.shapes.map fun (a, b) => .array [naturalValue a, naturalValue b])),
     ("model_bytes", naturalValue i.modelBytes)]

/-- A result as JSON. -/
def Outcome.toValue : Outcome → Value
  | .training reports failures => .object
    [("reports", .array (reports.map reportValue)),
     ("failures", .array (failures.map fun (task, e) => failureValue task e))]
  | .normalized texts => .array (texts.map fun (text, normal) => normalizedValue text normal)
  | .predictions task threshold rows => .object
    [("task", .text task.name),
     ("threshold", (threshold.map singleValue).getD .null),
     ("predictions", .array (rows.map fun (text, p) => predictionValue text p))]
  | .bundle _ info => infoValue info

/-! ## For people -/

/-- A number with four places, unless it is whole; one that is not finite has none. -/
def plainNumber : Json.Number → String
  | .single x => if x.isFinite then Decimal.fixed 4 (Number.widen x) else "-"
  | .double x => if x.isFinite then Decimal.fixed 4 x else "-"
  | n => n.text

mutual

/-- A value on one line. -/
def plain : Value → String
  | .null => "-"
  | .bool b => if b then "true" else "false"
  | .number n => plainNumber n
  | .text s => s
  | .array items => "[" ++ ", ".intercalate (plainItems items) ++ "]"
  | .object _ => "[object]"

def plainItems : List Value → List String
  | [] => []
  | v :: rest => plain v :: plainItems rest

end

/-- The lines of a member. -/
def memberLine (margin : String) (m : String × Value) : String :=
  margin ++ m.1 ++ ": " ++ plain m.2

/-- A report: its task underlined, and a line for each member. -/
def reportLines (r : Report) : List String :=
  ["Task: " ++ r.task.name, "══════════"] ++ (reportMembers r).map (memberLine "  ") ++ [""]

/-- The tasks that failed, if there are any. -/
def failureLines (failures : List (Task × Error)) : List String :=
  if failures.isEmpty then []
  else "Failed tasks:" :: failures.map fun (task, e) => "  " ++ task.name ++ ": " ++ e.message

/-- The lines of a prediction with its number. -/
def predictionLines (number : Nat) (text : String) (p : Prediction) : List String :=
  [s!"{number}. " ++ text,
   "   label: " ++ p.label ++ " (confidence " ++ plain (singleValue p.confidence) ++ ")" ++
     (p.isAd.map fun b => ", is_ad: " ++ plain (.bool b)).getD "",
   "   coverage: " ++ plain (singleValue p.coverage) ++ s!" ({p.matched} n-grams matched)"]

/-- The lines of an object, sorted. -/
def objectLines : Value → List String
  | .object members => (Json.sortMembers members).map (memberLine "")
  | v => [plain v]

/-- A result as lines. -/
def Outcome.lines : Outcome → List String
  | .training reports failures => reports.flatMap reportLines ++ failureLines failures
  | .normalized texts =>
    texts.flatMap fun (text, normal) => objectLines (normalizedValue text normal) ++ [""]
  | .predictions _ _ rows =>
    (rows.zipIdx 1).flatMap fun ((text, p), number) => predictionLines number text p
  | .bundle _ info => objectLines (infoValue info)

/-- What stands above the lines of a result. -/
def Outcome.title : Outcome → String
  | .training .. => "Training finished"
  | .normalized _ => "Normalized text"
  | .predictions .. => "Predictions"
  | .bundle dir _ => "Bundle in " ++ dir.text

/-- The text of a result. -/
def Outcome.text (d : Display) (o : Outcome) : String :=
  if d.json then Text.unlines [if d.pretty then o.toValue.pretty else o.toValue.compact]
  else Text.unlines ((if d.quiet then [] else [o.title, ""]) ++ o.lines)

end Triage.CommandLine
