/-
Stored vectorizers. A vectorizer is kept in three files: its terms, one to a line; their weights,
one to a line in the same order; and a record of its settings with the number of terms. What is read
back must have as many lines as the record says.
-/
import Triage.Json.Reader
import Triage.Settings
import Triage.Text.CharClass
import Triage.Text.Lines

namespace Triage

/-! ## Files -/

/-- The files of a vectorizer. -/
inductive VectorizerFile where
  | vocabulary
  | weights
  | config
  deriving DecidableEq, Repr

/-- The name of a file; the names of the files of one vectorizer start alike. -/
def VectorizerFile.name (start : String) : VectorizerFile → String
  | .vocabulary => start ++ "_vocabulary.txt"
  | .weights => start ++ "_idf.txt"
  | .config => start ++ "_config.json"

/-- All files, in the order they are written. -/
def VectorizerFile.all : List VectorizerFile :=
  [.vocabulary, .weights, .config]

/-- The path of a file. -/
def VectorizerFile.path (dir : Storage.Path) (start : String) (f : VectorizerFile) :
    Storage.Path :=
  dir.child (f.name start)

/-! ## The record of settings -/

/-- The record of a vectorizer's settings. -/
structure VectorizerRecord where
  settings : VectorizerSettings
  size : Nat
  deriving DecidableEq

namespace VectorizerRecord

/-- The record of a vectorizer. -/
def of (v : Vectorizer) : VectorizerRecord :=
  ⟨v.settings, v.size⟩

/-- A record as JSON. -/
def toValue (r : VectorizerRecord) : Json.Value :=
  .object
    [("max_features", .number (.natural r.settings.maxFeatures)),
     ("ngram_range", .array
       [.number (.natural r.settings.ngrams.least), .number (.natural r.settings.ngrams.most)]),
     ("vocab_size", .number (.natural r.size))]

/-- The fields of a record, all of which must be given. -/
def fields : List (Json.FieldReader VectorizerRecord) :=
  [.of "max_features" Json.readNatural fun n r =>
     { r with settings := { r.settings with maxFeatures := n } },
   .of "ngram_range" Settings.readRange fun range r =>
     { r with settings := { r.settings with ngrams := range } },
   .of "vocab_size" Json.readNatural fun n r => { r with size := n }]

/-- The record in a text. -/
def ofText (text : String) : Except JsonFault VectorizerRecord :=
  Json.readAll (Json.readComplete fields ⟨.standard, 0⟩) (Json.tokens text)

end VectorizerRecord

namespace Vectorizer

/-! ## Writing -/

/-- Stored weights: the digits that read back, with a point alone from a ten-thousandth to below ten
to the sixteenth. -/
def weightLayout : Decimal.Layout := ⟨some (-4), some 15, true, .up⟩

/-- The content of each file as text. -/
def fileText (v : Vectorizer) : VectorizerFile → String
  | .vocabulary => Text.unlines v.terms.toList
  | .weights => Text.unlines (v.weights.toList.map weightLayout.double)
  | .config => (VectorizerRecord.of v).toValue.pretty

/-- Writes the files of a vectorizer. -/
def save {m : Type → Type} [Monad m] [Storage.Host m] (v : Vectorizer) (dir : Storage.Path)
    (start : String) : m (Except Error VectorizerRecord) := do
  let result ← Storage.writeAll
    (VectorizerFile.all.map fun f => (f.path dir start, Storage.bytesOf (v.fileText f)))
  pure ((result.map fun () => VectorizerRecord.of v).mapError .file)

/-! ## Reading -/

/-- What was found at each file: its content, or why it could not be read. -/
abbrev Found := VectorizerFile → Except FileFault (List UInt8)

/-- The weights on lines, `line` being the number of the first. -/
def weightsFrom (path : Storage.Path) (line : Nat) : List String → Except Error (List Float)
  | [] => .ok []
  | s :: rest =>
    match Decimal.readDouble (Text.trim s) with
    | .error f => .error (.corrupt (.weightText path.text line s f))
    | .ok w => (weightsFrom path (line + 1) rest).map (w :: ·)

/-- The vectorizer of a record, the lines of its terms, and its weights. -/
def ofLines (r : VectorizerRecord) (terms : List String) (weights : List Float) :
    Except ArtifactFault Vectorizer :=
  if terms.length ≠ r.size ∨ weights.length ≠ r.size then
    .error (.declaredSize r.size terms.length weights.length)
  else ofParts r.settings terms.toArray weights.toArray

/-- The vectorizer in the files found. The record is looked at first, then the terms, then the
weights. -/
def ofFound (dir : Storage.Path) (start : String) (found : Found) : Except Error Vectorizer := do
  let config ← Storage.textFound (found .config)
  let record ← (VectorizerRecord.ofText config).mapError fun f =>
    .corrupt (.config (VectorizerFile.config.path dir start).text f)
  let terms ← Storage.textFound (found .vocabulary)
  let weights ← Storage.textFound (found .weights)
  let weights ← weightsFrom (VectorizerFile.weights.path dir start) 1 (Text.lines weights)
  (ofLines record (Text.lines terms) weights).mapError .corrupt

/-- Reads the files of a vectorizer. -/
def find {m : Type → Type} [Monad m] [Storage.Host m] (dir : Storage.Path) (start : String) :
    m Found := do
  let vocabulary ← Storage.Host.read (VectorizerFile.vocabulary.path dir start)
  let weights ← Storage.Host.read (VectorizerFile.weights.path dir start)
  let config ← Storage.Host.read (VectorizerFile.config.path dir start)
  pure fun
    | .vocabulary => vocabulary
    | .weights => weights
    | .config => config

/-- The vectorizer stored in a directory. -/
def load {m : Type → Type} [Monad m] [Storage.Host m] (dir : Storage.Path) (start : String) :
    m (Except Error Vectorizer) := do
  let found ← find dir start
  pure (ofFound dir start found)

end Vectorizer

end Triage
