/-
Settings of the whole pipeline, and how they are read from JSON: a field that is left out keeps its
standard value, and one that is not known is passed over.
-/
import Triage.Json.Reader
import Triage.Model.Basic
import Triage.Storage.Host
import Triage.Training.Settings
import Triage.Vectorizer.Basic

namespace Triage

/-- How a trained model is exported, and whether the export is decoded again and tested. -/
structure ExportSettings where
  quantization : Quantization
  verify : Bool
  deriving DecidableEq

/-- The settings used where nothing else is said. -/
def ExportSettings.standard : ExportSettings :=
  ⟨.int8, true⟩

/-- Settings of the whole pipeline. -/
structure Settings where
  vectorizer : VectorizerSettings
  training : TrainingSettings
  exporting : ExportSettings
  deriving DecidableEq

namespace Settings

/-- The settings used where nothing else is said. -/
def standard : Settings :=
  ⟨.standard, .standard, .standard⟩

/-- The first fault of settings. -/
def fault? (s : Settings) : Option ConfigFault :=
  s.vectorizer.fault?.or s.training.fault?

/-! ## Fields -/

open Json

/-- A number of 64 bits. -/
def readWord : Reader UInt64 := fun ts =>
  (readNatural ts).map fun (n, rest) => (UInt64.ofNat n, rest)

/-- A range of n-gram lengths: an array of its two ends. -/
def readRange : Reader Text.NGramRange
  | .openArray :: .number (some (.natural least)) :: .comma ::
      .number (some (.natural most)) :: .closeArray :: rest =>
    match Text.NGramRange.of least most with
    | .ok r => .ok (r, rest)
    | .error f => .error (.configuration f)
  | _ => .error .malformed

def vectorizerFields : List (FieldReader VectorizerSettings) :=
  [.of "max_features" readNatural fun n s => { s with maxFeatures := n },
   .of "ngram_range" readRange fun r s => { s with ngrams := r }]

def trainingFields : List (FieldReader TrainingSettings) :=
  [.of "hidden_layers" (readList readNatural) fun ws s => { s with hidden := ws },
   .of "dropout" (readList readSingle) fun ps s => { s with dropout := ps },
   .of "epochs" readNatural fun n s => { s with epochs := n },
   .of "batch_size" readNatural fun n s => { s with batchSize := n },
   .of "learning_rate" readSingle fun x s => { s with learningRate := x },
   .of "test_fraction" readDouble fun x s => { s with testFraction := x },
   .of "split_seed" readWord fun n s => { s with splitSeed := n },
   .of "init_seed" readWord fun n s => { s with initSeed := n }]

def exportFields : List (FieldReader ExportSettings) :=
  [.of "quantization" (readNamed Quantization.named?) fun q s => { s with quantization := q },
   .of "verify_quantized" readBool fun b s => { s with verify := b }]

def fields : List (FieldReader Settings) :=
  [.of "vectorizer" (readDefaulted vectorizerFields .standard) fun v s =>
     { s with vectorizer := v },
   .of "trainer" (readDefaulted trainingFields .standard) fun t s => { s with training := t },
   .of "export" (readDefaulted exportFields .standard) fun e s => { s with exporting := e }]

/-- Settings from the tokens of a document. -/
def ofTokens (ts : List Token) : Except JsonFault Settings :=
  readAll (readDefaulted fields standard) ts

/-- Settings from a JSON value. -/
def ofValue (v : Value) : Except JsonFault Settings :=
  ofTokens v.toTokens

/-- Settings from a JSON text, checked. -/
def ofText (text : String) : Except Error Settings :=
  match ofTokens (tokens text) with
  | .error f => .error (.json f)
  | .ok s =>
    match s.fault? with
    | some f => .error (.configuration f)
    | none => .ok s

/-- Reads the settings in a file. -/
def load {m : Type → Type} [Monad m] [Storage.Host m] (path : Storage.Path) :
    m (Except Error Settings) := do
  let found ← Storage.Host.read path
  pure ((Storage.textFound found).bind ofText)

end Settings

end Triage
