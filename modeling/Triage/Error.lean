/-
Everything that can go wrong, by cause. A fault says what was found; its message is computed from
that and from nothing else.
-/
import Triage.Decimal.Layout
import Triage.Decimal.Literal
import Triage.Network.Activation
import Triage.Task
import Triage.Text.Quoted

namespace Triage

open Text (quoted quotedList)

/-! ## Files -/

/-- Why a file operation failed. -/
inductive FileFault where
  | notFound
  | alreadyExists
  | notADirectory
  | isADirectory
  | nameTooLong
  /-- The character of number zero stands in a name. -/
  | zeroInName
  | notText
  /-- Any other refusal, with its number and what it says. -/
  | other (number : Nat) (reason : String)
  deriving DecidableEq, Repr

def FileFault.message : FileFault → String
  | .notFound => "No such file or directory (os error 2)"
  | .alreadyExists => "File exists (os error 17)"
  | .notADirectory => "Not a directory (os error 20)"
  | .isADirectory => "Is a directory (os error 21)"
  | .nameTooLong => "File name too long (os error 36)"
  | .zeroInName => "file name contained an unexpected NUL byte"
  | .notText => "stream did not contain valid UTF-8"
  | .other number reason => reason ++ s!" (os error {number})"

/-! ## Settings and arguments -/

/-- Settings that cannot be used. -/
inductive ConfigFault where
  | ngramRange (least most : Nat)
  | maxFeatures
  | hiddenWidth
  | dropoutCount (rates layers : Nat)
  | dropoutRate
  | epochsOrBatch
  | learningRate
  | testFraction
  deriving DecidableEq, Repr

def ConfigFault.message (f : ConfigFault) : String :=
  "Invalid configuration: " ++ match f with
    | .ngramRange least most => s!"invalid ngram range [{least}, {most}]"
    | .maxFeatures => "max_features must be positive"
    | .hiddenWidth => "hidden layer widths must be positive"
    | .dropoutCount rates layers => s!"{rates} dropout rates given for {layers} hidden layers"
    | .dropoutRate => "dropout rates must be in [0, 1)"
    | .epochsOrBatch => "epochs and batch_size must be positive"
    | .learningRate => "learning_rate must be positive"
    | .testFraction => "test_fraction must be in (0, 1)"

/-- Arguments an operation does not accept. -/
inductive ArgumentFault where
  | emptyKey
  | duplicateKey (key : String)
  | testFraction (x : Float)
  | layerDimensions
  | noLayers
  | outputActivation
  | outputClasses
  | hiddenActivation
  /-- A number that does not fit the given count of bits. -/
  | tooLarge (n bits : Nat)
  deriving DecidableEq

def ArgumentFault.message (f : ArgumentFault) : String :=
  "Invalid argument: " ++ match f with
    | .emptyKey => "mapping keys must not be empty"
    | .duplicateKey key => "duplicate mapping key " ++ quoted key
    | .testFraction x => "test_fraction must be in (0, 1), got " ++ Decimal.inMessages.double x
    | .layerDimensions => "layer dimensions must be positive"
    | .noLayers => "a network needs at least one layer"
    | .outputActivation => "the output layer must use softmax"
    | .outputClasses => "the output layer needs at least two classes"
    | .hiddenActivation => "hidden layers must use ReLU"
    | .tooLarge n bits => s!"{n} does not fit in u{bits}"

/-! ## Documents -/

/-- Why a JSON document could not be read. Only the faults that name a field are told apart; of any
other, the message does not say where it was. -/
inductive JsonFault where
  | missingField (name : String)
  | duplicateField (name : String)
  | unknownVariant (name : String)
  | configuration (f : ConfigFault)
  | malformed
  deriving DecidableEq, Repr

def JsonFault.message : JsonFault → String
  | .missingField name => "missing field `" ++ name ++ "`"
  | .duplicateField name => "duplicate field `" ++ name ++ "`"
  | .unknownVariant name => "unknown variant `" ++ name ++ "`, expected `float32` or `int8`"
  | .configuration f => "Error: " ++ f.message
  | .malformed => "<json>"

/-- Why a record of a table could not be read. -/
inductive RecordFault where
  | unequalLengths (found expected : Nat)
  | duplicateField (name : String)
  /-- The record, or the file it stands in, is not text. -/
  | unreadable
  deriving DecidableEq, Repr

def RecordFault.message : RecordFault → String
  | .unequalLengths found expected =>
    s!"found record with {found} fields, but the previous record has {expected} fields"
  | .duplicateField name => "duplicate field `" ++ name ++ "`"
  | .unreadable => "<csv>"

/-! ## Data -/

/-- What is wrong with a set of labelled messages. -/
inductive DatasetFault where
  | cannotOpen (path : String) (f : FileFault)
  | missingColumn (name : String) (found : List String)
  | row (number : Nat) (f : RecordFault)
  | noRows
  | labelText (index : Nat) (label : String)
  | duplicateLabel (label : String)
  | unknownLabel (row : Nat) (label : String) (known : List String)
  | missingTopic (row : Nat)
  deriving DecidableEq, Repr

def DatasetFault.message (f : DatasetFault) : String :=
  "Dataset error: " ++ match f with
    | .cannotOpen path f => "cannot open " ++ path ++ ": " ++ f.message
    | .missingColumn name found =>
      "missing required column " ++ quoted name ++ " (found " ++ quotedList found ++ ")"
    | .row number f => s!"row {number}: " ++ f.message
    | .noRows => "dataset has no rows"
    | .labelText index label =>
      s!"label {index} (" ++ quoted label ++ ") must be a non-empty single line"
    | .duplicateLabel label => "duplicate label " ++ quoted label
    | .unknownLabel n label known =>
      s!"row {n}: unknown label " ++ quoted label ++ ", expected one of " ++ quotedList known
    | .missingTopic n => s!"row {n}: missing topic"

/-! ## Stored artifacts -/

/-- A number in lower-case hexadecimal with eight digits. -/
def hex32 (n : UInt32) : String :=
  let digits := Text.hexDigits n.toNat
  String.ofList (List.replicate (8 - digits.length) '0' ++ digits)

/-- Why bytes are no model. -/
inductive ModelFault where
  | tooShort (size : Nat)
  | checksum (stored computed : UInt32)
  | magic
  | version (found : Nat)
  | noLayers
  | activation (layer code : Nat)
  | shape (layer inputs outputs : Nat)
  | tooManyWeights (layer count remaining : Nat)
  | weightType (layer code : Nat)
  | truncated
  | notFinite
  | trailing (bytes : Nat)
  | chainActivation (layer : Nat) (expected found : Activation)
  | chainWidths (layer takes produces : Nat)
  | tooFewClasses
  deriving DecidableEq, Repr

def ModelFault.message : ModelFault → String
  | .tooShort size => s!"model of {size} bytes is too short"
  | .checksum stored computed =>
    "model checksum mismatch: stored " ++ hex32 stored ++ ", computed " ++ hex32 computed
  | .magic => "not a quantized model file"
  | .version found => s!"unsupported model format version {found}"
  | .noLayers => "model has no layers"
  | .activation layer code => s!"layer {layer}: unknown activation {code}"
  | .shape layer inputs outputs => s!"layer {layer}: invalid shape {inputs}x{outputs}"
  | .tooManyWeights layer count remaining =>
    s!"layer {layer}: {count} weights exceed the remaining {remaining} bytes"
  | .weightType layer code => s!"layer {layer}: unknown weight type {code}"
  | .truncated => "truncated model file: failed to fill whole buffer"
  | .notFinite => "non-finite value in model parameters"
  | .trailing bytes => s!"{bytes} trailing bytes after the last layer"
  | .chainActivation layer expected found =>
    s!"layer {layer}: expected " ++ expected.name ++ " activation, found " ++ found.name
  | .chainWidths layer takes produces =>
    s!"layer {layer + 1} takes {takes} inputs but layer {layer} produces {produces}"
  | .tooFewClasses => "output layer has fewer than 2 classes"

/-- Why stored parts do not make up what they should. -/
inductive ArtifactFault where
  | termCount (terms weights : Nat)
  | tooManyTerms (terms limit : Nat)
  | weightNotFinite (index : Nat)
  | emptyTerm (index : Nat)
  | duplicateTerm (term : String) (index : Nat)
  | config (path : String) (f : JsonFault)
  | weightText (path : String) (line : Nat) (value : String) (f : Decimal.LiteralFault)
  | declaredSize (declared terms weights : Nat)
  | labels (path : String) (f : DatasetFault)
  | model (f : ModelFault)
  | featureCount (model vocabulary : Nat)
  | outputCount (model labels : Nat)
  | adLabels (found : List String)
  | noLabel (index : Nat)
  deriving DecidableEq, Repr

def ArtifactFault.message (f : ArtifactFault) : String :=
  "Corrupt artifact: " ++ match f with
    | .termCount terms weights => s!"{terms} vocabulary entries but {weights} idf values"
    | .tooManyTerms terms limit => s!"vocabulary of {terms} exceeds max_features {limit}"
    | .weightNotFinite index => s!"idf value at index {index} is not finite"
    | .emptyTerm index => s!"empty vocabulary entry at index {index}"
    | .duplicateTerm term index =>
      "duplicate vocabulary entry " ++ quoted term ++ s!" at index {index}"
    | .config path f => path ++ ": " ++ f.message
    | .weightText path line value f =>
      path ++ s!" line {line}: " ++ quoted value ++ ": " ++ f.message
    | .declaredSize declared terms weights =>
      s!"config declares vocab_size {declared} but vocabulary has {terms} lines and idf has " ++
        s!"{weights} lines"
    | .labels path f => path ++ ": " ++ f.message
    | .model f => f.message
    | .featureCount inputs vocabulary =>
      s!"model expects {inputs} features but the vocabulary has {vocabulary}"
    | .outputCount outputs count =>
      s!"model has {outputs} outputs but the label file lists {count}"
    | .adLabels found => "ad label file must be [ad, normal], found " ++ quotedList found
    | .noLabel index => s!"no label for class {index}"

/-! ## Training -/

/-- What the data must have for an operation and has not. -/
inductive PreconditionFault where
  | emptyDataset
  | smallClass (label count : Nat)
  | cannotHold (samples train test classes : Nat)
  | emptyEvaluation
  | tooFewClasses (count : Nat)
  | noSamples
  | emptyFeatures
  | labelRange (label classes : Nat)
  | taskClasses (task : Task) (count : Nat)
  deriving DecidableEq, Repr

def PreconditionFault.message (f : PreconditionFault) : String :=
  "Precondition violated: " ++ match f with
    | .emptyDataset => "cannot split an empty dataset"
    | .smallClass label count =>
      s!"class {label} has {count} sample(s); a stratified split needs at least 2 per class"
    | .cannotHold samples train test classes =>
      s!"{samples} samples split into {train} train / {test} test cannot hold all " ++
        s!"{classes} classes"
    | .emptyEvaluation => "accuracy is undefined on an empty evaluation set"
    | .tooFewClasses count => s!"a classifier needs at least 2 classes, got {count}"
    | .noSamples => "no training samples"
    | .emptyFeatures => "feature vectors are empty"
    | .labelRange label classes => s!"label {label} out of range for {classes} classes"
    | .taskClasses task count =>
      task.name ++ s!": need at least 2 classes, found {count}"

/-- How training failed. -/
inductive TrainingFault where
  | nonFinite (epoch : Nat)
  | tasksFailed (failed total : Nat)
  deriving DecidableEq, Repr

def TrainingFault.message (f : TrainingFault) : String :=
  "Training error: " ++ match f with
    | .nonFinite epoch => s!"non-finite output in epoch {epoch}"
    | .tasksFailed failed total => s!"{failed} of {total} tasks failed"

/-! ## All errors -/

/-- An error, by the kind of its cause. -/
inductive Error where
  | file (f : FileFault)
  | csv (f : RecordFault)
  | json (f : JsonFault)
  | dataset (f : DatasetFault)
  | emptyCorpus
  | emptyVocabulary (documents : Nat)
  | corrupt (f : ArtifactFault)
  | dimension (expected actual : Nat)
  | precondition (f : PreconditionFault)
  | training (f : TrainingFault)
  | configuration (f : ConfigFault)
  | argument (f : ArgumentFault)
  /-- A pattern that is not well formed; where it is not, the message does not say. -/
  | pattern
  deriving DecidableEq

/-- The text shown for an error. -/
def Error.message : Error → String
  | .file f => "I/O error: " ++ f.message
  | .csv f => "CSV error: " ++ f.message
  | .json f => "JSON error: " ++ f.message
  | .dataset f => f.message
  | .emptyCorpus => "Empty corpus: cannot fit a vectorizer on zero documents"
  | .emptyVocabulary documents =>
    s!"Empty vocabulary: the corpus of {documents} documents produced no n-gram"
  | .corrupt f => f.message
  | .dimension expected actual => s!"Dimension mismatch: expected {expected}, got {actual}"
  | .precondition f => f.message
  | .training f => f.message
  | .configuration f => "Error: " ++ f.message
  | .argument f => "Error: " ++ f.message
  | .pattern => "<library>"

end Triage
