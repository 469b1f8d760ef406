/-
Bundles: what one task needs to classify messages, kept as five files whose names begin with the
name of the task. A bundle is written into a directory of its own first and its files are then moved
to where they belong, one after the other; if one cannot be moved, those already in place are
removed again.
-/
import Triage.Labels
import Triage.Vectorizer.Stored

namespace Triage

open Storage (Host Path)

/-! ## Files -/

/-- The files of a bundle. -/
inductive BundleFile where
  | vectorizer (f : VectorizerFile)
  | model
  | labels
  deriving DecidableEq, Repr

namespace BundleFile

/-- The name of a file. -/
def name (task : Task) : BundleFile → String
  | .vectorizer f => f.name task.name
  | .model => task.name ++ "_model.bin"
  | .labels => task.name ++ "_labels.txt"

/-- The path of a file. -/
def path (dir : Path) (task : Task) (f : BundleFile) : Path :=
  dir.child (f.name task)

/-- All files, in the order they are put in place. -/
def all : List BundleFile :=
  VectorizerFile.all.map .vectorizer ++ [.model, .labels]

end BundleFile

/-- A vectorizer, a model in its binary form, and the names of the classes. -/
structure Bundle where
  vectorizer : Vectorizer
  model : List UInt8
  labels : Labels

namespace Bundle

/-- The content of each file. -/
def content (b : Bundle) : BundleFile → List UInt8
  | .vectorizer f => Storage.bytesOf (b.vectorizer.fileText f)
  | .model => b.model
  | .labels => Storage.bytesOf b.labels.toText

/-! ## Writing -/

/-- A file that could not be removed again. -/
structure Leftover where
  path : Path
  fault : FileFault
  deriving DecidableEq

/-- How the writing of a bundle ended, and what it could not clear away. -/
structure Placement where
  result : Except FileFault Unit
  leftovers : List Leftover

section

variable {m : Type → Type} [Monad m] [Host m]

/-- Writes all files into a directory. -/
def stage (b : Bundle) (staging : Path) (task : Task) : m (Except FileFault Unit) :=
  Storage.writeAll (BundleFile.all.map fun f => (f.path staging task, b.content f))

/-- Removes files; those that cannot be removed are reported. -/
def takeBack : List Path → m (List Leftover)
  | [] => pure []
  | p :: rest => do
    let result ← Host.change (.remove p)
    let leftovers ← takeBack rest
    match result with
    | .ok () => pure leftovers
    | .error fault => pure (⟨p, fault⟩ :: leftovers)

/-- Moves files to where they belong, behind those already `placed`. -/
def place (staging dir : Path) (task : Task) (placed : List Path) :
    List BundleFile → m Placement
  | [] => pure ⟨.ok (), []⟩
  | f :: rest => do
    match ← Host.change (.move (f.path staging task) (f.path dir task)) with
    | .ok () => place staging dir task (placed ++ [f.path dir task]) rest
    | .error fault => do
      let leftovers ← takeBack placed
      pure ⟨.error fault, leftovers⟩

/-- Writes a bundle into a directory, which is made if it is not there. -/
def publish (b : Bundle) (dir : Path) (task : Task) : m Placement := do
  match ← Host.change (.makeDirectories dir) with
  | .error fault => pure ⟨.error fault, []⟩
  | .ok () =>
    match ← Host.makeFresh dir ("." ++ task.name ++ "-staging-") with
    | .error fault => pure ⟨.error fault, []⟩
    | .ok staging => do
      let result ← do
        match ← stage b staging task with
        | .error fault => pure ⟨.error fault, []⟩
        | .ok () => place staging dir task [] BundleFile.all
      let _ ← Host.change (.removeTree staging)
      pure result

end

/-! ## Reading -/

/-- What was found at each file: its content, or why it could not be read. -/
abbrev Found := BundleFile → Except FileFault (List UInt8)

/-- Reads the files of a bundle. -/
def find {m : Type → Type} [Monad m] [Host m] (dir : Path) (task : Task) : m Found := do
  let parts ← Vectorizer.find dir task.name
  let model ← Host.read (BundleFile.model.path dir task)
  let labels ← Host.read (BundleFile.labels.path dir task)
  pure fun
    | .vectorizer f => parts f
    | .model => model
    | .labels => labels

end Bundle

end Triage
