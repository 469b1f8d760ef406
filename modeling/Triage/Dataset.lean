/-
Labelled messages, read from a table with a header. The columns `text` and `label` must be there and
`topic` may be; they stand in any order among others, which are not looked at.
-/
import Triage.Storage.Host
import Triage.Table

namespace Triage

/-- A labelled message. -/
structure Sample where
  text : Option String
  label : String
  topic : Option String
  deriving DecidableEq, Repr

/-- The label of a sample for a task; an empty topic is none. -/
def Task.labelOf (t : Task) (s : Sample) : Option String :=
  match t with
  | .ad => some s.label
  | .topic => s.topic.filter (· ≠ "")

/-! ## Summary -/

/-- How many samples there are, with which labels. -/
structure Summary where
  total : Nat
  ad : Nat
  normal : Nat
  withTopic : Nat
  deriving DecidableEq, Repr

/-- The summary of samples. -/
def Summary.of (samples : List Sample) : Summary where
  total := samples.length
  ad := samples.countP (·.label = "ad")
  normal := samples.countP (·.label = "normal")
  withTopic := samples.countP fun s => (Task.topic.labelOf s).isSome

/-! ## Reading -/

namespace Dataset

/-- The names of the columns that are looked at. -/
def columns : List String :=
  ["text", "label", "topic"]

/-- The first of the columns looked at that a header has a second time. -/
def repeated? (seen : List String) : List String → Option String
  | [] => none
  | name :: rest =>
    if columns.contains name then
      if seen.contains name then some name else repeated? (name :: seen) rest
    else repeated? seen rest

/-- The cell of a record under a column name. -/
def cell? (header fields : List String) (name : String) : Option String :=
  (header.zip fields).lookup name

/-- A text that is not empty. -/
def nonEmpty? (s : String) : Option String :=
  if s = "" then none else some s

/-- The sample of a record. Labels and topics lose the blanks around them, texts do not. -/
def sampleOf (header fields : List String) : Sample where
  text := (cell? header fields "text").bind nonEmpty?
  label := Text.trim ((cell? header fields "label").getD "")
  topic := ((cell? header fields "topic").map Text.trim).bind nonEmpty?

/-- The sample of a record under a header with trimmed names. -/
def readRecord (header : List String) (r : Record) : Except RecordFault Sample :=
  if r.length ≠ header.length then .error (.unequalLengths r.length header.length)
  else
    match Table.textFields? r with
    | none => .error .unreadable
    | some fields =>
      match repeated? [] header with
      | some name => .error (.duplicateField name)
      | none => .ok (sampleOf header fields)

/-- The samples of records, `row` being the number of the first. -/
def readRecords (header : List String) (row : Nat) : List Record → Except Error (List Sample)
  | [] => .ok []
  | r :: rest =>
    match readRecord header r with
    | .error f => .error (.dataset (.row row f))
    | .ok s => (readRecords header (row + 1) rest).map (s :: ·)

/-- The first column a header must have and has not. -/
def missing? (header : List String) : Option String :=
  ["text", "label"].find? fun name => !(header.map Text.trim).contains name

/-- The samples of a table under its header. There must be one at least. -/
def readUnder (header : List String) (rows : List Record) : Except Error (List Sample) :=
  match missing? header with
  | some name => .error (.dataset (.missingColumn name header))
  | none =>
    match readRecords (header.map Text.trim) 1 rows with
    | .error e => .error e
    | .ok [] => .error (.dataset .noRows)
    | .ok samples => .ok samples

/-- The samples in bytes. -/
def read (bytes : List UInt8) : Except Error (List Sample) :=
  let (header, rows) := match Table.records bytes with
    | [] => ([], [])
    | header :: rows => (header, rows)
  match Table.textFields? header with
  | none => .error (.csv .unreadable)
  | some header => readUnder header rows

/-- The samples in a file that was found. A directory can be opened but holds no table. -/
def ofFound (path : Storage.Path) (found : Except FileFault (List UInt8)) :
    Except Error (List Sample) :=
  match found with
  | .ok bytes => read bytes
  | .error .isADirectory => .error (.csv .unreadable)
  | .error f => .error (.dataset (.cannotOpen path.text f))

/-- Reads the samples in a file. -/
def load {m : Type → Type} [Monad m] [Storage.Host m] (path : Storage.Path) :
    m (Except Error (List Sample)) := do
  let found ← Storage.Host.read path
  pure (ofFound path found)

end Dataset

end Triage
