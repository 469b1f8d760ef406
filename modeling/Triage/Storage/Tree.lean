/-
A tree of files as a value: what is at each place, and the operations that read and change it. An
operation either takes effect as a whole or names the fault that stopped it and changes nothing;
only the making of directories one below the other may stop half way. The working directory and the
root are always there. Nothing else outside the working directory is in a tree, so it is not below the
root here and has nothing above it: where a working directory of a file system has a directory above
it, `..` leads back to it itself.
-/
import Std.Data.TreeMap
import Std.Data.TreeSet
import Triage.Error
import Triage.Storage.Path

namespace Triage.Storage

/-- A place: the names that lead to it, none of which is `.` or `..`. That of the working directory
is empty. -/
abbrev Place := List String

/-- The place of the root. -/
def root : Place := ["/"]

/-- The place above another. The root is above itself, as it is in a file system, and the working
directory is so here, where it would have another directory above it. -/
def above (p : Place) : Place :=
  if p = root then p else p.dropLast

/-- One name further from a place; a name has at most 255 bytes. -/
def step (p : Place) (name : String) : Except FileFault Place :=
  if name = "." then .ok p
  else if name = ".." then .ok (above p)
  else if 255 < name.utf8ByteSize then .error .nameTooLong
  else .ok (p ++ [name])

/-- What can be at a place. -/
inductive Entry where
  | directory
  | file (bytes : List UInt8)
  deriving DecidableEq, Repr

/-- What is at each place below the working directory. -/
structure Tree where
  entries : Std.TreeMap Place Entry

namespace Tree

/-- The tree with nothing in it. -/
def empty : Tree :=
  ⟨∅⟩

/-- What is at a place. -/
def entry? (t : Tree) (p : Place) : Option Entry :=
  if p = [] ∨ p = root then some .directory else t.entries[p]?

/-! ## Finding the way -/

/-- The place that names lead to from another place, each of them that of a directory. -/
def descend (t : Tree) (p : Place) : List String → Except FileFault Place
  | [] => .ok p
  | name :: rest => do
    let q ← step p name
    match t.entry? q with
    | none => .error .notFound
    | some (.file _) => .error .notADirectory
    | some .directory => t.descend q rest

/-- The place that names lead to, all but the last of them through directories; there may be
nothing at it. -/
def locate (t : Tree) (names : List String) : Except FileFault Place :=
  if names.any (·.toList.contains '\x00') then .error .zeroInName
  else match names.getLast? with
    | none => .error .notFound
    | some last => do step (← t.descend [] names.dropLast) last

/-- Whether names lead to a directory. -/
def isDirectory (t : Tree) (names : List String) : Bool :=
  match t.locate names with
  | .ok p => t.entry? p = some .directory
  | .error _ => false

/-- The place of a file and its content. -/
def fileAt (t : Tree) (p : Path) : Except FileFault (Place × List UInt8) := do
  let place ← t.locate p.names
  match t.entry? place with
  | none => .error .notFound
  | some .directory => .error .isADirectory
  | some (.file bytes) => if p.closed then .error .notADirectory else .ok (place, bytes)

/-! ## Reading -/

/-- The content of a file. -/
def read (t : Tree) (p : Path) : Except FileFault (List UInt8) :=
  (t.fileAt p).map (·.2)

/-- Everything below a place, as text in ascending order; directories end in a stroke. -/
def paths (t : Tree) (below : Place) : List String :=
  let names := t.entries.toList.filterMap fun (p, e) =>
    if below <+: p ∧ p ≠ below then
      let name := "/".intercalate (p.drop below.length)
      some (match e with
        | .directory => name ++ "/"
        | .file _ => name)
    else none
  (names.foldl Std.TreeSet.insert (∅ : Std.TreeSet String)).toList

/-! ## Changing -/

/-- Puts a file where there is none, or in place of one. -/
def write (t : Tree) (p : Path) (bytes : List UInt8) : Except FileFault Tree := do
  let place ← t.locate p.names
  if p.closed ∨ t.entry? place = some .directory then .error .isADirectory
  else .ok ⟨t.entries.insert place (.file bytes)⟩

/-- Makes a directory where there is nothing. -/
def makeDirectory (t : Tree) (names : List String) : Except FileFault Tree := do
  let place ← t.locate names
  match t.entry? place with
  | some _ => .error .alreadyExists
  | none => .ok ⟨t.entries.insert place .directory⟩

/-- Removes a file. -/
def remove (t : Tree) (p : Path) : Except FileFault Tree := do
  let (place, _) ← t.fileAt p
  .ok ⟨t.entries.erase place⟩

/-- Moves a file to another place, over a file that is there. -/
def move (t : Tree) (source target : Path) : Except FileFault Tree := do
  let (place, bytes) ← t.fileAt source
  let goal ← t.locate target.names
  if target.closed then .error .notADirectory
  else if t.entry? goal = some .directory then .error .isADirectory
  else .ok ⟨(t.entries.erase place).insert goal (.file bytes)⟩

/-- Removes a directory with all that is below it. -/
def removeTree (t : Tree) (p : Path) : Except FileFault Tree := do
  let place ← t.locate p.names
  match t.entry? place with
  | none => .error .notFound
  | some (.file _) => .error .notADirectory
  | some .directory => .ok ⟨t.entries.filter fun q _ => !place.isPrefixOf q⟩

/-! ## Directories one below the other -/

/-- How an operation ended, with the tree it leaves: the one before it if it failed. -/
def settle (t : Tree) : Except FileFault Tree → Except FileFault Unit × Tree
  | .ok changed => (.ok (), changed)
  | .error f => (.error f, t)

/-- Makes a directory if it is not there. -/
def provideDirectory (t : Tree) (names : List String) : Except FileFault Unit × Tree :=
  if t.isDirectory names then (.ok (), t) else t.settle (t.makeDirectory names)

/-- Makes a directory and those above it, as far as they are not there. Those made are kept if it
fails further down. -/
def makeDirectories (t : Tree) (names : List String) : Except FileFault Unit × Tree :=
  if names = [] then (.ok (), t)
  else match t.provideDirectory names with
    | (.error .notFound, t) =>
      match t.makeDirectories (enclosing names) with
      | (.ok (), t) => t.provideDirectory names
      | failed => failed
    | ended => ended
termination_by names.length
decreasing_by exact length_enclosing_lt ‹_›

/-! ## New names -/

/-- The length of the longest name in use that begins with a text. -/
def longestName (t : Tree) (start : String) : Nat :=
  t.entries.keys.foldl (fun n p => p.foldl (fun n name =>
    if start.toList.isPrefixOf name.toList then max n name.length else n) n) 0

/-- A name with the given start that is not in use: it is longer than every such name that is. -/
def freshName (t : Tree) (start : String) : String :=
  start ++ String.ofList (List.replicate (t.longestName start + 1) '0')

end Tree

end Triage.Storage
