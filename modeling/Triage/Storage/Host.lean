/-
What a program needs of the machine it runs on: files and a clock. The operations stand for any
machine; the one given here is a tree of files as a value, on which no time passes.
-/
import Triage.Storage.Tree

namespace Triage.Storage

/-- A change to files. -/
inductive Change where
  | write (p : Path) (bytes : List UInt8)
  /-- Makes a directory and those above it. -/
  | makeDirectories (p : Path)
  /-- Moves a file, over a file that is there. -/
  | move (source target : Path)
  /-- Removes a file. -/
  | remove (p : Path)
  /-- Removes a directory with all that is below it. -/
  | removeTree (p : Path)
  deriving DecidableEq

/-- The operations of a machine. -/
class Host (m : Type → Type) where
  read : Path → m (Except FileFault (List UInt8))
  change : Change → m (Except FileFault Unit)
  /-- Makes a directory of a new name with the given start in a directory. -/
  makeFresh : Path → String → m (Except FileFault Path)
  /-- The seconds since some moment. -/
  clock : m Float

/-! ## Trees as machines -/

namespace Tree

/-- Makes a change if it can be made. -/
def change (c : Change) (t : Tree) : Except FileFault Unit × Tree :=
  match c with
  | .write p bytes => t.settle (t.write p bytes)
  | .makeDirectories p => t.makeDirectories p.names
  | .move source target => t.settle (t.move source target)
  | .remove p => t.settle (t.remove p)
  | .removeTree p => t.settle (t.removeTree p)

/-- Makes a directory of a new name. -/
def makeFresh (dir : Path) (start : String) (t : Tree) : Except FileFault Path × Tree :=
  let p := dir.child (t.freshName start)
  match t.makeDirectory p.names with
  | .ok t => (.ok p, t)
  | .error f => (.error f, t)

instance : Host (StateM Tree) where
  read p := fun t => (t.read p, t)
  change := change
  makeFresh := makeFresh
  clock := pure 0

end Tree

/-! ## Several files -/

/-- Writes files one after the other until one cannot be written. -/
def writeAll {m : Type → Type} [Monad m] [Host m] :
    List (Path × List UInt8) → m (Except FileFault Unit)
  | [] => pure (.ok ())
  | (p, bytes) :: rest => do
    match ← Host.change (.write p bytes) with
    | .error fault => pure (.error fault)
    | .ok () => writeAll rest

/-! ## Texts -/

/-- The text of bytes. -/
def textOf (bytes : List UInt8) : Except FileFault String :=
  match String.fromUTF8? (ByteArray.mk bytes.toArray) with
  | some s => .ok s
  | none => .error .notText

/-- The text in a file that was found. -/
def textFound (found : Except FileFault (List UInt8)) : Except Error String :=
  (found.bind textOf).mapError .file

/-- The bytes of a text. -/
def bytesOf (text : String) : List UInt8 :=
  text.toUTF8.toList

end Triage.Storage
