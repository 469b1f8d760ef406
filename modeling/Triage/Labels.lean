/-
Label tables: the names of the classes, in the order of the classifier's outputs. A label is a
single line that is not empty, so a table can be stored with one label to a line.
-/
import Triage.Storage.Host
import Triage.Text.Lines

namespace Triage

/-- Whether a text can be a label. -/
def isLabel (s : String) : Bool :=
  s != "" && !s.toList.contains '\n' && !s.toList.contains '\r'

/-- Distinct labels; the class of a label is its place. -/
structure Labels where
  names : List String
  isLabel_of_mem : ∀ s ∈ names, isLabel s = true
  nodup : names.Nodup
  deriving DecidableEq

namespace Labels

/-- The table of the ad task. -/
def ad : Labels where
  names := ["ad", "normal"]
  isLabel_of_mem := by decide
  nodup := by decide

/-- The first fault of a list of names behind those `seen`. -/
def faultAfter (seen : List String) : List String → Option DatasetFault
  | [] => none
  | s :: rest =>
    if !isLabel s then some (.labelText seen.length s)
    else if seen.contains s then some (.duplicateLabel s)
    else faultAfter (seen ++ [s]) rest

theorem isLabel_of_faultAfter {seen names : List String} (h : faultAfter seen names = none) :
    ∀ s ∈ names, isLabel s = true := by
  induction names generalizing seen with
  | nil => simp
  | cons a rest ih =>
    unfold faultAfter at h
    split at h
    · cases h
    · rename_i ha
      split at h
      · cases h
      · intro s hs
        rcases List.mem_cons.1 hs with rfl | hs
        · simpa using ha
        · exact ih h s hs

theorem nodup_of_faultAfter {seen names : List String} (hs : seen.Nodup)
    (h : faultAfter seen names = none) : (seen ++ names).Nodup := by
  induction names generalizing seen with
  | nil => simpa using hs
  | cons a rest ih =>
    unfold faultAfter at h
    split at h
    · cases h
    · split at h
      · cases h
      · rename_i hnew
        have hs' : (seen ++ [a]).Nodup := by
          refine List.nodup_append.2 ⟨hs, by simp, ?_⟩
          intro x hx y hy
          rw [List.mem_singleton.1 hy]
          rintro rfl
          exact hnew (by simpa using hx)
        simpa using ih hs' h

/-- A table from its names, refused at the first that is no label or was there before. -/
def ofList (names : List String) : Except DatasetFault Labels :=
  match h : faultAfter [] names with
  | some f => .error f
  | none =>
    .ok ⟨names, isLabel_of_faultAfter h, by simpa using nodup_of_faultAfter List.nodup_nil h⟩

/-- The distinct members of a list, in order of first occurrence, behind those `seen`. -/
def distinctAfter (seen : List String) : List String → List String
  | [] => seen
  | s :: rest => distinctAfter (if seen.contains s then seen else seen ++ [s]) rest

/-- The table of the labels that occur in a list, in order of first occurrence. -/
def ofObserved (observed : List String) : Except DatasetFault Labels :=
  ofList (distinctAfter [] observed)

/-- The number of classes. -/
def size (t : Labels) : Nat :=
  t.names.length

/-- The label of a class. -/
def name? (t : Labels) (index : Nat) : Option String :=
  t.names[index]?

/-- The class of a label. -/
def index? (t : Labels) (label : String) : Option Nat :=
  t.names.idxOf? label

/-- The classes of labels, `row` being the number of the first. -/
def encodeFrom (t : Labels) (row : Nat) : List String → Except DatasetFault (List Nat)
  | [] => .ok []
  | label :: rest =>
    match t.index? label with
    | none => .error (.unknownLabel row label t.names)
    | some i => (encodeFrom t (row + 1) rest).map (i :: ·)

/-- The classes of labels; the first unknown one is reported with its row, counted from one. -/
def encode (t : Labels) (labels : List String) : Except DatasetFault (List Nat) :=
  t.encodeFrom 1 labels

/-! ## As text -/

/-- One label to a line. -/
def toText (t : Labels) : String :=
  Text.unlines t.names

/-- The table of the lines of a text. -/
def ofText (text : String) : Except DatasetFault Labels :=
  ofList (Text.lines text)

/-! ## Files -/

/-- The table in a file that was found. -/
def ofFound (path : Storage.Path) (found : Except FileFault (List UInt8)) :
    Except Error Labels := do
  let text ← Storage.textFound found
  (ofText text).mapError fun f => .corrupt (.labels path.text f)

section

variable {m : Type → Type} [Monad m] [Storage.Host m]

/-- Reads the table in a file. -/
def load (path : Storage.Path) : m (Except Error Labels) := do
  let found ← Storage.Host.read path
  pure (ofFound path found)

/-- Writes a table into a file. -/
def save (t : Labels) (path : Storage.Path) : m (Except Error Unit) := do
  let result ← Storage.Host.change (.write path (Storage.bytesOf t.toText))
  pure (result.mapError .file)

end

end Labels

end Triage
