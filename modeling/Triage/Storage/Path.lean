/-
Paths: how a file is written down. The names in a path are divided by strokes; the name `.` stays
where it is and `..` leads back. Where a path leads depends on what is there, since each name but
the last has to be of a directory; so a path keeps its names as they are written.
-/

namespace Triage.Storage

/-- The parts of a text between strokes, `part` being what was read of the first, last character
first. -/
def splitFrom (part : List Char) : List Char → List String
  | [] => [String.ofList part.reverse]
  | c :: rest =>
    if c = '/' then String.ofList part.reverse :: splitFrom [] rest
    else splitFrom (c :: part) rest

/-- The names in a text. Strokes next to each other divide no more than one does. -/
def namesIn (text : String) : List String :=
  (splitFrom [] text.toList).filter (· ≠ "")

/-- Whether a text begins with a stroke. -/
def opensWithStroke (text : String) : Bool :=
  text.toList.head? = some '/'

/-- Whether a text ends in a stroke. -/
def endsInStroke (text : String) : Bool :=
  text.toList.getLast? = some '/'

/-- The names of the directory that holds what names lead to, a `.` at the end of either passed
over. -/
def enclosing (names : List String) : List String :=
  let trim := List.dropWhile fun name : String => name = "."
  (trim (trim names.reverse).tail).reverse

theorem length_enclosing_lt {names : List String} (h : names ≠ []) :
    (enclosing names).length < names.length := by
  have trimmed (l : List String) : (l.dropWhile fun name => name = ".").length ≤ l.length :=
    (List.dropWhile_sublist _).length_le
  have outer := trimmed (names.reverse.dropWhile fun name => name = ".").tail
  have inner := trimmed names.reverse
  have pos := List.length_pos_iff.2 h
  simp only [enclosing, List.length_reverse, List.length_tail] at *
  omega

/-- A path as it was given, with the names in it. -/
structure Path where
  text : String
  /-- Those of a path from the root begin with a stroke as the name of the root. -/
  names : List String
  /-- Whether it ends in a stroke, and so can only be of a directory. -/
  closed : Bool
  deriving DecidableEq, Repr

namespace Path

/-- A path from its text. One that begins with a stroke starts from the root. -/
def ofText (text : String) : Path :=
  ⟨text, (if opensWithStroke text then ["/"] else []) ++ namesIn text, endsInStroke text⟩

/-- The text of a name behind that of a directory. -/
def join (dir name : String) : String :=
  if dir = "" ∨ endsInStroke dir then dir ++ name else dir ++ "/" ++ name

/-- What a directory has under a name, or what the name alone leads to if it starts from the
root. -/
def child (dir : Path) (name : String) : Path :=
  if opensWithStroke name then ofText name
  else
    let text := join dir.text name
    ⟨text, dir.names ++ namesIn name, endsInStroke text⟩

end Path

end Triage.Storage
