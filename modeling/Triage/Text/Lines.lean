/-
Lines. A line ends at a line feed, and a carriage return just before it belongs to the ending. What
follows the last line feed is a line only if it is not empty, and keeps a carriage return at its
end.
-/

namespace Triage.Text

/-- A line, last character first, without the carriage return of its ending. -/
def endLine : List Char → List Char
  | '\r' :: line => line.reverse
  | line => line.reverse

/-- The lines of a text, `line` being what was read of the first, last character first. -/
def linesFrom (line : List Char) : List Char → List (List Char)
  | [] => if line.isEmpty then [] else [line.reverse]
  | c :: rest => if c = '\n' then endLine line :: linesFrom [] rest else linesFrom (c :: line) rest

/-- The lines of a text. -/
def lines (s : String) : List String :=
  (linesFrom [] s.toList).map String.ofList

/-- Lines written one after the other, each ended by a line feed. -/
def unlines (ls : List String) : String :=
  String.join (ls.map (· ++ "\n"))

end Triage.Text
