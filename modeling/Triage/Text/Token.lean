/-
Tokens of a text. An ideograph is a token by itself, a longest run of other word characters is one
in lower case, and everything else separates.
-/
import Triage.Text.Lowercase
import Triage.Text.Word

namespace Triage.Text

/-- What a character does to the tokens of a text. -/
inductive Role where
  | ideograph
  | word
  | separator
  deriving DecidableEq, Repr

/-- The role of a character. -/
def role (c : Char) : Role :=
  if isIdeograph c then .ideograph else if isWordChar c then .word else .separator

/-- The token of a run, given last character first; no token for an empty run. -/
def tokenOfRun (run : List Char) : List (List Char) :=
  if run.isEmpty then [] else [lowercase run.reverse]

/-- The tokens of a text behind an unfinished run, given last character first. -/
def tokensAfter (run : List Char) : List Char → List (List Char)
  | [] => tokenOfRun run
  | c :: rest =>
    match role c with
    | .ideograph => tokenOfRun run ++ [c] :: tokensAfter [] rest
    | .word => tokensAfter (c :: run) rest
    | .separator => tokenOfRun run ++ tokensAfter [] rest

/-- The tokens of a text, in order. -/
def tokenize (text : String) : List String :=
  (tokensAfter [] text.toList).map String.ofList

end Triage.Text
