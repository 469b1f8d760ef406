/-
N-grams: the windows of neighbouring tokens, joined by single spaces.
-/
import Triage.Error

namespace Triage.Text

/-- The lengths of window taken, from `least` to `most`. -/
structure NGramRange where
  least : Nat
  most : Nat
  least_pos : 0 < least := by decide
  least_le_most : least ≤ most := by decide
  deriving DecidableEq, Repr

namespace NGramRange

/-- A range from its ends, which must be positive and in order. -/
def of (least most : Nat) : Except ConfigFault NGramRange :=
  if h : 0 < least ∧ least ≤ most then .ok ⟨least, most, h.1, h.2⟩
  else .error (.ngramRange least most)

/-- Single tokens, pairs and triples. -/
def upToThree : NGramRange where
  least := 1
  most := 3

end NGramRange

/-- The windows of `n` neighbours in a list, in order; `n` is positive. -/
def windows {α : Type} (n : Nat) : List α → List (List α)
  | [] => []
  | a :: rest =>
    let w := (a :: rest).take n
    if w.length = n then w :: windows n rest else []

/-- The n-grams of a list of tokens: shorter windows first, then by position. Repeated ones are
kept. -/
def NGramRange.extract (r : NGramRange) (tokens : List String) : List String :=
  (List.range' r.least (min r.most tokens.length + 1 - r.least)).flatMap fun n =>
    (windows n tokens).map (" ".intercalate ·)

end Triage.Text
