/-
Fitting a vectorizer. Of all n-grams of the documents, those found in the most documents are kept;
of equally many, those that occur more often, then those that come first in order. The terms kept
are numbered in ascending order, and one that is in `d` of `n` documents weighs
`ln ((1 + n) / (1 + d)) + 1`.
-/
import Triage.Number.Logarithm
import Triage.Vectorizer.Basic

namespace Triage.Vectorizer

/-! ## Counting -/

/-- In how many documents an n-gram is found, and how often in all. -/
structure Frequency where
  documents : Nat
  occurrences : Nat
  deriving DecidableEq, Repr

/-- The number of times each n-gram is in a list. -/
def tally (ngrams : List String) : Std.TreeMap String Nat :=
  ngrams.foldl (fun m g => m.insert g (m.getD g 0 + 1)) ∅

/-- Adds an n-gram that is in a document `n` times. -/
def addCount (m : Std.TreeMap String Frequency) (ngram : String) (n : Nat) :
    Std.TreeMap String Frequency :=
  let f := m.getD ngram ⟨0, 0⟩
  m.insert ngram ⟨f.documents + 1, f.occurrences + n⟩

/-- The frequencies of the n-grams of documents. -/
def frequencies (range : Text.NGramRange) (documents : List String) :
    Std.TreeMap String Frequency :=
  documents.foldl (fun m d => (tally (range.extract (Text.tokenize d))).foldl addCount m) ∅

/-! ## Choosing -/

/-- An n-gram with its frequency. -/
abbrev Candidate := String × Frequency

/-- The order in which candidates are kept. -/
def rank (a b : Candidate) : Ordering :=
  (compare b.2.documents a.2.documents).then
    ((compare b.2.occurrences a.2.occurrences).then (compare a.1 b.1))

/-- The first `n` candidates in the order they are kept. -/
def best (n : Nat) (candidates : List Candidate) : List Candidate :=
  (Std.TreeSet.ofList candidates rank).toList.take n

/-- Candidates in ascending order of their terms. -/
def byTerm (candidates : List Candidate) : List Candidate :=
  (Std.TreeMap.ofList candidates).toList

/-- The weight of a term that is in `d` of `n` documents. -/
def smoothedWeight (n d : Nat) : Float :=
  Number.ln ((1 + Float.ofNat n) / (1 + Float.ofNat d)) + 1

/-- The vectorizer fitted to documents. -/
def fit (settings : VectorizerSettings) (documents : List String) : Except Error Vectorizer :=
  if documents.isEmpty then .error .emptyCorpus
  else
    let found := frequencies settings.ngrams documents
    if found.isEmpty then .error (.emptyVocabulary documents.length)
    else
      let kept := byTerm (best settings.maxFeatures found.toList)
      (ofParts settings (kept.map Prod.fst).toArray
        (kept.map fun c => smoothedWeight documents.length c.2.documents).toArray).mapError
        .corrupt

/-- The vectorizer fitted to documents, the settings being checked before. -/
def checkedFit (settings : VectorizerSettings) (documents : List String) :
    Except Error Vectorizer :=
  match settings.fault? with
  | some f => .error (.configuration f)
  | none => fit settings documents

end Triage.Vectorizer
