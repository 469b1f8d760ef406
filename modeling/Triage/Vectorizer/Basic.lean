/-
Vectorizers: a vocabulary of n-grams with a weight for each, and the vector of a text over it. An
entry of the vector is the number of times the n-gram occurs times its weight, and the whole is
brought to length one.
-/
import Std.Data.TreeMap
import Std.Data.TreeSet
import Triage.Network.Scoring
import Triage.Text.NGram
import Triage.Text.Token

namespace Triage

/-- What a vectorizer is told: how many terms it may keep, and which n-grams it looks at. -/
structure VectorizerSettings where
  maxFeatures : Nat
  ngrams : Text.NGramRange
  deriving DecidableEq

namespace VectorizerSettings

/-- The settings used where nothing else is said. -/
def standard : VectorizerSettings :=
  ⟨8000, .upToThree⟩

/-- The fault of settings that keep no term. -/
def fault? (s : VectorizerSettings) : Option ConfigFault :=
  if s.maxFeatures = 0 then some .maxFeatures else none

end VectorizerSettings

/-- A vocabulary with weights: the term of each index, its weight, and the index of each term. -/
structure Vectorizer where
  settings : VectorizerSettings
  terms : Array String
  weights : Array Float
  index : Std.TreeMap String Nat

namespace Vectorizer

/-! ## Construction -/

/-- The index of the terms from number `i` on, added to that of the terms before. -/
def indexFrom (i : Nat) (index : Std.TreeMap String Nat) :
    List String → Except ArtifactFault (Std.TreeMap String Nat)
  | [] => .ok index
  | term :: rest =>
    if term = "" then .error (.emptyTerm i)
    else if index.contains term then .error (.duplicateTerm term i)
    else indexFrom (i + 1) (index.insert term i) rest

/-- A vectorizer from its terms and weights, index by index. -/
def ofParts (settings : VectorizerSettings) (terms : Array String) (weights : Array Float) :
    Except ArtifactFault Vectorizer :=
  if terms.size ≠ weights.size then .error (.termCount terms.size weights.size)
  else if settings.maxFeatures < terms.size then
    .error (.tooManyTerms terms.size settings.maxFeatures)
  else
    match weights.toList.findIdx? (!Float.isFinite ·) with
    | some i => .error (.weightNotFinite i)
    | none => (indexFrom 0 ∅ terms.toList).map fun index => ⟨settings, terms, weights, index⟩

/-! ## Terms of a text -/

/-- The number of terms, which is the width of the vectors. -/
def size (v : Vectorizer) : Nat :=
  v.terms.size

/-- The index of a term. -/
def index? (v : Vectorizer) (term : String) : Option Nat :=
  v.index[term]?

/-- The n-grams of a text, in order. -/
def ngrams (v : Vectorizer) (text : String) : List String :=
  v.settings.ngrams.extract (Text.tokenize text)

/-- Whether an n-gram is in the vocabulary. -/
def isTerm (v : Vectorizer) (ngram : String) : Bool :=
  v.index.contains ngram

/-- The number of n-grams of a text that are in the vocabulary, repeated ones counted each time. -/
def matched (v : Vectorizer) (text : String) : Nat :=
  (v.ngrams text).countP v.isTerm

/-- The share of the n-grams of a text that are in the vocabulary; zero if it has none. -/
def coverage (v : Vectorizer) (text : String) : Float32 :=
  let grams := v.ngrams text
  if grams.isEmpty then 0
  else Float32.ofNat (grams.countP v.isTerm) / Float32.ofNat grams.length

/-- The distinct n-grams of a text that are in the vocabulary, in ascending order. -/
def known (v : Vectorizer) (text : String) : List String :=
  (((v.ngrams text).filter v.isTerm).foldl Std.TreeSet.insert (∅ : Std.TreeSet String)).toList

/-! ## Vectors -/

/-- One more of an n-gram. -/
def countTerm (v : Vectorizer) (counts : Array Nat) (ngram : String) : Array Nat :=
  match v.index? ngram with
  | some i => counts.modify i (· + 1)
  | none => counts

/-- How often each term occurs among the n-grams of a text, index by index. -/
def counts (v : Vectorizer) (text : String) : Array Nat :=
  (v.ngrams text).foldl v.countTerm (Array.replicate v.size 0)

/-- The weighted count of a term. -/
def weighted (v : Vectorizer) (i n : Nat) : Float :=
  Float.ofNat n * v.weights.getD i 0

/-- The length of a vector of weighted counts; terms that do not occur are left out. -/
def norm (v : Vectorizer) (counts : Array Nat) : Float :=
  (counts.toList.zipIdx.foldl (fun sum (n, i) =>
    if n = 0 then sum else sum + v.weighted i n * v.weighted i n) 0).sqrt

/-- The vector of a text; all zeros if no term occurs in it. -/
def transform (v : Vectorizer) (text : String) : Singles :=
  let counts := v.counts text
  let norm := v.norm counts
  counts.mapIdx fun i n =>
    if n ≠ 0 ∧ 0 < norm then Number.narrow (v.weighted i n / norm) else 0

end Vectorizer

end Triage
