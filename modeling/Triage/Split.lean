/-
Stratified splitting of rows into a training and a test part. The size of the test part is the
fraction of all rows asked for, rounded up. Every class gets its share of it, rounded down; the
places left go one each to the classes with the largest remainders, of equal ones to the larger
class, then to the smaller label; but a class always keeps one row for training. Which rows of a
class are taken is drawn at random.
-/
import Triage.Error
import Triage.Random.Draw

namespace Triage

/-- A partition of the rows `0, 1, …`: the numbers of the training and of the test rows, both in
ascending order. -/
structure Split where
  train : List Nat
  test : List Nat
  deriving DecidableEq, Repr

/-- The items of the training rows and those of the test rows. -/
def Split.select {α : Type} (s : Split) (items : Array α) : List α × List α :=
  (s.train.filterMap (items[·]?), s.test.filterMap (items[·]?))

namespace Split

/-! ## Classes -/

/-- Puts a number where it belongs in an ascending list without repetition. -/
def insertLabel (label : Nat) : List Nat → List Nat
  | [] => [label]
  | l :: rest =>
    if label < l then label :: l :: rest
    else if label = l then l :: rest
    else l :: insertLabel label rest

/-- The labels that occur, ascending. -/
def classLabels (labels : List Nat) : List Nat :=
  labels.foldl (fun acc l => insertLabel l acc) []

/-- The rows of a label, ascending. -/
def members (labels : List Nat) (label : Nat) : List Nat :=
  labels.zipIdx.filterMap fun (l, row) => if l = label then some row else none

/-! ## Shares of the test part -/

/-- The share of a class: its exact part of the test rows, rounded down, and what was cut off. -/
structure Share where
  label : Nat
  count : Nat
  whole : Nat
  rest : Float

/-- The share of a class of `count` rows of `n`, of which `test` are test rows. -/
def shareOf (n test label count : Nat) : Share :=
  let exact := Float.ofNat count * Float.ofNat test / Float.ofNat n
  ⟨label, count, Number.floor exact, Number.fraction exact⟩

/-- Whether a class comes before another when the places left are given out. -/
def Share.precedes (a b : Share) : Bool :=
  b.rest < a.rest || (a.rest == b.rest &&
    (b.count < a.count || (a.count == b.count && a.label ≤ b.label)))

/-- Puts a share behind those that precede it. -/
def insertShare (s : Share) : List Share → List Share
  | [] => [s]
  | t :: rest => if s.precedes t then s :: t :: rest else t :: insertShare s rest

/-- The shares in the order the places left are given out. -/
def ranked (shares : List Share) : List Share :=
  shares.foldr insertShare []

/-- The labels of the classes that get one of the places left. -/
def favoured (shares : List Share) (test : Nat) : List Nat :=
  ((ranked shares).take (test - shares.foldr (·.whole + ·) 0)).map Share.label

/-- The number of test rows of each class: a class keeps one row for training. -/
def testCounts (shares : List Share) (test : Nat) : List (Nat × Nat) :=
  let lucky := favoured shares test
  shares.map fun s =>
    (s.label, min (if lucky.contains s.label then s.whole + 1 else s.whole) (s.count - 1))

/-! ## Drawing -/

/-- The test rows of classes with the given numbers of them, each class drawn from in turn. -/
def draw (labels : List Nat) : List (Nat × Nat) → Random.Source → List Nat
  | [], _ => []
  | (label, k) :: rest, s =>
    let (rows, s) := Random.shuffle (members labels label).toArray s
    rows.toList.take k ++ draw labels rest s

/-- The rows below `n` divided by whether they were drawn. -/
def ofDrawn (n : Nat) (drawn : List Nat) : Split :=
  let marks := drawn.foldl (fun m row => m.setIfInBounds row true) (Array.replicate n false)
  ⟨(List.range n).filter (!marks.getD · false), (List.range n).filter (marks.getD · false)⟩

/-- The number of test rows: the fraction of `n`, less a billionth against rounding, rounded up. -/
def testSize (n : Nat) (fraction : Float) : Nat :=
  Number.ceil (fraction * Float.ofNat n - Float.ofScientific 1 true 9)

/-- Whether a fraction lies between zero and one, the ends left out. -/
def isProper (fraction : Float) : Bool :=
  0 < fraction && fraction < 1

/-- Splits rows by their labels. Every class needs two rows, and both parts must be as large as the
number of classes. -/
def stratified (labels : List Nat) (fraction : Float) (seed : UInt64) : Except Error Split :=
  if labels.isEmpty then .error (.precondition .emptyDataset)
  else if !isProper fraction then .error (.argument (.testFraction fraction))
  else
    let classes := (classLabels labels).map fun l => (l, labels.count l)
    match classes.find? (·.2 < 2) with
    | some (label, count) => .error (.precondition (.smallClass label count))
    | none =>
      let n := labels.length
      let test := testSize n fraction
      let train := n - test
      if test < classes.length || train < classes.length then
        .error (.precondition (.cannotHold n train test classes.length))
      else
        let shares := classes.map fun (l, count) => shareOf n test l count
        .ok (ofDrawn n (draw labels (testCounts shares test) (Random.Source.ofSeed seed)))

end Split

end Triage
