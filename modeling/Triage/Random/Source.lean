/-
A reproducible stream of random words. A seed is stretched to a key of eight words, and the stream
is what the twelve-round ChaCha cipher makes of that key: sixteen words for each value of a block
counter that starts at zero.
-/

namespace Triage.Random

/-! ## Key -/

/-- The next state of the generator that stretches a seed. -/
def stretch (state : UInt64) : UInt64 :=
  state * 6364136223846793005 + 11634580027462260723

/-- A word turned right by `n` bits. -/
def rotateRight (x n : UInt32) : UInt32 :=
  (x >>> n) ||| (x <<< ((32 - n) % 32))

/-- The word made of a state: its upper bits mixed and turned by the uppermost. -/
def keyWord (state : UInt64) : UInt32 :=
  rotateRight (((state >>> 18) ^^^ state) >>> 27).toUInt32 (state >>> 59).toUInt32

/-- The first `n` key words after a state. -/
def keyWords (state : UInt64) : Nat → List UInt32
  | 0 => []
  | n + 1 => keyWord (stretch state) :: keyWords (stretch state) n

/-! ## Blocks -/

/-- A word turned left by `n` bits. -/
def rotateLeft (x n : UInt32) : UInt32 :=
  (x <<< n) ||| (x >>> (32 - n))

/-- Mixes four words of a state, given by their places. -/
def quarterRound (s : Array UInt32) (a b c d : Nat) : Array UInt32 :=
  let x := s.getD a 0 + s.getD b 0
  let w := rotateLeft (s.getD d 0 ^^^ x) 16
  let z := s.getD c 0 + w
  let y := rotateLeft (s.getD b 0 ^^^ z) 12
  let x := x + y
  let w := rotateLeft (w ^^^ x) 8
  let z := z + w
  let y := rotateLeft (y ^^^ z) 7
  (((s.setIfInBounds a x).setIfInBounds b y).setIfInBounds c z).setIfInBounds d w

/-- A round over the columns of the square of words, and one over its diagonals. -/
def doubleRound (s : Array UInt32) : Array UInt32 :=
  let s := quarterRound s 0 4 8 12
  let s := quarterRound s 1 5 9 13
  let s := quarterRound s 2 6 10 14
  let s := quarterRound s 3 7 11 15
  let s := quarterRound s 0 5 10 15
  let s := quarterRound s 1 6 11 12
  let s := quarterRound s 2 7 8 13
  quarterRound s 3 4 9 14

/-- The words a block starts from: four fixed ones, the key, the counter and two zeros. -/
def blockStart (key : List UInt32) (counter : UInt64) : Array UInt32 :=
  (#[0x61707865, 0x3320646e, 0x79622d32, 0x6b206574] : Array UInt32) ++ key.toArray ++
    #[counter.toUInt32, (counter >>> 32).toUInt32, 0, 0]

/-- A block: twelve rounds, and the words it started from added. -/
def block (key : List UInt32) (counter : UInt64) : Array UInt32 :=
  let start := blockStart key counter
  (Nat.repeat doubleRound 6 start).zipWith (· + ·) start

/-! ## Stream -/

/-- A place in a stream: the words of the current block that are still to come, and the number of
the next block. -/
structure Source where
  key : List UInt32
  next : UInt64
  pending : List UInt32

/-- The start of the stream of a seed. -/
def Source.ofSeed (seed : UInt64) : Source :=
  ⟨keyWords seed 8, 0, []⟩

/-- The next word, and the place behind it. -/
def Source.word (s : Source) : UInt32 × Source :=
  match s.pending with
  | w :: rest => (w, { s with pending := rest })
  | [] =>
    let words := block s.key s.next
    (words.getD 0 0, { s with next := s.next + 1, pending := words.toList.drop 1 })

end Triage.Random
