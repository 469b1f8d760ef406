/-
Numbers and orders drawn from a stream of random words.
-/
import Triage.Random.Source

namespace Triage.Random

/-! ## Numbers -/

/-- A single in `0 … 1`, the upper end left out: the upper 24 bits of a word as a fraction. -/
def unit (s : Source) : Float32 × Source :=
  let (w, s) := s.word
  ((w >>> 8).toFloat32 * Float32.ofBits 0x33800000, s)

/-- A single between `-limit` and `limit`: 23 bits of a word as a fraction of the way. -/
def symmetric (limit : Float32) (s : Source) : Float32 × Source :=
  let (w, s) := s.word
  let v := Float32.ofBits ((w >>> 9) ||| 0x3f800000) - 1
  (v * (limit - -limit) + -limit, s)

/-- A natural number below `n`, which is positive and at most `2^32`. The word is scaled to the
range, and where that leaves a rest too large for an even draw, a second word decides. -/
def below (n : Nat) (s : Source) : Nat × Source :=
  let (w, s) := s.word
  let p := w.toNat * n
  let high := p / UInt32.size
  let low := p % UInt32.size
  if UInt32.size - n < low then
    let (w, s) := s.word
    let q := w.toNat * n / UInt32.size
    (if UInt32.size ≤ low + q then high + 1 else high, s)
  else (high, s)

/-! ## Orders -/

/-- Several small numbers are drawn at once: `chunk` holds what is left of a draw, good for
`remaining` more numbers. -/
structure Chooser where
  chunk : Nat
  remaining : Nat

/-- The product of as many factors `product · next · (next + 1) ⋯` as stay below `2^32`, and the
first factor left out. Thirteen factors never stay below. -/
def factors (product next : Nat) : Nat → Nat × Nat
  | 0 => (product, next)
  | fuel + 1 =>
    if product * next < UInt32.size then factors (product * next) (next + 1) fuel
    else (product, next)

/-- A number below `n`, where the numbers before it were drawn below `1, …, n - 1`. -/
def Chooser.choose (c : Chooser) (n : Nat) (s : Source) : Nat × Chooser × Source :=
  let (c, s) :=
    if c.remaining = 0 then
      let (product, next) := factors n (n + 1) 32
      let (chunk, s) := below product s
      (⟨chunk, next - n⟩, s)
    else (c, s)
  let remaining := c.remaining - 1
  if remaining = 0 then (c.chunk, ⟨c.chunk, 0⟩, s)
  else (c.chunk % n, ⟨c.chunk / n, remaining⟩, s)

/-- One step of a shuffle: what stands at `i` changes places with what stands at or before it. -/
def shuffleStep {α : Type} (st : Array α × Chooser × Source) (i : Nat) :
    Array α × Chooser × Source :=
  let (a, c, s) := st
  let (j, c, s) := c.choose (i + 1) s
  (a.swapIfInBounds i j, c, s)

/-- A random order of an array. Nothing is drawn for one element or none. -/
def shuffle {α : Type} (a : Array α) (s : Source) : Array α × Source :=
  if a.size ≤ 1 then (a, s)
  else
    let (a, _, s) := (List.range a.size).foldl shuffleStep (a, ⟨0, 1⟩, s)
    (a, s)

end Triage.Random
