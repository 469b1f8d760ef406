/-
The shortest decimal of a binary floating-point value. The reals that round to `m · 2^e` form an
interval, closed when `m` is even. A grid of step `10^g` has a point in the interval only if one of
the value's two neighbours on the grid lies in it, so those two are tested on finer and finer grids
until one is hit; of two hits the nearer is taken. All comparisons are of natural numbers.
-/
import Triage.Number.Rounding

namespace Triage.Decimal

open Float.Model (UnpackedFloat)

/-- The number `coefficient · 10^exponent`. -/
structure Digits where
  coefficient : Nat
  exponent : Int
  deriving DecidableEq, Repr

/-- Which neighbour is taken when both are hit and equally near. -/
inductive Tie where
  | up
  | toEven
  deriving DecidableEq, Repr

/-- The interval of a value: `middle`, `low` and `high` are in units of `2^unit`. -/
structure Interval where
  middle : Nat
  low : Nat
  high : Nat
  unit : Int
  closed : Bool

/-- The interval of `m · 2^e`, in quarters of `2^e`. Below a power of two the step to the next value
is half as wide, except at the least exponent of the format. -/
def Interval.ofParts (hidden : Nat) (least : Int) (m : Nat) (e : Int) : Interval :=
  { middle := 4 * m
    low := if m = hidden ∧ least < e then 4 * m - 1 else 4 * m - 2
    high := 4 * m + 2
    unit := e - 2
    closed := m % 2 == 0 }

/-- `a · 2^u` and `b · 10^g` over a common denominator. -/
def overCommon (a : Nat) (u : Int) (b : Nat) (g : Int) : Nat × Nat :=
  (a * Nat.pow 2 u.toNat * Nat.pow 10 (-g).toNat,
    b * Nat.pow 10 g.toNat * Nat.pow 2 (-u).toNat)

namespace Interval

/-- The largest grid point not above the middle. -/
def below (i : Interval) (g : Int) : Nat :=
  let (a, b) := overCommon i.middle i.unit 1 g
  a / b

/-- Whether a grid point lies in the interval. -/
def contains (i : Interval) (c : Nat) (g : Int) : Bool :=
  let (l, p) := overCommon i.low i.unit c g
  let (h, q) := overCommon i.high i.unit c g
  if i.closed then l ≤ p && q ≤ h else l < p && q < h

/-- Whether of the grid points `c` and `c + 1` around the middle the upper is taken. -/
def prefersUpper (i : Interval) (tie : Tie) (c : Nat) (g : Int) : Bool :=
  let (a, b) := overCommon (2 * i.middle) i.unit (2 * c + 1) g
  b < a || (a == b && (tie == .up || c % 2 == 1))

/-- The point chosen on one grid, if a neighbour of the middle is hit. -/
def onGrid (i : Interval) (tie : Tie) (g : Int) : Option Digits :=
  let c := i.below g
  match i.contains c g, i.contains (c + 1) g with
  | true, true => some ⟨if i.prefersUpper tie c g then c + 1 else c, g⟩
  | true, false => some ⟨c, g⟩
  | false, true => some ⟨c + 1, g⟩
  | false, false => none

/-- The exponent `k` with the middle in `10^(k-1) … 10^k`, the upper end left out. -/
def magnitude (i : Interval) : Int :=
  let guess := ((i.middle.log2 : Int) + i.unit) * 1233 / 4096
  let isBelow (k : Int) := let (a, b) := overCommon i.middle i.unit 1 k; a < b
  if isBelow guess then guess else if isBelow (guess + 1) then guess + 1 else guess + 2

/-- The shortest decimal in the interval. Seventeen digits always reach it. -/
def shortest (i : Interval) (tie : Tie) : Digits :=
  let k := i.magnitude
  match (List.range 17).findSome? fun n : Nat => i.onGrid tie (k - 1 - (n : Int)) with
  | some d => d
  | none => ⟨i.below (k - 17), k - 17⟩

end Interval

/-- A decimal without trailing zeros in its coefficient; `fuel` bounds their number. -/
def Digits.strip (d : Digits) : Nat → Digits
  | 0 => d
  | fuel + 1 =>
    if d.coefficient % 10 = 0 ∧ d.coefficient ≠ 0 then
      Digits.strip ⟨d.coefficient / 10, d.exponent + 1⟩ fuel
    else d

/-! ## Of the two formats -/

/-- A value as text needs it: its class and sign, and of a finite one the decimal to write. -/
inductive Written where
  | nan
  | infinite (negative : Bool)
  | finite (negative : Bool) (digits : Digits)
  deriving DecidableEq, Repr

/-- The sign of a value's parts. -/
def isNegative : UnpackedFloat.Sign → Bool
  | .negative => true
  | .positive => false

/-- What to write for a value with these parts. -/
def written (hidden : Nat) (least : Int) (tie : Tie) : UnpackedFloat → Written
  | .notANumber => .nan
  | .infinity s => .infinite (isNegative s)
  | .zero s => .finite (isNegative s) ⟨0, 0⟩
  | .finite s m e _ =>
    .finite (isNegative s) ((Interval.ofParts hidden least m e).shortest tie |>.strip 18)

/-- What to write for a double. -/
def writtenDouble (tie : Tie) (x : Float) : Written :=
  written (Nat.pow 2 52) (-1074) tie (Number.partsOfDouble x)

/-- What to write for a single. -/
def writtenSingle (tie : Tie) (x : Float32) : Written :=
  written (Nat.pow 2 23) (-149) tie (Number.partsOfSingle x)

end Triage.Decimal
