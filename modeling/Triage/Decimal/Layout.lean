/-
How a decimal is laid out as text: where the point goes, when an exponent is written instead, and
whether a whole number keeps a zero after the point. A layout is a record, so each place that
writes numbers names its own.
-/
import Triage.Decimal.Shortest

namespace Triage.Decimal

/-- The choices a text form makes. A number is written with a point alone while the place of its
first digit is between `lowest` and `highest` (0 is the units' place); a bound left out never
ends that range. -/
structure Layout where
  lowest : Option Int
  highest : Option Int
  /-- Whether a whole number written with a point alone ends in `.0`. -/
  pointZero : Bool
  tie : Tie

/-- The digits of a natural number, most significant first. -/
def digitsOf (n : Nat) : List Char :=
  Nat.toDigits 10 n

/-- An integer with a minus sign where needed. -/
def integerText (n : Int) : List Char :=
  if n < 0 then '-' :: digitsOf n.natAbs else digitsOf n.natAbs

namespace Layout

/-- Digits with a point so that the number is `digits · 10^exponent`. -/
def positional (l : Layout) (digits : List Char) (exponent : Int) : List Char :=
  if 0 ≤ exponent then
    digits ++ List.replicate exponent.toNat '0' ++ (if l.pointZero then ['.', '0'] else [])
  else
    let places := (-exponent).toNat
    if places < digits.length then
      digits.take (digits.length - places) ++ '.' :: digits.drop (digits.length - places)
    else '0' :: '.' :: List.replicate (places - digits.length) '0' ++ digits

/-- One digit before the point, the rest after it, and the place of the first digit after an `e`. -/
def scientific (digits : List Char) (place : Int) : List Char :=
  (match digits with
    | [] => []
    | [d] => [d]
    | d :: rest => d :: '.' :: rest) ++ 'e' :: integerText place

/-- Whether a number whose first digit has this place is written with a point alone. -/
def isPositional (l : Layout) (place : Int) : Bool :=
  l.lowest.all (· ≤ place) && l.highest.all (place ≤ ·)

/-- A finite number without its sign. -/
def magnitudeText (l : Layout) (d : Digits) : List Char :=
  let digits := digitsOf d.coefficient
  let place := d.exponent + digits.length - 1
  if d.coefficient = 0 ∨ l.isPositional place then l.positional digits d.exponent
  else scientific digits place

/-- A value as text. -/
def text (l : Layout) : Written → String
  | .nan => "NaN"
  | .infinite negative => if negative then "-inf" else "inf"
  | .finite negative d =>
    String.ofList ((if negative then ['-'] else []) ++ l.magnitudeText d)

/-- A double as text. -/
def double (l : Layout) (x : Float) : String :=
  l.text (writtenDouble l.tie x)

/-- A single as text. -/
def single (l : Layout) (x : Float32) : String :=
  l.text (writtenSingle l.tie x)

end Layout

/-- Numbers inside messages: never an exponent, and whole numbers bare. -/
def inMessages : Layout := ⟨none, none, false, .up⟩

/-! ## Fixed places -/

/-- The natural number nearest to `a / b`, a tie going to the even one. -/
def roundDivEven (a b : Nat) : Nat :=
  let q := a / b
  let r := a % b
  if b < 2 * r ∨ (2 * r = b ∧ q % 2 = 1) then q + 1 else q

/-- A number of units of `10^-places` with the point put in. -/
def fixedText (places units : Nat) : List Char :=
  let digits := digitsOf units
  let digits := List.replicate (places + 1 - digits.length) '0' ++ digits
  digits.take (digits.length - places) ++ '.' :: digits.drop (digits.length - places)

/-- A double with a fixed number of places after the point, rounded from its exact value. -/
def fixed (places : Nat) (x : Float) : String :=
  match Number.partsOfDouble x with
  | .notANumber => "NaN"
  | .infinity s => if isNegative s then "-inf" else "inf"
  | .zero s => String.ofList ((if isNegative s then ['-'] else []) ++ fixedText places 0)
  | .finite s m e _ =>
    let units := roundDivEven (m * Nat.pow 2 e.toNat * Nat.pow 10 places) (Nat.pow 2 (-e).toNat)
    String.ofList ((if isNegative s then ['-'] else []) ++ fixedText places units)

end Triage.Decimal
