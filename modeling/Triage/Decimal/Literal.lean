/-
Decimal literals. A literal is split into its sign, its digits as one whole number and a power of
ten, and only then rounded, once, to the nearest value of the format.
-/
import Triage.Decimal.Shortest

namespace Triage.Decimal

/-! ## Scanning -/

/-- The leading decimal digits of a text, and what follows them. -/
def spanDigits (cs : List Char) : List Char × List Char :=
  (cs.takeWhile Char.isDigit, cs.dropWhile Char.isDigit)

/-- The number that decimal digits denote. -/
def naturalOf (digits : List Char) : Nat :=
  digits.foldl (fun n c => n * 10 + (c.toNat - '0'.toNat)) 0

/-- An optional sign: whether it is a minus, and what follows. -/
def spanSign : List Char → Bool × List Char
  | '+' :: rest => (false, rest)
  | '-' :: rest => (true, rest)
  | rest => (false, rest)

/-- The digits after a point, if there is one. -/
def spanFraction : List Char → List Char × List Char
  | '.' :: rest => spanDigits rest
  | rest => ([], rest)

/-- An exponent part reaching to the end; an empty text has exponent zero. -/
def exponent? : List Char → Option Int
  | [] => some 0
  | c :: rest =>
    if c = 'e' ∨ c = 'E' then
      let (negative, rest) := spanSign rest
      let (digits, rest) := spanDigits rest
      if digits.isEmpty || !rest.isEmpty then none
      else some (if negative then -(naturalOf digits : Int) else naturalOf digits)
    else none

/-- A number in decimal notation: digits with at most one point among or around them, at least one
digit, and an optional exponent. -/
def unsigned? (cs : List Char) : Option Digits := do
  let (whole, rest) := spanDigits cs
  let (frac, rest) := spanFraction rest
  if whole.isEmpty && frac.isEmpty then none
  let e ← exponent? rest
  pure ⟨naturalOf (whole ++ frac), e - frac.length⟩

/-! ## Rounding -/

/-- The nearest double of a decimal. -/
def Digits.toDouble (d : Digits) : Float :=
  Float.ofScientific d.coefficient (d.exponent < 0) d.exponent.natAbs

/-- The nearest single of a decimal. -/
def Digits.toSingle (d : Digits) : Float32 :=
  Float32.ofScientific d.coefficient (d.exponent < 0) d.exponent.natAbs

/-! ## Floating-point literals -/

/-- Why a text is no number. -/
inductive LiteralFault where
  | empty
  | malformed
  deriving DecidableEq, Repr

/-- What is said of a text that is no number. -/
def LiteralFault.message : LiteralFault → String
  | .empty => "cannot parse float from empty string"
  | .malformed => "invalid float literal"

/-- A number as written: a decimal or one of the names for infinity and NaN. -/
inductive Literal where
  | nan
  | infinite
  | decimal (digits : Digits)

/-- The number a text denotes, without its sign. The names are read in any letter case. -/
def literal? (cs : List Char) : Option Literal :=
  let lower := cs.map Char.toLower
  if lower = ['n', 'a', 'n'] then some .nan
  else if lower = ['i', 'n', 'f'] ∨ lower = ['i', 'n', 'f', 'i', 'n', 'i', 't', 'y'] then
    some .infinite
  else (unsigned? cs).map .decimal

/-- Reads a signed number and turns it into a value of a format. -/
def readWith {α : Type} (negate : α → α) (value : Literal → α) (text : String) :
    Except LiteralFault α :=
  match text.toList with
  | [] => .error .empty
  | cs =>
    let (negative, rest) := spanSign cs
    match literal? rest with
    | none => .error .malformed
    | some l => .ok (if negative then negate (value l) else value l)

/-- The double a text denotes. -/
def readDouble : String → Except LiteralFault Float :=
  readWith (- ·) fun
    | .nan => Float.ofBits 0x7ff8000000000000
    | .infinite => Float.ofBits 0x7ff0000000000000
    | .decimal d => d.toDouble

/-- The single a text denotes. -/
def readSingle : String → Except LiteralFault Float32 :=
  readWith (- ·) fun
    | .nan => Float32.ofBits 0x7fc00000
    | .infinite => Float32.ofBits 0x7f800000
    | .decimal d => d.toSingle

end Triage.Decimal
