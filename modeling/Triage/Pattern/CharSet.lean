/-
Classes of characters: ranges of code points, and what is made of classes by taking them together,
by keeping what they share or by leaving out.
-/
import Triage.Text.CharClass

namespace Triage

/-- A class of characters. -/
inductive CharSet where
  | within (ranges : Text.Ranges)
  | either (a b : CharSet)
  | both (a b : CharSet)
  | without (a b : CharSet)
  /-- What is in one of two classes and not in the other. -/
  | apart (a b : CharSet)
  /-- A class in brackets of its own, or everything outside of it. -/
  | bracketed (negated : Bool) (a : CharSet)
  deriving DecidableEq, Repr

namespace CharSet

/-- Whether a character belongs to a class. -/
def contains (s : CharSet) (c : Char) : Bool :=
  match s with
  | .within ranges => ranges.contains c
  | .either a b => a.contains c || b.contains c
  | .both a b => a.contains c && b.contains c
  | .without a b => a.contains c && !b.contains c
  | .apart a b => a.contains c != b.contains c
  | .bracketed negated a => a.contains c != negated

/-- The class of one character. -/
def only (c : Char) : CharSet :=
  .within [(c.toNat, c.toNat)]

/-- The ranges between and around ascending ranges, from a code point on. -/
def complementFrom (start : Nat) : Text.Ranges → Text.Ranges
  | [] => [(start, 0x10ffff)]
  | (low, high) :: rest =>
    if start < low then (start, low - 1) :: complementFrom (high + 1) rest
    else complementFrom (high + 1) rest

/-- Every character but the line feed. -/
def anyInLine : CharSet :=
  .within (complementFrom 0 [(10, 10)])

/-- The class of what belongs to one of several classes. -/
def ofList : List CharSet → CharSet
  | [] => .within []
  | [a] => a
  | a :: rest => .either a (ofList rest)

/-! ## Size -/

/-- How deep a class is nested. Items in a row count once. -/
def nesting : CharSet → Nat
  | .within _ => 0
  | .either a b@(.either _ _) => max (a.nesting + 1) b.nesting
  | .either a b | .both a b | .without a b | .apart a b => max a.nesting b.nesting + 1
  | .bracketed _ a => a.nesting + 1

/-- How many ranges a class is made of. -/
def rangeCount : CharSet → Nat
  | .within ranges => ranges.length
  | .either a b | .both a b | .without a b | .apart a b => a.rangeCount + b.rangeCount
  | .bracketed negated a => a.rangeCount + negated.toNat

/-- Whether a class is made of code points below 128 only. -/
def isAscii : CharSet → Bool
  | .within ranges => ranges.all fun (_, high) => high < 128
  | .either a b | .apart a b => a.isAscii && b.isAscii
  | .both a b => a.isAscii || b.isAscii
  | .without a _ => a.isAscii
  | .bracketed negated a => !negated && a.isAscii

/-- The code point of a class that is written as one character. -/
def single? : CharSet → Option Nat
  | .within [(low, high)] => if low = high then some low else none
  | .bracketed false a => a.single?
  | _ => none

end CharSet

end Triage
