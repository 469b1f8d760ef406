/-
Patterns, and how large a pattern may be: it is nested 250 deep at most, and the steps it takes to
search for it fit in ten mebibytes.
-/
import Triage.Pattern.CharSet

namespace Triage

/-- A pattern. -/
inductive Pattern where
  | empty
  | char (s : CharSet)
  | start
  | finish
  /-- A pattern in parentheses. -/
  | group (a : Pattern)
  | seq (a b : Pattern)
  | either (a b : Pattern)
  /-- From `least` to `most` repetitions, any number from `least` on if no upper bound is given; a
  greedy one prefers more, another one fewer. -/
  | repeated (a : Pattern) (least : Nat) (most : Option Nat) (greedy : Bool)
  deriving DecidableEq, Repr

namespace Pattern

/-- Whether a pattern can match the empty text. -/
def nullable : Pattern → Bool
  | .empty | .start | .finish => true
  | .char _ => false
  | .group a => a.nullable
  | .seq a b => a.nullable && b.nullable
  | .either a b => a.nullable || b.nullable
  | .repeated a least _ _ => least == 0 || a.nullable

/-- Whether a pattern can match nothing but the empty text. -/
def void : Pattern → Bool
  | .empty | .start | .finish => true
  | .char _ => false
  | .group a => a.void
  | .seq a b | .either a b => a.void && b.void
  | .repeated a _ most _ => a.void || most == some 0

/-- A pattern repeated. One that matches nothing but the empty text is tried once at most, since it
matches again wherever it did before. -/
def times (a : Pattern) (least : Nat) (most : Option Nat) (greedy : Bool) : Pattern :=
  if a.void then .repeated a (min least 1) (some (min (most.getD 1) 1)) greedy
  else .repeated a least most greedy

/-! ## Size -/

/-- How deep a pattern is nested. Pieces in a row count once, and so do alternatives. -/
def nesting : Pattern → Nat
  | .empty | .start | .finish => 0
  | .char s => s.nesting
  | .seq a b@(.seq _ _) | .either a b@(.either _ _) => max (a.nesting + 1) b.nesting
  | .seq a b | .either a b => max a.nesting b.nesting + 1
  | .group a | .repeated a _ _ _ => a.nesting + 1

/-- The bytes that steps for a class take. A step takes 32, and eight more for each range that it
tells apart; characters are read byte by byte. -/
def charMemory (s : CharSet) : Nat :=
  match s.single? with
  | some n => 32 * (Char.ofNat n).utf8Size
  | none => if s.isAscii then 64 + 8 * s.rangeCount else 32 * (26 + 2 * s.rangeCount)

/-- The bytes that the steps of a pattern take. A branch takes four for each way that leads on. -/
def memory : Pattern → Nat
  | .empty | .start | .finish => 32
  | .char s => charMemory s
  | .group a => a.memory + 2 * 32
  | .seq a b => a.memory + b.memory
  | .either a b@(.either _ _) => a.memory + b.memory + 4
  | .either a b => a.memory + b.memory + 2 * 32 + 2 * 4
  | .repeated a least none _ =>
    if least = 0 && a.nullable then a.memory + 3 * 32 + 4 * 4
    else max least 1 * a.memory + 32 + 2 * 4
  | .repeated a least (some most) _ =>
    if most = 0 then 32
    else if least = most then most * a.memory
    else if most = 1 then a.memory + 2 * 32 + 2 * 4
    else max (least * a.memory) 32 + 32 + (most - least) * (a.memory + 32 + 2 * 4)

/-- How deep a pattern may be nested. -/
def maxNesting : Nat := 250

/-- The bytes that the steps of a search may take. -/
def maxMemory : Nat := 10 * 1024 * 1024

/-- The bytes that the steps around a pattern take: those that pass over the text in front of a
match, and those that mark its ends. -/
def frameMemory : Nat := 6 * 32 + 2 * 8

/-- Whether a pattern is not too large to be searched for. -/
def fits (p : Pattern) : Bool :=
  p.nesting ≤ maxNesting && p.memory + frameMemory ≤ maxMemory

end Pattern

end Triage
