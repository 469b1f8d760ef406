/-
Searching for patterns. A pattern is turned into a program of small steps. A search follows the
steps from a place in the text, the preferred branch first, and comes to no step twice at the same
place: what failed once fails again. So the first match found is the one preferred, and the work is
bounded by the product of the two lengths.
-/
import Std.Data.HashSet
import Triage.Pattern.Syntax

namespace Triage.Pattern

/-! ## Programs -/

/-- A step of a program; numbers name the steps that follow. -/
inductive Step where
  | accept
  | char (s : CharSet) (next : Nat)
  | start (next : Nat)
  | finish (next : Nat)
  | either (first second : Nat)
  deriving DecidableEq

/-- A branch between going on with a repetition and leaving it. -/
def branch (greedy : Bool) (inside outside : Nat) : Step :=
  if greedy then .either inside outside else .either outside inside

/-- A program under construction, with the number of the step it is entered by. -/
abbrev Code := Array Step × Nat

/-- Adds a step and enters there. -/
def addStep (steps : Array Step) (s : Step) : Code :=
  let entry := steps.size
  (steps.push s, entry)

/-- Adds a loop: its branch comes before the body, which leads back to it. The code is entered by
the body, so it is run once at least; the number of the branch is returned too. -/
def addLoop (body : Array Step → Nat → Code) (greedy : Bool) (steps : Array Step) (next : Nat) :
    Code × Nat :=
  let again := steps.size
  let (steps, entry) := body (steps.push .accept) again
  ((steps.setIfInBounds again (branch greedy entry next), entry), again)

/-- Adds `n` copies of a body, one in front of the other. -/
def addCopies (body : Array Step → Nat → Code) : Nat → Array Step → Nat → Code
  | 0, steps, next => (steps, next)
  | n + 1, steps, next =>
    let (steps, entry) := body steps next
    addCopies body n steps entry

/-- Adds up to `n` copies of a body, each of which may end the repetition. -/
def addOptional (body : Array Step → Nat → Code) (greedy : Bool) (outside : Nat) :
    Nat → Array Step → Nat → Code
  | 0, steps, next => (steps, next)
  | n + 1, steps, next =>
    let (steps, entry) := body steps next
    let (steps, entry) := addStep steps (branch greedy entry outside)
    addOptional body greedy outside n steps entry

/-- Adds the steps of a pattern in front of those that follow it. -/
def compile : Pattern → Array Step → Nat → Code
  | .empty, steps, next => (steps, next)
  | .char s, steps, next => addStep steps (.char s next)
  | .start, steps, next => addStep steps (.start next)
  | .finish, steps, next => addStep steps (.finish next)
  | .group a, steps, next => a.compile steps next
  | .seq a b, steps, next =>
    let (steps, entry) := b.compile steps next
    a.compile steps entry
  | .either a b, steps, next =>
    let (steps, first) := a.compile steps next
    let (steps, second) := b.compile steps next
    addStep steps (.either first second)
  | .repeated a least none greedy, steps, next =>
    let ((steps, entry), again) := addLoop a.compile greedy steps next
    if least = 0 then
      if a.nullable then addStep steps (branch greedy entry next) else (steps, again)
    else addCopies a.compile (least - 1) steps entry
  | .repeated a least (some most) greedy, steps, next =>
    let (steps, entry) := addOptional a.compile greedy next (most - least) steps next
    addCopies a.compile least steps entry

/-- The program of a pattern. -/
def program (p : Pattern) : Code :=
  p.compile #[.accept] 0

/-! ## Searching -/

/-- Steps taken at places of a text. -/
abbrev Seen := Std.HashSet (Nat × Nat)

/-- The end of the preferred match among pending steps, each given with a place, the preferred one
first. Those in `seen` are not taken again, and `fuel` bounds the number of the others. -/
def run (steps : Array Step) (text : Array Char) :
    Nat → List (Nat × Nat) → Seen → Option Nat × Seen
  | 0, _, seen => (none, seen)
  | _ + 1, [], seen => (none, seen)
  | fuel + 1, (step, place) :: rest, seen =>
    if seen.contains (step, place) then run steps text fuel rest seen
    else
      let seen := seen.insert (step, place)
      match steps.getD step .accept with
      | .accept => (some place, seen)
      | .char s next =>
        if (text[place]?).any s.contains then run steps text fuel ((next, place + 1) :: rest) seen
        else run steps text fuel rest seen
      | .start next =>
        if place = 0 then run steps text fuel ((next, place) :: rest) seen
        else run steps text fuel rest seen
      | .finish next =>
        if place = text.size then run steps text fuel ((next, place) :: rest) seen
        else run steps text fuel rest seen
      | .either first second =>
        run steps text fuel ((first, place) :: (second, place) :: rest) seen

/-- The first match at one of `n` places from `start` on: its two ends. -/
def searchFrom (code : Code) (text : Array Char) (start : Nat) (seen : Seen) :
    Nat → Option (Nat × Nat)
  | 0 => none
  | n + 1 =>
    let fuel := 2 * code.1.size * (text.size + 1) + 2
    match run code.1 text fuel [(code.2, start)] seen with
    | (some stop, _) => some (start, stop)
    | (none, seen) => searchFrom code text (start + 1) seen n

/-- The first match that begins at `start` or behind it. -/
def search (code : Code) (text : Array Char) (start : Nat) : Option (Nat × Nat) :=
  searchFrom code text start ∅ (text.size + 1 - start)

/-- The matches from `start` on, none of which overlap. An empty match at the end of the one before,
`last`, is passed over; `fuel` bounds their number. -/
def matchesFrom (code : Code) (text : Array Char) (start : Nat) (last : Option Nat) :
    Nat → List (Nat × Nat)
  | 0 => []
  | fuel + 1 =>
    let found := match search code text start with
      | some (a, b) => if a = b ∧ some b = last then search code text (start + 1) else some (a, b)
      | none => none
    match found with
    | none => []
    | some (a, b) => (a, b) :: matchesFrom code text b (some b) fuel

/-- The matches of a pattern in a text. -/
def matchesIn (p : Pattern) (text : Array Char) : List (Nat × Nat) :=
  matchesFrom p.program text 0 none (text.size + 2)

/-! ## Replacing -/

/-- The text from `start` on with the given matches replaced. -/
def replaceMatches (text : List Char) (replacement : List Char) (start : Nat) :
    List (Nat × Nat) → List Char
  | [] => text.drop start
  | (a, b) :: rest =>
    (text.drop start).take (a - start) ++ replacement ++ replaceMatches text replacement b rest

/-- A text with every match replaced, and how many there were. The replacement stands as it is. -/
def replace (p : Pattern) (replacement text : String) : String × Nat :=
  let found := p.matchesIn text.toList.toArray
  (String.ofList (replaceMatches text.toList replacement.toList 0 found), found.length)

end Triage.Pattern
