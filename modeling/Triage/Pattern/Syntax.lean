/-
How patterns are written. `|` separates alternatives, a quantifier follows what it repeats and takes
as many as it can unless a question mark follows, brackets hold a class of characters, and a
backslash makes a punctuation mark ordinary or names a class.
-/
import Triage.Decimal.Literal
import Triage.Error
import Triage.Pattern.Basic

namespace Triage.Pattern

/-! ## Escapes -/

/-- What an escape stands for: a character or a class. -/
inductive Escaped where
  | char (c : Char)
  | set (ranges : Text.Ranges)

/-- The class of what an escape stands for. -/
def Escaped.charSet : Escaped → CharSet
  | .char c => .only c
  | .set ranges => .within ranges

/-- The meaning of a character behind a backslash. -/
def escaped? (c : Char) : Option Escaped :=
  match c with
  | 'd' => some (.set Text.decimalRanges)
  | 'D' => some (.set (CharSet.complementFrom 0 Text.decimalRanges))
  | 's' => some (.set Text.blankRanges)
  | 'S' => some (.set (CharSet.complementFrom 0 Text.blankRanges))
  | 'n' => some (.char '\n')
  | 't' => some (.char '\t')
  | 'r' => some (.char '\r')
  | 'f' => some (.char '\x0c')
  | 'v' => some (.char '\x0b')
  | 'a' => some (.char '\x07')
  | '<' | '>' => none
  | c => if c.toNat < 128 && !c.isAlphanum then some (.char c) else none

/-! ## Classes in brackets -/

/-- One item of a class: an escape or a character as it is. -/
def classItem : List Char → Option (Escaped × List Char)
  | [] => none
  | '\\' :: c :: rest => (escaped? c).map (·, rest)
  | ['\\'] => none
  | c :: rest => some (.char c, rest)

/-- An item of a class, or a range between two characters. A dash in front of the closing bracket
or of another dash makes no range. -/
def classRange (cs : List Char) : Option (CharSet × List Char) := do
  let (first, rest) ← classItem cs
  match rest with
  | '-' :: ']' :: _ | '-' :: '-' :: _ => pure (first.charSet, rest)
  | '-' :: rest =>
    match first, ← classItem rest with
    | .char low, (.char high, rest) =>
      if high < low then none else pure (.within [(low.toNat, high.toNat)], rest)
    | _, _ => none
  | rest => pure (first.charSet, rest)

/-- The classes that go by a name. -/
def namedRanges? : String → Option Text.Ranges
  | "alnum" => some [(0x30, 0x39), (0x41, 0x5a), (0x61, 0x7a)]
  | "alpha" => some [(0x41, 0x5a), (0x61, 0x7a)]
  | "ascii" => some [(0x00, 0x7f)]
  | "blank" => some [(0x09, 0x09), (0x20, 0x20)]
  | "cntrl" => some [(0x00, 0x1f), (0x7f, 0x7f)]
  | "digit" => some [(0x30, 0x39)]
  | "graph" => some [(0x21, 0x7e)]
  | "lower" => some [(0x61, 0x7a)]
  | "print" => some [(0x20, 0x7e)]
  | "punct" => some [(0x21, 0x2f), (0x3a, 0x40), (0x5b, 0x60), (0x7b, 0x7e)]
  | "space" => some [(0x09, 0x0d), (0x20, 0x20)]
  | "upper" => some [(0x41, 0x5a)]
  | "word" => some [(0x30, 0x39), (0x41, 0x5a), (0x5f, 0x5f), (0x61, 0x7a)]
  | "xdigit" => some [(0x30, 0x39), (0x41, 0x46), (0x61, 0x66)]
  | _ => none

/-- Whether a circumflex comes first, and what follows it. -/
def spanNegation : List Char → Bool × List Char
  | '^' :: rest => (true, rest)
  | rest => (false, rest)

/-- A class that goes by a name, behind its opening bracket: the name stands between colons. -/
def namedClass : List Char → Option (CharSet × List Char)
  | ':' :: cs => do
    let (negated, cs) := spanNegation cs
    let name := cs.takeWhile (· ≠ ':')
    match cs.drop name.length with
    | ':' :: ']' :: rest =>
      let ranges ← namedRanges? (String.ofList name)
      pure (.within (if negated then CharSet.complementFrom 0 ranges else ranges), rest)
    | _ => none
  | _ => none

/-- What stands first in a class as it is: dashes, or else a closing bracket. -/
def leadingItems (cs : List Char) : List Char × List Char :=
  match cs with
  | ']' :: rest => ([']'], rest)
  | cs => (cs.takeWhile (· = '-'), cs.dropWhile (· = '-'))

mutual

/-- A class behind its opening bracket; `fuel` bounds its items and its depth. -/
def classBody : Nat → List Char → Option (CharSet × List Char)
  | 0, _ => none
  | fuel + 1, cs => do
    let (negated, cs) := spanNegation cs
    let (items, cs) := leadingItems cs
    let (a, rest) ← classRest fuel id (items.map .only) cs
    pure (.bracketed negated a, rest)

/-- The rest of a class behind some of its items, the last one first; `join` tells what becomes of
them, according to what stands before the last operator. -/
def classRest : Nat → (CharSet → CharSet) → List CharSet → List Char → Option (CharSet × List Char)
  | 0, _, _, _ => none
  | fuel + 1, join, items, cs =>
    let joined := join (.ofList items.reverse)
    match cs with
    | ']' :: rest => some (joined, rest)
    | '&' :: '&' :: rest => classRest fuel (.both joined) [] rest
    | '-' :: '-' :: rest => classRest fuel (.without joined) [] rest
    | '~' :: '~' :: rest => classRest fuel (.apart joined) [] rest
    | '[' :: rest => do
      let (s, rest) ← namedClass rest <|> classBody fuel rest
      classRest fuel join (s :: items) rest
    | cs => do
      let (s, rest) ← classRange cs
      classRest fuel join (s :: items) rest

end

/-! ## Quantifiers -/

/-- A number in braces, blanks around it passed over. It has to fit in 32 bits. -/
def bound? (cs : List Char) : Option (Nat × List Char) :=
  let (digits, rest) := Decimal.spanDigits (cs.dropWhile Text.isBlank)
  let n := Decimal.naturalOf digits
  if digits.isEmpty || UInt32.size ≤ n then none else some (n, rest.dropWhile Text.isBlank)

/-- The bounds in braces, the opening one already read. -/
def bounds? (cs : List Char) : Option (Nat × Option Nat × List Char) := do
  let (least, rest) ← bound? cs
  match rest with
  | '\x7d' :: rest => pure (least, some least, rest)
  | ',' :: '\x7d' :: rest => pure (least, none, rest)
  | ',' :: rest =>
    match ← bound? rest with
    | (most, '\x7d' :: rest) => if most < least then none else pure (least, some most, rest)
    | _ => none
  | _ => none

/-- A pattern repeated, and what follows the quantifier. -/
def quantified (a : Pattern) (least : Nat) (most : Option Nat) : List Char → Pattern × List Char
  | '?' :: rest => (a.times least most false, rest)
  | rest => (a.times least most true, rest)

/-- The quantifiers behind a pattern; `fuel` bounds their number. -/
def quantifiers (a : Pattern) : Nat → List Char → Option (Pattern × List Char)
  | 0, cs => some (a, cs)
  | fuel + 1, cs =>
    match cs with
    | '*' :: rest => let (b, rest) := quantified a 0 none rest; quantifiers b fuel rest
    | '+' :: rest => let (b, rest) := quantified a 1 none rest; quantifiers b fuel rest
    | '?' :: rest => let (b, rest) := quantified a 0 (some 1) rest; quantifiers b fuel rest
    | '\x7b' :: rest => do
      let (least, most, rest) ← bounds? rest
      let (b, rest) := quantified a least most rest
      quantifiers b fuel rest
    | _ => some (a, cs)

/-! ## Patterns as written -/

mutual

/-- Alternatives, up to a closing parenthesis or the end; `fuel` bounds the depth. -/
def alternatives : Nat → List Char → Option (Pattern × List Char)
  | 0, _ => none
  | fuel + 1, cs => do
    let (a, rest) ← sequence fuel cs
    match rest with
    | '|' :: rest =>
      let (b, rest) ← alternatives fuel rest
      pure (.either a b, rest)
    | rest => pure (a, rest)

/-- Pieces one after the other. -/
def sequence : Nat → List Char → Option (Pattern × List Char)
  | 0, _ => none
  | fuel + 1, cs =>
    match cs with
    | [] | '|' :: _ | ')' :: _ => some (.empty, cs)
    | cs => do
      let (a, rest) ← piece fuel cs
      let (a, rest) ← quantifiers a rest.length rest
      match ← sequence fuel rest with
      | (.empty, rest) => pure (a, rest)
      | (b, rest) => pure (.seq a b, rest)

/-- One piece without its quantifiers. -/
def piece : Nat → List Char → Option (Pattern × List Char)
  | 0, _ => none
  | fuel + 1, cs =>
    match cs with
    | [] | '*' :: _ | '+' :: _ | '?' :: _ | '\x7b' :: _ => none
    | '(' :: '?' :: ':' :: rest | '(' :: rest => do
      match ← alternatives fuel rest with
      | (a, ')' :: rest) => pure (.group a, rest)
      | _ => none
    | '[' :: rest => (classBody (2 * rest.length + 2) rest).map fun (s, rest) => (.char s, rest)
    | '.' :: rest => some (.char .anyInLine, rest)
    | '^' :: rest => some (.start, rest)
    | '$' :: rest => some (.finish, rest)
    | '\\' :: c :: rest => (escaped? c).map fun e => (.char e.charSet, rest)
    | ['\\'] => none
    | c :: rest => some (.char (.only c), rest)

end

/-- The pattern a text writes, if it is not too large. -/
def ofText (text : String) : Except Error Pattern :=
  match alternatives (3 * text.length + 3) text.toList with
  | some (a, []) => if a.fits then .ok a else .error .pattern
  | _ => .error .pattern

end Triage.Pattern
