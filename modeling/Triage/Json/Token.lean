/-
The tokens of a JSON text. Where no token can be read, the mark `broken` stands in the list and ends
it, so that a reader meets the fault only when it gets there.
-/
import Triage.Decimal.Literal
import Triage.Json.Value

namespace Triage.Json

/-- A token. A number beyond the range of doubles and a string with half a surrogate pair are tokens
without a value: they may stand where nobody asks for one. -/
inductive Token where
  /-- The start of an object, with the number of its members where that is known beforehand. -/
  | openObject (members : Option Nat)
  | closeObject
  | openArray
  | closeArray
  | comma
  | colon
  | null
  | bool (b : Bool)
  | number (n : Option Number)
  | text (s : Option String)
  | broken
  deriving DecidableEq

/-! ## Strings -/

/-- A piece of a string: a character, or the code unit an escape names. -/
inductive Piece where
  | char (c : Char)
  | unit (n : Nat)

/-- The value of a hexadecimal digit. -/
def hexValue? (c : Char) : Option Nat :=
  if '0' ≤ c ∧ c ≤ '9' then some (c.toNat - '0'.toNat)
  else if 'a' ≤ c ∧ c ≤ 'f' then some (c.toNat - 'a'.toNat + 10)
  else if 'A' ≤ c ∧ c ≤ 'F' then some (c.toNat - 'A'.toNat + 10)
  else none

/-- The code unit of four hexadecimal digits. -/
def unit? (a b c d : Char) : Option Nat := do
  pure ((((← hexValue? a) * 16 + (← hexValue? b)) * 16 + (← hexValue? c)) * 16 + (← hexValue? d))

/-- The character of a short escape. -/
def shortEscape? (c : Char) : Option Char :=
  match c with
  | '"' => some '"'
  | '\\' => some '\\'
  | '/' => some '/'
  | 'b' => some '\x08'
  | 'f' => some '\x0c'
  | 'n' => some '\n'
  | 'r' => some '\r'
  | 't' => some '\t'
  | _ => none

/-- The pieces of a string up to its closing quote, and what follows that. -/
def scanString : List Char → Option (List Piece × List Char)
  | [] => none
  | '"' :: rest => some ([], rest)
  | '\\' :: 'u' :: a :: b :: c :: d :: rest => do
    let n ← unit? a b c d
    let (pieces, rest) ← scanString rest
    pure (.unit n :: pieces, rest)
  | '\\' :: c :: rest => do
    let c ← shortEscape? c
    let (pieces, rest) ← scanString rest
    pure (.char c :: pieces, rest)
  | c :: rest => do
    if c.toNat < 0x20 then none
    let (pieces, rest) ← scanString rest
    pure (.char c :: pieces, rest)

/-- Whether a code unit is the first, or the second, of a surrogate pair. -/
def isHigh (n : Nat) : Bool := 0xd800 ≤ n && n < 0xdc00
def isLow (n : Nat) : Bool := 0xdc00 ≤ n && n < 0xe000

/-- The characters of pieces; none if half a surrogate pair is among them. -/
def assemble : List Piece → Option (List Char)
  | [] => some []
  | .char c :: rest => (assemble rest).map (c :: ·)
  | .unit n :: rest =>
    if isHigh n then
      match rest with
      | .unit m :: rest =>
        if isLow m then
          (assemble rest).map (Char.ofNat (0x10000 + (n - 0xd800) * 0x400 + (m - 0xdc00)) :: ·)
        else none
      | _ => none
    else if isLow n then none
    else (assemble rest).map (Char.ofNat n :: ·)

/-! ## Numbers -/

/-- Adds decimal digits to a significand as long as it keeps within 64 bits: the significand, and
the number of digits left out. -/
def absorb (n : Nat) : List Char → Nat × Nat
  | [] => (n, 0)
  | c :: rest =>
    let m := n * 10 + (c.toNat - '0'.toNat)
    if m < UInt64.size then absorb m rest else (n, rest.length + 1)

/-- The double nearest to a power of ten. -/
def powerOfTen (k : Nat) : Float :=
  Float.ofScientific 1 false k

/-- A double times a power of ten, rounded at each multiplication or division, of which there is one
unless the power is too small for a double itself; none if the result is too large. -/
def scale (x : Float) (e : Int) : Option Float :=
  if e.natAbs ≤ 308 then
    if e < 0 then some (x / powerOfTen e.natAbs)
    else
      let y := x * powerOfTen e.natAbs
      if y.isFinite then some y else none
  else if x == 0 then some x
  else if 0 ≤ e then none
  else scale (x / powerOfTen 308) (e + 308)
termination_by e.natAbs
decreasing_by omega

/-- A double with a sign. -/
def signed (negative : Bool) (x : Float) : Number :=
  .double (if negative then -x else x)

/-- A whole number from its digits. One of more than 64 bits is kept as a double. -/
def wholeNumber (negative : Bool) (digits : List Char) : Option Number :=
  let (n, left) := absorb 0 digits
  if left = 0 then
    if !negative then some (.natural n)
    else if 0 < n ∧ n ≤ UInt64.size / 2 then some (.negative n)
    else some (signed true (Float.ofNat n))
  else (scale (Float.ofNat n) left).map (signed negative)

/-- A number with a fraction or an exponent, from the digits before and behind the point. -/
def realNumber (negative : Bool) (whole places : List Char) (e : Int) : Option Number :=
  let (n, left) := absorb 0 whole
  let (n, missed) := absorb n places
  (scale (Float.ofNat n) (e + left + missed - places.length)).map (signed negative)

/-- An exponent, its `e` already read: none if there are no digits. -/
def scanExponent (cs : List Char) : Option (Int × List Char) :=
  let (negative, rest) := Decimal.spanSign cs
  let (digits, rest) := Decimal.spanDigits rest
  if digits.isEmpty then none
  else
    let e : Int := Decimal.naturalOf digits
    some (if negative then -e else e, rest)

/-- What may follow the whole part of a number: a fraction with its digits, and an exponent. -/
def scanTail (cs : List Char) : Option (Option (List Char) × Option Int × List Char) := do
  let (fraction, rest) ← match cs with
    | '.' :: rest =>
      let (digits, rest) := Decimal.spanDigits rest
      if digits.isEmpty then none else some (some digits, rest)
    | rest => some (none, rest)
  match rest with
  | 'e' :: rest | 'E' :: rest => do
    let (e, rest) ← scanExponent rest
    pure (fraction, some e, rest)
  | rest => pure (fraction, none, rest)

/-- A number without its sign: its digits have no needless zero in front. -/
def scanNumber (negative : Bool) (cs : List Char) : Option (Option Number × List Char) := do
  let (whole, rest) := Decimal.spanDigits cs
  if whole.isEmpty || (whole.length > 1 && whole.head? == some '0') then none
  let (fraction, e, rest) ← scanTail rest
  match fraction, e with
  | none, none => pure (wholeNumber negative whole, rest)
  | _, _ => pure (realNumber negative whole (fraction.getD []) (e.getD 0), rest)

/-! ## Texts -/

/-- Whether a character may stand between tokens. -/
def isSpace (c : Char) : Bool :=
  c == ' ' || c == '\n' || c == '\t' || c == '\r'

/-- The first token of a text that begins with one, and what follows it. -/
def scanToken : List Char → Option (Token × List Char)
  | '\x7b' :: rest => some (.openObject none, rest)
  | '\x7d' :: rest => some (.closeObject, rest)
  | '[' :: rest => some (.openArray, rest)
  | ']' :: rest => some (.closeArray, rest)
  | ',' :: rest => some (.comma, rest)
  | ':' :: rest => some (.colon, rest)
  | 'n' :: 'u' :: 'l' :: 'l' :: rest => some (.null, rest)
  | 't' :: 'r' :: 'u' :: 'e' :: rest => some (.bool true, rest)
  | 'f' :: 'a' :: 'l' :: 's' :: 'e' :: rest => some (.bool false, rest)
  | '"' :: rest => (scanString rest).map fun (pieces, rest) =>
    (.text ((assemble pieces).map String.ofList), rest)
  | '-' :: rest => (scanNumber true rest).map fun (n, rest) => (.number n, rest)
  | cs => (scanNumber false cs).map fun (n, rest) => (.number n, rest)

/-- The tokens of a text; each takes at least one character, so `fuel` need not exceed its
length. -/
def scan : Nat → List Char → List Token
  | 0, _ => []
  | fuel + 1, cs =>
    match cs.dropWhile isSpace with
    | [] => []
    | rest =>
      match scanToken rest with
      | some (t, rest) => t :: scan fuel rest
      | none => [.broken]

/-- The tokens of a text. -/
def tokens (s : String) : List Token :=
  scan s.length s.toList

end Triage.Json
