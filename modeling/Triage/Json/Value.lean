/-
JSON values and their two written forms: on one line, or with one member or element to a line.
Members keep the order they were put in.
-/
import Triage.Decimal.Layout

namespace Triage.Json

/-- A number: whole numbers keep their exact value, and a single is kept as one because its digits
differ from those of the double of the same value. -/
inductive Number where
  | natural (n : Nat)
  | negative (n : Nat)
  | single (x : Float32)
  | double (x : Float)
  deriving DecidableEq

/-- A JSON value. -/
inductive Value where
  | null
  | bool (b : Bool)
  | number (n : Number)
  | text (s : String)
  | array (items : List Value)
  | object (members : List (String × Value))

/-! ## Numbers and strings -/

/-- Singles: a point alone for numbers from a millionth to ten billions of thousands. -/
def singleLayout : Decimal.Layout := ⟨some (-6), some 12, true, .toEven⟩

/-- Doubles: a point alone for numbers from a hundred-thousandth to below ten to the sixteenth. -/
def doubleLayout : Decimal.Layout := ⟨some (-5), some 15, true, .toEven⟩

/-- A number as text; what is not finite has no number and is written as null. -/
def Number.text : Number → String
  | .natural n => String.ofList (Decimal.digitsOf n)
  | .negative n => String.ofList ('-' :: Decimal.digitsOf n)
  | .single x => if x.isFinite then singleLayout.single x else "null"
  | .double x => if x.isFinite then doubleLayout.double x else "null"

/-- One character inside a string. -/
def escapeChar (c : Char) : List Char :=
  if c = '"' then ['\\', '"']
  else if c = '\\' then ['\\', '\\']
  else if c = '\x08' then ['\\', 'b']
  else if c = '\x0c' then ['\\', 'f']
  else if c = '\n' then ['\\', 'n']
  else if c = '\r' then ['\\', 'r']
  else if c = '\t' then ['\\', 't']
  else if c.toNat < 0x20 then
    let digits := Nat.toDigits 16 c.toNat
    ['\\', 'u'] ++ List.replicate (4 - digits.length) '0' ++ digits
  else [c]

/-- A string in quotes. -/
def escape (s : String) : String :=
  String.ofList ('"' :: s.toList.flatMap escapeChar ++ ['"'])

/-! ## On one line -/

mutual

/-- A value without any blanks. -/
def Value.compact : Value → String
  | .null => "null"
  | .bool b => if b then "true" else "false"
  | .number n => n.text
  | .text s => escape s
  | .array items => "[" ++ ",".intercalate (compactItems items) ++ "]"
  | .object members => "\x7b" ++ ",".intercalate (compactMembers members) ++ "\x7d"

def compactItems : List Value → List String
  | [] => []
  | v :: rest => v.compact :: compactItems rest

def compactMembers : List (String × Value) → List String
  | [] => []
  | (key, v) :: rest => (escape key ++ ":" ++ v.compact) :: compactMembers rest

end

/-! ## One to a line -/

/-- The start of a line, two blanks for each level. -/
def indent (level : Nat) : String :=
  String.ofList ('\n' :: List.replicate (2 * level) ' ')

/-- Items between brackets, each on its own line. -/
def bracketed (opening closing : String) (level : Nat) (items : List String) : String :=
  if items.isEmpty then opening ++ closing
  else opening ++ ",".intercalate (items.map (indent (level + 1) ++ ·)) ++ indent level ++ closing

mutual

/-- A value with one element or member to a line, `level` being the depth it stands at. -/
def Value.prettyAt (level : Nat) : Value → String
  | .null => "null"
  | .bool b => if b then "true" else "false"
  | .number n => n.text
  | .text s => escape s
  | .array items => bracketed "[" "]" level (prettyItems (level + 1) items)
  | .object members => bracketed "\x7b" "\x7d" level (prettyMembers (level + 1) members)

def prettyItems (level : Nat) : List Value → List String
  | [] => []
  | v :: rest => v.prettyAt level :: prettyItems level rest

def prettyMembers (level : Nat) : List (String × Value) → List String
  | [] => []
  | (key, v) :: rest => (escape key ++ ": " ++ v.prettyAt level) :: prettyMembers level rest

end

/-- A value with one element or member to a line. -/
def Value.pretty (v : Value) : String :=
  v.prettyAt 0

/-! ## Members -/

/-- A member of an object. -/
def Value.get? (v : Value) (key : String) : Option Value :=
  match v with
  | .object members => members.lookup key
  | _ => none

/-- Puts a member where its key belongs in ascending order, in place of one of the same key. -/
def insertMember {α : Type} (key : String) (v : α) : List (String × α) → List (String × α)
  | [] => [(key, v)]
  | (k, w) :: rest =>
    if key < k then (key, v) :: (k, w) :: rest
    else if key = k then (key, v) :: rest
    else (k, w) :: insertMember key v rest

/-- Members in ascending order of their keys; of a repeated key the last one stays. -/
def sortMembers {α : Type} (members : List (String × α)) : List (String × α) :=
  members.foldl (fun acc m => insertMember m.1 m.2 acc) []

end Triage.Json
