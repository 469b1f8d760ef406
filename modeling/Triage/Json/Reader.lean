/-
Readers of JSON: each takes a value off the front of a list of tokens, or stops at the first fault
in the order of the document. What is not asked for is skipped, but has to be well formed.
-/
import Triage.Error
import Triage.Json.Token

namespace Triage.Json

/-- Takes a value off the front of the tokens. -/
abbrev Reader (α : Type) := List Token → Except JsonFault (α × List Token)

/-! ## Skipping -/

mutual

/-- Skips a value; `fuel` bounds the tokens in it. -/
def skipValue : Nat → List Token → Except JsonFault (List Token)
  | 0, _ => .error .malformed
  | fuel + 1, t :: rest =>
    match t with
    | .null | .bool _ | .number _ | .text _ => .ok rest
    | .openArray =>
      match rest with
      | .closeArray :: rest => .ok rest
      | rest => skipItems fuel rest
    | .openObject _ =>
      match rest with
      | .closeObject :: rest => .ok rest
      | rest => skipMembers fuel rest
    | _ => .error .malformed
  | _ + 1, [] => .error .malformed

/-- Skips the items of an array and its end. -/
def skipItems : Nat → List Token → Except JsonFault (List Token)
  | 0, _ => .error .malformed
  | fuel + 1, ts =>
    match skipValue fuel ts with
    | .error f => .error f
    | .ok (.comma :: rest) => skipItems fuel rest
    | .ok (.closeArray :: rest) => .ok rest
    | .ok _ => .error .malformed

/-- Skips the members of an object and its end. -/
def skipMembers : Nat → List Token → Except JsonFault (List Token)
  | 0, _ => .error .malformed
  | fuel + 1, .text _ :: .colon :: ts =>
    match skipValue fuel ts with
    | .error f => .error f
    | .ok (.comma :: rest) => skipMembers fuel rest
    | .ok (.closeObject :: rest) => .ok rest
    | .ok _ => .error .malformed
  | _ + 1, _ => .error .malformed

end

/-- Skips a value. -/
def skip (ts : List Token) : Except JsonFault (List Token) :=
  skipValue (2 * ts.length) ts

/-! ## Single values -/

/-- A whole number of at most 64 bits. -/
def readNatural : Reader Nat
  | .number (some (.natural n)) :: rest => .ok (n, rest)
  | _ => .error .malformed

/-- The double of a number. -/
def Number.toDouble : Number → Float
  | .natural n => Float.ofNat n
  | .negative n => -Float.ofNat n
  | .single x => Triage.Number.widen x
  | .double x => x

/-- The single of a number. -/
def Number.toSingle : Number → Float32
  | .natural n => Float32.ofNat n
  | .negative n => -Float32.ofNat n
  | .single x => x
  | .double x => Triage.Number.narrow x

def readDouble : Reader Float
  | .number (some n) :: rest => .ok (n.toDouble, rest)
  | _ => .error .malformed

def readSingle : Reader Float32
  | .number (some n) :: rest => .ok (n.toSingle, rest)
  | _ => .error .malformed

def readBool : Reader Bool
  | .bool b :: rest => .ok (b, rest)
  | _ => .error .malformed

/-- One of the values with a name: the name alone, or an object of that name and null. An object
known to have other members is refused before its name is looked at. -/
def readNamed {α : Type} (named : String → Option α) : Reader α
  | .text (some name) :: rest =>
    match named name with
    | some a => .ok (a, rest)
    | none => .error (.unknownVariant name)
  | .openObject members :: .text (some name) :: rest =>
    if members.any (· ≠ 1) then .error .malformed
    else
      match named name with
      | none => .error (.unknownVariant name)
      | some a =>
        match rest with
        | .colon :: .null :: .closeObject :: rest => .ok (a, rest)
        | _ => .error .malformed
  | _ => .error .malformed

/-! ## Arrays -/

/-- The items of an array, at least one, and its end; `fuel` bounds their number. -/
def readItems {α : Type} (item : Reader α) : Nat → Reader (List α)
  | 0, _ => .error .malformed
  | fuel + 1, ts => do
    let (a, rest) ← item ts
    match rest with
    | .comma :: rest =>
      let (as, rest) ← readItems item fuel rest
      pure (a :: as, rest)
    | .closeArray :: rest => pure ([a], rest)
    | _ => .error .malformed

/-- An array of values of one kind. -/
def readList {α : Type} (item : Reader α) : Reader (List α)
  | .openArray :: .closeArray :: rest => .ok ([], rest)
  | .openArray :: rest => readItems item rest.length rest
  | _ => .error .malformed

/-! ## Records -/

/-- A field of a record under construction. -/
structure FieldReader (σ : Type) where
  name : String
  read : σ → Reader σ

/-- A field read by itself and then put into the record. -/
def FieldReader.of {σ α : Type} (name : String) (read : Reader α) (put : α → σ → σ) :
    FieldReader σ :=
  ⟨name, fun acc ts => (read ts).map fun (a, rest) => (put a acc, rest)⟩

/-- The fields a record was given, with the record made of them. -/
abbrev Given (σ : Type) := σ × List String

/-- The members of an object, at least one, and its end. A known field may stand once; other members
are skipped. -/
def readMembers {σ : Type} (fields : List (FieldReader σ)) (given : List String) (acc : σ) :
    Nat → Reader (Given σ)
  | 0, _ => .error .malformed
  | fuel + 1, .text (some key) :: ts =>
    match fields.find? (·.name == key) with
    | some f =>
      if given.contains key then .error (.duplicateField key)
      else
        match ts with
        | .colon :: ts =>
          match f.read acc ts with
          | .error fault => .error fault
          | .ok (acc, .comma :: rest) => readMembers fields (key :: given) acc fuel rest
          | .ok (acc, .closeObject :: rest) => .ok ((acc, key :: given), rest)
          | .ok _ => .error .malformed
        | _ => .error .malformed
    | none =>
      match ts with
      | .colon :: ts =>
        match skip ts with
        | .error fault => .error fault
        | .ok (.comma :: rest) => readMembers fields given acc fuel rest
        | .ok (.closeObject :: rest) => .ok ((acc, given), rest)
        | .ok _ => .error .malformed
      | _ => .error .malformed
  | _ + 1, _ => .error .malformed

/-- The fields of a record given as an array, in their order, and its end. A shorter array leaves
out the last fields, a longer one is refused. -/
def readPositions {σ : Type} (given : List String) (acc : σ) :
    List (FieldReader σ) → Reader (Given σ)
  | [], _ => .error .malformed
  | f :: fields, ts =>
    match f.read acc ts with
    | .error fault => .error fault
    | .ok (acc, .comma :: rest) => readPositions (f.name :: given) acc fields rest
    | .ok (acc, .closeArray :: rest) => .ok ((acc, f.name :: given), rest)
    | .ok _ => .error .malformed

/-- A record, given as an object or as an array of its fields in order. -/
def readRecord {σ : Type} (fields : List (FieldReader σ)) (start : σ) : Reader (Given σ)
  | .openObject _ :: .closeObject :: rest => .ok ((start, []), rest)
  | .openObject _ :: rest => readMembers fields [] start rest.length rest
  | .openArray :: .closeArray :: rest => .ok ((start, []), rest)
  | .openArray :: rest => readPositions [] start fields rest
  | _ => .error .malformed

/-- A record whose fields all have a default. -/
def readDefaulted {σ : Type} (fields : List (FieldReader σ)) (start : σ) : Reader σ := fun ts => do
  let ((acc, _), rest) ← readRecord fields start ts
  pure (acc, rest)

/-- A record whose fields must all be given: the first that an object lacks is named. -/
def readComplete {σ : Type} (fields : List (FieldReader σ)) (start : σ) : Reader σ := fun ts => do
  let ((acc, given), rest) ← readRecord fields start ts
  match fields.find? fun f => !given.contains f.name with
  | none => pure (acc, rest)
  | some f =>
    match ts with
    | .openObject _ :: _ => .error (.missingField f.name)
    | _ => .error .malformed

/-! ## Whole documents -/

/-- Reads a document that holds one value and nothing after it. -/
def readAll {α : Type} (r : Reader α) (ts : List Token) : Except JsonFault α :=
  match r ts with
  | .error f => .error f
  | .ok (a, []) => .ok a
  | .ok _ => .error .malformed

mutual

/-- Any value; `fuel` bounds the tokens in it. -/
def readValue : Nat → Reader Value
  | 0, _ => .error .malformed
  | fuel + 1, t :: rest =>
    match t with
    | .null => .ok (.null, rest)
    | .bool b => .ok (.bool b, rest)
    | .number (some n) => .ok (.number n, rest)
    | .text (some s) => .ok (.text s, rest)
    | .openArray =>
      match rest with
      | .closeArray :: rest => .ok (.array [], rest)
      | rest => (readValues fuel rest).map fun (vs, rest) => (.array vs, rest)
    | .openObject _ =>
      match rest with
      | .closeObject :: rest => .ok (.object [], rest)
      | rest => (readEntries fuel rest).map fun (ms, rest) => (.object (sortMembers ms), rest)
    | _ => .error .malformed
  | _ + 1, [] => .error .malformed

/-- The items of an array and its end. -/
def readValues : Nat → Reader (List Value)
  | 0, _ => .error .malformed
  | fuel + 1, ts =>
    match readValue fuel ts with
    | .error f => .error f
    | .ok (v, .comma :: rest) => (readValues fuel rest).map fun (vs, rest) => (v :: vs, rest)
    | .ok (v, .closeArray :: rest) => .ok ([v], rest)
    | .ok _ => .error .malformed

/-- The members of an object and its end. -/
def readEntries : Nat → Reader (List (String × Value))
  | 0, _ => .error .malformed
  | fuel + 1, .text (some key) :: .colon :: ts =>
    match readValue fuel ts with
    | .error f => .error f
    | .ok (v, .comma :: rest) =>
      (readEntries fuel rest).map fun (ms, rest) => ((key, v) :: ms, rest)
    | .ok (v, .closeObject :: rest) => .ok ([(key, v)], rest)
    | .ok _ => .error .malformed
  | _ + 1, _ => .error .malformed

end

/-- The value of a document, with the members of its objects in ascending order. -/
def Value.parse (s : String) : Except JsonFault Value :=
  let ts := tokens s
  readAll (readValue (2 * ts.length)) ts

mutual

/-- The tokens of a value. -/
def Value.toTokens : Value → List Token
  | .null => [.null]
  | .bool b => [.bool b]
  | .number n => [.number (some n)]
  | .text s => [.text (some s)]
  | .array items => .openArray :: itemTokens items
  | .object members => .openObject (some members.length) :: memberTokens members

def itemTokens : List Value → List Token
  | [] => [.closeArray]
  | [v] => v.toTokens ++ [.closeArray]
  | v :: w :: rest => v.toTokens ++ .comma :: itemTokens (w :: rest)

def memberTokens : List (String × Value) → List Token
  | [] => [.closeObject]
  | [(key, v)] => .text (some key) :: .colon :: v.toTokens ++ [.closeObject]
  | (key, v) :: m :: rest =>
    .text (some key) :: .colon :: v.toTokens ++ .comma :: memberTokens (m :: rest)

end

end Triage.Json
