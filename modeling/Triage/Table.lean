/-
Tables of comma-separated fields, read byte by byte. A field that begins with a quote runs to the
next single quote, two quotes inside standing for one; what follows the closing quote is taken as it
is. Elsewhere quotes are ordinary. A record ends at a carriage return or a line feed, so empty lines
are no records, and at the end of the bytes.
-/

namespace Triage

/-- A record: the bytes of its fields. -/
abbrev Record := List (List UInt8)

namespace Table

/-! ## Marks -/

def comma : UInt8 := 0x2c
def quote : UInt8 := 0x22

/-- Whether a byte ends a record. -/
def isEnd (b : UInt8) : Bool :=
  b == 0x0a || b == 0x0d

/-! ## Reading -/

/-- Where a reader stands. -/
inductive Place where
  | recordStart
  | fieldStart
  | plain
  | quoted
  /-- Behind a quote inside a quoted field: it was the last, or the first of two. -/
  | quoteSeen
  deriving DecidableEq, Repr

/-- A record under construction: the bytes of the current field and the fields before it, both last
first. -/
structure Partial where
  field : List UInt8
  fields : List (List UInt8)

namespace Partial

def empty : Partial := ⟨[], []⟩

/-- Adds a byte to the current field. -/
def push (p : Partial) (b : UInt8) : Partial :=
  { p with field := b :: p.field }

/-- Ends the current field. -/
def next (p : Partial) : Partial :=
  ⟨[], p.field.reverse :: p.fields⟩

/-- Ends the record. -/
def finish (p : Partial) : Record :=
  (p.field.reverse :: p.fields).reverse

end Partial

/-- The records of bytes, read from a place with a record under construction. -/
def recordsFrom (place : Place) (p : Partial) : List UInt8 → List Record
  | [] => if place = .recordStart then [] else [p.finish]
  | b :: rest =>
    match place with
    | .quoted =>
      if b = quote then recordsFrom .quoteSeen p rest else recordsFrom .quoted (p.push b) rest
    | .recordStart =>
      if isEnd b then recordsFrom .recordStart p rest
      else if b = quote then recordsFrom .quoted p rest
      else if b = comma then recordsFrom .fieldStart p.next rest
      else recordsFrom .plain (p.push b) rest
    | .fieldStart =>
      if isEnd b then p.finish :: recordsFrom .recordStart .empty rest
      else if b = quote then recordsFrom .quoted p rest
      else if b = comma then recordsFrom .fieldStart p.next rest
      else recordsFrom .plain (p.push b) rest
    | .plain =>
      if isEnd b then p.finish :: recordsFrom .recordStart .empty rest
      else if b = comma then recordsFrom .fieldStart p.next rest
      else recordsFrom .plain (p.push b) rest
    | .quoteSeen =>
      if isEnd b then p.finish :: recordsFrom .recordStart .empty rest
      else if b = quote then recordsFrom .quoted (p.push b) rest
      else if b = comma then recordsFrom .fieldStart p.next rest
      else recordsFrom .plain (p.push b) rest

/-- Bytes without a byte-order mark at their start. -/
def withoutMark : List UInt8 → List UInt8
  | 0xef :: 0xbb :: 0xbf :: rest => rest
  | rest => rest

/-- The records of bytes. -/
def records (bytes : List UInt8) : List Record :=
  recordsFrom .recordStart .empty (withoutMark bytes)

/-! ## Text -/

/-- The fields of a record as text, if all of them are. -/
def textFields? : Record → Option (List String)
  | [] => some []
  | f :: rest => do
    let s ← String.fromUTF8? (ByteArray.mk f.toArray)
    let ss ← textFields? rest
    pure (s :: ss)

end Table

end Triage
