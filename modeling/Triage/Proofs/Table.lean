/-
Tables written and read. A writer puts every field in quotes and doubles the quotes inside, so that a
field may hold whatever ends fields and records elsewhere. The bytes of a doubled quote are the only
ones in a field that a reader takes apart, since a quote is in no other character; so it comes behind
the closing quote with just the bytes of the field (`recordsFrom_written`), and the records it finds
are those that were written (`records_write`).
-/
import Triage.Proofs.Text.Encoding
import Triage.Table

namespace Triage.Table

open Storage

/-! ## Writing -/

/-- Characters with the quotes among them doubled. -/
def doubled (cs : List Char) : List Char :=
  cs.flatMap fun c => if c = '"' then [c, c] else [c]

/-- A field in quotes. -/
def written (field : String) : String :=
  "\"" ++ String.ofList (doubled field.toList) ++ "\""

/-- Fields in quotes with commas between them, and a line feed at the end. -/
def writtenRecord (fields : List String) : String :=
  ",".intercalate (fields.map written) ++ "\n"

/-- Records one after the other. -/
def write (rows : List (List String)) : String :=
  String.join (rows.map writtenRecord)

theorem write_cons (row : List String) (rows : List (List String)) :
    write (row :: rows) = writtenRecord row ++ write rows := by
  rw [write, List.map_cons, String.join_cons, ← write]

theorem encode_quote : String.utf8EncodeChar '"' = [quote] := by decide

theorem bytesOf_comma : bytesOf "," = [comma] := by rw [bytesOf_eq]; decide

theorem bytesOf_feed : bytesOf "\n" = [0x0a] := by rw [bytesOf_eq]; decide

theorem bytesOf_write_nil : bytesOf (write []) = [] := by
  rw [write, List.map_nil, String.join_nil, bytesOf_eq]
  rfl

theorem bytesOf_written (f : String) : bytesOf (written f) =
    quote :: ((doubled f.toList).flatMap String.utf8EncodeChar ++ [quote]) := by
  simp [written, bytesOf_eq, encode_quote]

theorem writtenRecord_singleton (f : String) : writtenRecord [f] = written f ++ "\n" := by
  rw [writtenRecord, List.map_singleton, String.intercalate_singleton]

theorem writtenRecord_cons_cons (f g : String) (fields : List String) :
    writtenRecord (f :: g :: fields) = written f ++ "," ++ writtenRecord (g :: fields) := by
  simp only [writtenRecord, List.map_cons, String.intercalate_cons_cons, String.append_assoc]

theorem exists_written (f : String) (fields : List String) :
    ∃ more, writtenRecord (f :: fields) = written f ++ more := by
  cases fields with
  | nil => exact ⟨_, writtenRecord_singleton f⟩
  | cons g fields => exact ⟨_, by rw [writtenRecord_cons_cons, String.append_assoc]⟩

/-! ## Fields -/

/-- A record under construction with more bytes in its current field. -/
def Partial.extend (p : Partial) (bytes : List UInt8) : Partial :=
  { p with field := bytes.reverse ++ p.field }

theorem Partial.extend_push (p : Partial) (b : UInt8) (bytes : List UInt8) :
    (p.push b).extend bytes = p.extend (b :: bytes) := by
  simp [Partial.extend, Partial.push]

theorem Partial.extend_append (p : Partial) (bytes more : List UInt8) :
    p.extend (bytes ++ more) = (p.extend bytes).extend more := by
  simp [Partial.extend]

section

variable {place : Place} {p : Partial} {bytes rest : List UInt8}

/-- Bytes of a quoted field that are no quotes are taken as they are. -/
theorem recordsFrom_quoted (h : quote ∉ bytes) :
    recordsFrom .quoted p (bytes ++ rest) = recordsFrom .quoted (p.extend bytes) rest := by
  induction bytes generalizing p with
  | nil => rfl
  | cons b bytes ih =>
    obtain ⟨hb, hbytes⟩ := not_or.1 fun e => h (List.mem_cons.2 e)
    rw [List.cons_append, recordsFrom, if_neg fun e => hb e.symm, ih hbytes, Partial.extend_push]

/-- Two quotes in a quoted field stand for one. -/
theorem recordsFrom_quote_quote :
    recordsFrom .quoted p (quote :: quote :: rest) =
      recordsFrom .quoted (p.extend [quote]) rest := by
  rw [recordsFrom, if_pos rfl, recordsFrom, if_neg (by decide), if_pos rfl]
  rfl

theorem recordsFrom_doubled (cs : List Char) :
    recordsFrom .quoted p ((doubled cs).flatMap String.utf8EncodeChar ++ rest) =
      recordsFrom .quoted (p.extend (cs.flatMap String.utf8EncodeChar)) rest := by
  induction cs generalizing p with
  | nil => rfl
  | cons c cs ih =>
    rw [doubled, List.flatMap_cons, List.flatMap_append, ← doubled, List.append_assoc,
      List.flatMap_cons, Partial.extend_append, ← ih]
    by_cases hc : c = '"'
    · rw [if_pos hc, hc, List.flatMap_cons, List.flatMap_singleton, encode_quote]
      exact recordsFrom_quote_quote
    · rw [if_neg hc, List.flatMap_singleton]
      exact recordsFrom_quoted fun h => hc (eq_of_byte_mem encode_quote h)

/-- Where a field can begin, one that was written leads behind its closing quote. -/
theorem recordsFrom_written (hplace : place = .recordStart ∨ place = .fieldStart) (f : String) :
    recordsFrom place p (bytesOf (written f) ++ rest) =
      recordsFrom .quoteSeen (p.extend (bytesOf f)) rest := by
  have hopen (bytes : List UInt8) :
      recordsFrom place p (quote :: bytes) = recordsFrom .quoted p bytes := by
    rcases hplace with rfl | rfl
    · rw [recordsFrom, if_neg (by decide), if_pos rfl]
    · rw [recordsFrom, if_neg (by decide), if_pos rfl]
  rw [bytesOf_written, List.cons_append, hopen, List.append_assoc, recordsFrom_doubled,
    ← bytesOf_eq, List.singleton_append, recordsFrom, if_pos rfl]

/-! ## Records -/

theorem recordsFrom_writtenRecord (hplace : place = .recordStart ∨ place = .fieldStart)
    (f : String) (fields : List String) (done : List (List UInt8)) :
    recordsFrom place ⟨[], done⟩ (bytesOf (writtenRecord (f :: fields)) ++ rest) =
      (done.reverse ++ (f :: fields).map bytesOf) :: recordsFrom .recordStart .empty rest := by
  induction fields generalizing f done place with
  | nil =>
    have hfinish : (Partial.extend ⟨[], done⟩ (bytesOf f)).finish =
        done.reverse ++ [bytesOf f] := by
      simp [Partial.extend, Partial.finish]
    rw [writtenRecord_singleton, bytesOf_append, List.append_assoc, recordsFrom_written hplace,
      bytesOf_feed, List.singleton_append, recordsFrom, if_pos (by decide), hfinish]
    rfl
  | cons g fields ih =>
    have hnext : (Partial.extend ⟨[], done⟩ (bytesOf f)).next = ⟨[], bytesOf f :: done⟩ := by
      simp [Partial.extend, Partial.next]
    rw [writtenRecord_cons_cons, bytesOf_append, bytesOf_append, List.append_assoc,
      List.append_assoc, recordsFrom_written hplace, bytesOf_comma, List.singleton_append,
      recordsFrom, if_neg (by decide), if_neg (by decide), if_pos rfl, hnext, ih (.inr rfl)]
    simp

theorem recordsFrom_write {rows : List (List String)} (h : ∀ row ∈ rows, row ≠ []) :
    recordsFrom .recordStart .empty (bytesOf (write rows)) = rows.map (·.map bytesOf) := by
  induction rows with
  | nil => rw [bytesOf_write_nil]; rfl
  | cons row rows ih =>
    obtain ⟨hrow, hrows⟩ := List.forall_mem_cons.1 h
    obtain ⟨f, fields, rfl⟩ := List.exists_cons_of_ne_nil hrow
    rw [write_cons, bytesOf_append, Partial.empty, recordsFrom_writtenRecord (.inl rfl), ih hrows]
    rfl

/-- What was written begins with a quote, so no byte-order mark is seen. -/
theorem withoutMark_write {rows : List (List String)} (h : ∀ row ∈ rows, row ≠ []) :
    withoutMark (bytesOf (write rows)) = bytesOf (write rows) := by
  cases rows with
  | nil => rw [bytesOf_write_nil]; rfl
  | cons row rows =>
    obtain ⟨f, fields, rfl⟩ := List.exists_cons_of_ne_nil (h row List.mem_cons_self)
    obtain ⟨more, hmore⟩ := exists_written f fields
    rw [write_cons, hmore, bytesOf_append, bytesOf_append, bytesOf_written]
    rfl

theorem records_write {rows : List (List String)} (h : ∀ row ∈ rows, row ≠ []) :
    records (bytesOf (write rows)) = rows.map (·.map bytesOf) := by
  rw [records, withoutMark_write h, recordsFrom_write h]

end

/-! ## Text -/

theorem textFields?_map_bytesOf (fields : List String) :
    textFields? (fields.map bytesOf) = some fields := by
  induction fields with
  | nil => rfl
  | cons f fields ih => rw [List.map_cons, textFields?, fromUTF8?_bytesOf, ih]; rfl

end Triage.Table
