/-
Datasets written and read. The columns of a table may stand in any order among others, with blanks
around their names. A name that is looked at is in the header once when it is trimmed, and a reader
finds under it the cell that was written there; so of each message it makes one sample, whatever the
other cells are.
-/
import Triage.Dataset
import Triage.Proofs.Table

namespace Triage.Dataset

open Storage

/-! ## Messages and columns -/

/-- A message as it is written. -/
structure Message where
  text : String
  label : String
  topic : String

/-- The sample of a message: an empty text is none and else stays as it is, labels and topics lose
the blanks around them, and a topic of blanks is none. -/
def Message.sample (m : Message) : Sample where
  text := if m.text = "" then none else some m.text
  label := Text.trim m.label
  topic := if Text.trim m.topic = "" then none else some (Text.trim m.topic)

/-- What is written of a message under a column name; `other` under a name that is not looked at. -/
def Message.cell (m : Message) (other name : String) : String :=
  if name = "text" then m.text
  else if name = "label" then m.label
  else if name = "topic" then m.topic
  else other

/-- A column name and the blanks around it. -/
structure Heading where
  before : String
  name : String
  after : String
  blank_before : before.toList.all Text.isBlank
  blank_after : after.toList.all Text.isBlank

def Heading.text (h : Heading) : String :=
  h.before ++ h.name ++ h.after

theorem Heading.trim_text (h : Heading) : Text.trim h.text = Text.trim h.name :=
  Text.trim_append (List.all_eq_true.1 h.blank_before) (List.all_eq_true.1 h.blank_after)

/-- The columns of a table: each that is looked at stands in one place, and the others are not taken
for them either when they are trimmed. -/
structure Layout where
  headings : List Heading
  once : ∀ name ∈ columns, (headings.map Heading.name).count name = 1
  apart : ∀ h ∈ headings, h.name ∉ columns → Text.trim h.name ∉ columns

namespace Layout

/-- The names as they are written. -/
def header (l : Layout) : List String :=
  l.headings.map Heading.text

/-- A row with a message, and with other cells where columns are not looked at. -/
def row (l : Layout) (m : Message) (others : Nat → String) : List String :=
  l.headings.mapIdx fun i h => m.cell (others i) h.name

/-- A row for each message. -/
def rows (l : Layout) (messages : List Message) (others : Nat → Nat → String) :
    List (List String) :=
  messages.mapIdx fun i m => l.row m (others i)

/-- A header and rows. -/
def table (l : Layout) (messages : List Message) (others : Nat → Nat → String) :
    List (List String) :=
  l.header :: l.rows messages others

/-- The names as they are looked up. -/
def names (l : Layout) : List String :=
  l.headings.map fun h => Text.trim h.name

variable {l : Layout} {m : Message} {h : Heading} {name : String}

theorem rows_cons (messages : List Message) (others : Nat → Nat → String) :
    l.rows (m :: messages) others =
      l.row m (others 0) :: l.rows messages fun i => others (i + 1) :=
  List.mapIdx_cons

theorem map_trim_header (l : Layout) : l.header.map Text.trim = l.names := by
  simp [header, names, Heading.trim_text]

theorem trim_column (hname : name ∈ columns) : Text.trim name = name := by
  revert name
  decide

/-- Trimming makes no column one that is looked at, and keeps those that are. -/
theorem trim_name_iff (hh : h ∈ l.headings) (hname : name ∈ columns) :
    Text.trim h.name = name ↔ h.name = name := by
  constructor
  · intro htrim
    by_cases hc : h.name ∈ columns
    · rwa [trim_column hc] at htrim
    · exact absurd (htrim ▸ hname) (l.apart h hh hc)
  · rintro rfl
    exact trim_column hname

theorem count_names (hname : name ∈ columns) : l.names.count name = 1 := by
  rw [← l.once name hname, names, List.count_eq_countP, List.count_eq_countP, List.countP_map,
    List.countP_map]
  refine List.countP_congr fun h hh => ?_
  simpa using trim_name_iff hh hname

theorem mem_names (hname : name ∈ columns) : name ∈ l.names :=
  List.one_le_count_iff.1 (count_names hname).ge

end Layout

/-! ## Headers -/

theorem missing?_header (l : Layout) : missing? l.header = none := by
  unfold missing?
  rw [l.map_trim_header, List.find?_eq_none]
  intro name hname
  have hcolumn : name ∈ columns := by
    revert name
    decide
  simpa using l.mem_names hcolumn

/-- No column is found twice that is there once at most. -/
theorem repeated?_eq_none {seen header : List String}
    (h : ∀ name ∈ columns, (seen ++ header).count name ≤ 1) : repeated? seen header = none := by
  induction header generalizing seen with
  | nil => rfl
  | cons a rest ih =>
    rw [repeated?]
    split
    · rename_i hcolumn
      have hnew : a ∉ seen := by
        intro hseen
        have hpos := List.count_pos_iff.2 hseen
        have hone := h a (by simpa using hcolumn)
        rw [List.count_append, List.count_cons_self] at hone
        omega
      rw [if_neg (by simpa using hnew)]
      have hperm : (a :: seen ++ rest).Perm (seen ++ a :: rest) := List.perm_middle.symm
      exact ih fun name hname => (hperm.count_eq name).trans_le (h name hname)
    · refine ih fun name hname => le_trans ?_ (h name hname)
      exact ((List.sublist_cons_self a rest).append_left seen).count_le name

theorem repeated?_names (l : Layout) : repeated? [] l.names = none :=
  repeated?_eq_none fun _ hname => (Layout.count_names hname).le

/-! ## Rows -/

theorem cell?_mapIdx {headings : List Heading} {m : Message} {name value : String}
    (others : Nat → String) (hmem : name ∈ headings.map Heading.name)
    (hiff : ∀ h ∈ headings, Text.trim h.name = name ↔ h.name = name)
    (hvalue : ∀ other, m.cell other name = value) :
    cell? (headings.map fun h => Text.trim h.name)
      (headings.mapIdx fun i h => m.cell (others i) h.name) name = some value := by
  induction headings generalizing others with
  | nil => cases hmem
  | cons h headings ih =>
    obtain ⟨hhead, hrest⟩ := List.forall_mem_cons.1 hiff
    rw [cell?, List.map_cons, List.mapIdx_cons, List.zip_cons_cons, List.lookup_cons]
    by_cases hname : h.name = name
    · rw [hhead.2 hname, beq_self_eq_true, hname]
      exact congrArg some (hvalue _)
    · have hmore : name ∈ headings.map Heading.name :=
        (List.mem_cons.1 hmem).resolve_left fun e => hname e.symm
      rw [beq_eq_false_iff_ne.2 fun e => hname (hhead.1 e.symm)]
      exact ih (fun i => others (i + 1)) hmore hrest

/-- Under a column that is looked at stands what was written of the message. -/
theorem cell?_row (l : Layout) {m : Message} {name value : String} (others : Nat → String)
    (hname : name ∈ columns) (hvalue : ∀ other, m.cell other name = value) :
    cell? l.names (l.row m others) name = some value := by
  have hmem : name ∈ l.headings.map Heading.name :=
    List.one_le_count_iff.1 (l.once name hname).ge
  exact cell?_mapIdx others hmem (fun h hh => Layout.trim_name_iff hh hname) hvalue

theorem sampleOf_row (l : Layout) (m : Message) (others : Nat → String) :
    sampleOf l.names (l.row m others) = m.sample := by
  have htext : cell? l.names (l.row m others) "text" = some m.text :=
    cell?_row l others (by decide) fun _ => rfl
  have hlabel : cell? l.names (l.row m others) "label" = some m.label :=
    cell?_row l others (by decide) fun _ => rfl
  have htopic : cell? l.names (l.row m others) "topic" = some m.topic :=
    cell?_row l others (by decide) fun _ => rfl
  rw [sampleOf, htext, hlabel, htopic]
  rfl

theorem readRecord_row (l : Layout) (m : Message) (others : Nat → String) :
    readRecord l.names ((l.row m others).map bytesOf) = .ok m.sample := by
  have hlength : ((l.row m others).map bytesOf).length = l.names.length := by
    simp [Layout.row, Layout.names]
  rw [readRecord, if_neg (not_not.2 hlength), Table.textFields?_map_bytesOf, repeated?_names]
  exact congrArg Except.ok (sampleOf_row l m others)

theorem readRecords_rows (l : Layout) (messages : List Message) (others : Nat → Nat → String)
    (n : Nat) : readRecords l.names n ((l.rows messages others).map (·.map bytesOf)) =
      .ok (messages.map Message.sample) := by
  induction messages generalizing others n with
  | nil => rfl
  | cons m messages ih =>
    rw [Layout.rows_cons, List.map_cons, readRecords, readRecord_row]
    simp only [ih]
    rfl

/-! ## Tables -/

theorem row_ne_nil {l : Layout} {messages : List Message} {others : Nat → Nat → String} :
    ∀ row ∈ l.table messages others, row ≠ [] := by
  have hne : l.headings ≠ [] := by
    intro hnil
    have hmem : "text" ∈ l.names := Layout.mem_names (by decide)
    rw [Layout.names, hnil] at hmem
    cases hmem
  intro row hrow
  rcases List.mem_cons.1 hrow with rfl | hrow
  · simpa [Layout.header] using hne
  · obtain ⟨i, hi, rfl⟩ := List.mem_mapIdx.1 hrow
    simpa [Layout.row] using hne

theorem readUnder_rows (l : Layout) (others : Nat → Nat → String) {messages : List Message}
    (h : messages ≠ []) : readUnder l.header ((l.rows messages others).map (·.map bytesOf)) =
      .ok (messages.map Message.sample) := by
  obtain ⟨m, rest, rfl⟩ := List.exists_cons_of_ne_nil h
  rw [readUnder, missing?_header, l.map_trim_header]
  simp only [readRecords_rows, List.map_cons]

/-- Of a table that was written, whatever is in its cells, wherever its columns stand and whatever
blanks are around their names, one sample is read for each message, in their order. -/
theorem read_write (l : Layout) (others : Nat → Nat → String) (messages : List Message)
    (hmessages : messages ≠ []) :
    read (bytesOf (Table.write (l.table messages others))) =
      .ok (messages.map Message.sample) := by
  rw [read, Table.records_write row_ne_nil, Layout.table, List.map_cons]
  simp only [Table.textFields?_map_bytesOf]
  exact readUnder_rows l others hmessages

/-- Columns in another order, with blanks around their names and a column that stands there twice. -/
def padded : Layout where
  headings := [⟨" ", "topic", "\t", by decide, by decide⟩, ⟨"", "id", "", by decide, by decide⟩,
    ⟨"\u3000", "text", "", by decide, by decide⟩, ⟨"", "id", " ", by decide, by decide⟩,
    ⟨"\r\n", "label", "", by decide, by decide⟩]
  once := by decide
  apart := by decide

def paddedMessages : List Message :=
  [⟨"win,\"big\"\r\n", " ad", " "⟩, ⟨"", "normal", "chat"⟩]

def paddedCells (i j : Nat) : String :=
  if i < j then "\"," else ""

theorem read_write_padded :
    Table.write (padded.table paddedMessages paddedCells) =
      "\" topic\t\",\"id\",\"\u3000text\",\"id \",\"\r\nlabel\"\n" ++
      "\" \",\"\"\",\",\"win,\"\"big\"\"\r\n\",\"\"\",\",\" ad\"\n" ++
      "\"chat\",\"\",\"\",\"\"\",\",\"normal\"\n" ∧
    paddedMessages ≠ [] ∧
    read (bytesOf (Table.write (padded.table paddedMessages paddedCells))) =
      .ok [⟨some "win,\"big\"\r\n", "ad", none⟩, ⟨none, "normal", some "chat"⟩] :=
  ⟨by decide +kernel, by decide, read_write padded paddedCells paddedMessages (by decide)⟩

end Triage.Dataset
