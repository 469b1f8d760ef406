/-
Lines written one after the other are read back as they are just if no line feed is in one of them
and none ends in a carriage return. A line feed makes two lines of one, so there are more of them
than were written; a carriage return is lost without that.
-/
import Mathlib.Data.List.TakeWhile
import Triage.Storage.Host
import Triage.Text.CharClass
import Triage.Text.Lines

namespace Triage.Text

/-! ## Lines -/

/-- Whether characters are a line that reads back: without a line feed, and without a carriage
return at the end. -/
structure IsLine (line : List Char) : Prop where
  noFeed : '\n' ∉ line
  noReturn : line.getLast? ≠ some '\r'

/-- A line as it is read back: without a carriage return at its end. -/
def asRead (line : List Char) : List Char :=
  endLine line.reverse

theorem asRead_concat_return (line : List Char) : asRead (line ++ ['\r']) = line := by
  unfold asRead
  rw [List.reverse_append, List.reverse_singleton, List.singleton_append, endLine,
    List.reverse_reverse]

theorem asRead_of_getLast? {line : List Char} (h : line.getLast? ≠ some '\r') :
    asRead line = line := by
  unfold asRead
  cases hr : line.reverse with
  | nil => rw [List.reverse_eq_nil_iff.1 hr]; rfl
  | cons c rest =>
    have hc : c ≠ '\r' := by
      rintro rfl
      have hl : line = rest.reverse ++ ['\r'] := by
        rw [← List.reverse_reverse line, hr, List.reverse_cons]
      exact h (by rw [hl, List.getLast?_concat])
    have hend : endLine (c :: rest) = (c :: rest).reverse := by
      unfold endLine
      split
      · rename_i heq
        exact absurd (List.cons.inj heq).1 hc
      · rfl
    rw [hend, ← hr, List.reverse_reverse]

theorem asRead_eq_self {line : List Char} : asRead line = line ↔ line.getLast? ≠ some '\r' := by
  constructor
  · intro h hr
    obtain ⟨front, rfl⟩ := List.getLast?_eq_some_iff.1 hr
    rw [asRead_concat_return] at h
    have hlength := congrArg List.length h
    simp at hlength
  · exact asRead_of_getLast?

/-- Behind what was read of a line, the rest of it is taken up to its line feed. -/
theorem linesFrom_line {line : List Char} (h : '\n' ∉ line) (before rest : List Char) :
    linesFrom before (line ++ '\n' :: rest) =
      endLine (line.reverse ++ before) :: linesFrom [] rest := by
  induction line generalizing before with
  | nil => simp [linesFrom]
  | cons c more ih =>
    obtain ⟨hc, hmore⟩ := not_or.1 fun e => h (List.mem_cons.2 e)
    rw [List.cons_append, linesFrom, if_neg fun e => hc e.symm, ih hmore]
    simp

theorem toList_unlines (ls : List String) :
    (unlines ls).toList = (ls.map String.toList).flatMap (· ++ ['\n']) := by
  unfold unlines
  rw [String.toList_join, List.flatMap_map, List.flatMap_map]
  simp

/-- Lines without line feeds are read back one by one. -/
theorem linesFrom_asRead {ls : List (List Char)} (h : ∀ line ∈ ls, '\n' ∉ line) :
    linesFrom [] (ls.flatMap (· ++ ['\n'])) = ls.map asRead := by
  induction ls with
  | nil => rfl
  | cons line rest ih =>
    rw [List.flatMap_cons, List.append_assoc, List.singleton_append,
      linesFrom_line (h line List.mem_cons_self), List.append_nil,
      ih fun l hl => h l (List.mem_cons_of_mem line hl)]
    rfl

/-- A line that was written takes up one line and one more for each line feed in it. -/
theorem length_linesFrom_line (before line rest : List Char) :
    (linesFrom before (line ++ '\n' :: rest)).length =
      line.count '\n' + 1 + (linesFrom [] rest).length := by
  induction line generalizing before with
  | nil =>
    rw [List.nil_append, linesFrom, if_pos rfl, List.length_cons, List.count_nil]
    omega
  | cons c more ih =>
    rw [List.cons_append, linesFrom]
    split
    · rename_i hc
      rw [List.length_cons, ih, hc, List.count_cons_self]
      omega
    · rename_i hc
      rw [ih, List.count_cons_of_ne hc]

theorem mem_endLine {line : List Char} {c : Char} (h : c ∈ endLine line) : c ∈ line := by
  unfold endLine at h
  split at h
  · exact List.mem_cons_of_mem _ (List.mem_reverse.1 h)
  · exact List.mem_reverse.1 h

/-- No line that is read has a line feed in it. -/
theorem noFeed_of_mem_linesFrom {before text line : List Char} (hb : '\n' ∉ before)
    (h : line ∈ linesFrom before text) : '\n' ∉ line := by
  induction text generalizing before with
  | nil =>
    rw [linesFrom] at h
    split at h
    · cases h
    · rw [List.mem_singleton.1 h]
      exact fun hmem => hb (List.mem_reverse.1 hmem)
  | cons c rest ih =>
    rw [linesFrom] at h
    split at h
    · rcases List.mem_cons.1 h with rfl | h
      · exact fun hmem => hb (mem_endLine hmem)
      · exact ih List.not_mem_nil h
    · rename_i hc
      refine ih ?_ h
      intro hmem
      rcases List.mem_cons.1 hmem with e | hmem
      · exact hc e.symm
      · exact hb hmem

/-- Lines that were written are read back just if each of them is one. -/
theorem linesFrom_eq_self {ls : List (List Char)} :
    linesFrom [] (ls.flatMap (· ++ ['\n'])) = ls ↔ ∀ line ∈ ls, IsLine line := by
  constructor
  · intro h
    have hfeed : ∀ line ∈ ls, '\n' ∉ line := by
      intro line hline
      rw [← h] at hline
      exact noFeed_of_mem_linesFrom List.not_mem_nil hline
    intro line hline
    have hmap : ls.map asRead = ls.map id := by
      rw [← linesFrom_asRead hfeed, h, List.map_id]
    exact ⟨hfeed line hline, asRead_eq_self.1 (List.map_inj_left.1 hmap line hline)⟩
  · intro h
    rw [linesFrom_asRead fun line hline => (h line hline).noFeed,
      List.map_congr_left fun line hline => asRead_of_getLast? (h line hline).noReturn,
      List.map_id']

/-- No line is lost, and one with a line feed in it makes more than one. -/
theorem length_linesFrom {ls : List (List Char)} :
    ls.length ≤ (linesFrom [] (ls.flatMap (· ++ ['\n']))).length ∧
      ((∃ line ∈ ls, '\n' ∈ line) →
        ls.length < (linesFrom [] (ls.flatMap (· ++ ['\n']))).length) := by
  induction ls with
  | nil => simp
  | cons line rest ih =>
    rw [List.flatMap_cons, List.append_assoc, List.singleton_append, length_linesFrom_line,
      List.length_cons]
    constructor
    · omega
    · rintro ⟨l, hl, hfeed⟩
      rcases List.mem_cons.1 hl with rfl | hl
      · have hpos := List.count_pos_iff.2 hfeed
        omega
      · have hlt := ih.2 ⟨l, hl, hfeed⟩
        omega

theorem map_toList_lines (s : String) : (lines s).map String.toList = linesFrom [] s.toList := by
  unfold lines
  rw [List.map_map]
  exact List.map_id'' (fun line => String.toList_ofList) _

theorem lines_unlines_iff {ls : List String} :
    lines (unlines ls) = ls ↔ ∀ s ∈ ls, IsLine s.toList := by
  rw [← List.map_inj_right fun _ _ => String.toList_inj.1, map_toList_lines, toList_unlines,
    linesFrom_eq_self]
  exact List.forall_mem_map

/-- If a line feed is in a line, more lines are read than were written. -/
theorem length_lt_of_feed {ls : List String} (h : ∃ s ∈ ls, '\n' ∈ s.toList) :
    ls.length < (lines (unlines ls)).length := by
  obtain ⟨s, hs, hfeed⟩ := h
  have hlt := length_linesFrom.2 ⟨s.toList, List.mem_map_of_mem hs, hfeed⟩
  rwa [List.length_map, ← toList_unlines, ← map_toList_lines, List.length_map] at hlt

/-- Lines without line feeds lose a carriage return at their ends and nothing else. -/
theorem lines_of_noFeed {ls : List String} (h : ∀ s ∈ ls, '\n' ∉ s.toList) :
    lines (unlines ls) = ls.map fun s => String.ofList (asRead s.toList) := by
  unfold lines
  rw [toList_unlines, linesFrom_asRead (List.forall_mem_map.2 h), List.map_map, List.map_map]
  rfl

/-- Lines that were written are read back. -/
theorem lines_unlines {ls : List String} (h : ∀ s ∈ ls, IsLine s.toList) :
    lines (unlines ls) = ls :=
  lines_unlines_iff.2 h

/-! ## Blanks -/

/-- Characters without blanks but spaces are a line that reads back. -/
theorem isLine_of_isBlank {line : List Char} (h : ∀ c ∈ line, c = ' ' ∨ isBlank c = false) :
    IsLine line := by
  refine ⟨fun hn => ?_, fun hr => ?_⟩
  · rcases h _ hn with h | h <;> revert h <;> decide
  · rcases h _ (List.mem_of_getLast? hr) with h | h <;> revert h <;> decide

/-- A text without blanks has none at its ends. -/
theorem trim_of_isBlank {s : String} (h : ∀ c ∈ s.toList, isBlank c = false) : trim s = s := by
  have hdrop (cs : List Char) (hcs : ∀ c ∈ cs, isBlank c = false) : cs.dropWhile isBlank = cs := by
    cases cs with
    | nil => rfl
    | cons c rest => rw [List.dropWhile_cons_of_neg (by simp [hcs c List.mem_cons_self])]
  unfold trim
  rw [hdrop _ h, hdrop _ fun c hc => h c (List.mem_reverse.1 hc), List.reverse_reverse,
    String.ofList_toList]

/-- Blanks around a text are lost with those at its ends. -/
theorem trim_append {before name after : String} (hb : ∀ c ∈ before.toList, isBlank c)
    (ha : ∀ c ∈ after.toList, isBlank c) : trim (before ++ name ++ after) = trim name := by
  have hafter : after.toList.dropWhile isBlank = [] := List.dropWhile_eq_nil_iff.2 ha
  unfold trim
  rw [String.toList_append, String.toList_append, List.append_assoc,
    List.dropWhile_append_of_pos hb, List.dropWhile_append]
  split
  · rename_i hname
    rw [hafter, List.isEmpty_iff.1 hname]
  · rw [List.reverse_append,
      List.dropWhile_append_of_pos fun c hc => ha c (List.mem_reverse.1 hc)]

end Triage.Text

namespace Triage.Storage

/-! ## Bytes -/

theorem toList_loop (bs : ByteArray) (i : Nat) (r : List UInt8) :
    ByteArray.toList.loop bs i r = r.reverse ++ bs.data.toList.drop i := by
  fun_induction ByteArray.toList.loop bs i r with
  | case1 i r h ih =>
    have hi : i < bs.data.toList.length := h
    have hget : bs.get! i = bs.data.toList[i] := getElem!_pos bs.data i h
    rw [ih, hget, List.drop_eq_getElem_cons hi]
    simp
  | case2 i r h =>
    have hi : bs.data.toList.length ≤ i := Nat.le_of_not_lt h
    rw [List.drop_eq_nil_of_le hi, List.append_nil]

theorem toList_bytes (bs : ByteArray) : ByteArray.mk bs.toList.toArray = bs := by
  unfold ByteArray.toList
  rw [toList_loop]
  simp

theorem fromUTF8?_bytesOf (text : String) :
    String.fromUTF8? (ByteArray.mk (bytesOf text).toArray) = some text := by
  unfold bytesOf
  rw [toList_bytes]
  exact dif_pos text.isValidUTF8

/-- What is written as bytes is read back as the text it was. -/
theorem textOf_bytesOf (text : String) : textOf (bytesOf text) = .ok text := by
  unfold textOf
  rw [fromUTF8?_bytesOf]

theorem textFound_bytesOf (text : String) : textFound (.ok (bytesOf text)) = .ok text := by
  show (textOf (bytesOf text)).mapError Error.file = _
  rw [textOf_bytesOf]
  rfl

end Triage.Storage
