/-
A table of labels and its file. A label has neither a line feed nor a carriage return in it, so the
lines that are written are the lines that are read, whatever else the labels are made of. A text
from elsewhere may end its lines in another way or leave the last one open: it holds a table just if
its lines are labels and no two of them the same, and that table is kept from then on. Any other
text is a fault of the file, not of the labels' user.
-/
import Triage.Proofs.Labels
import Triage.Proofs.Storage.Siblings
import Triage.Proofs.Text.Lines

namespace Triage.Labels

open Storage (Path Tree)

variable {t : Labels} {text : String} {bytes : List UInt8} {path : Path} {u w : Tree}

/-! ## As text -/

theorem isLine_of_isLabel {s : String} (h : isLabel s = true) : Text.IsLine s.toList := by
  obtain ⟨-, hfeed, hreturn⟩ := isLabel_iff.1 h
  exact ⟨hfeed, fun hr => hreturn (List.mem_of_getLast? hr)⟩

theorem ofText_toText (t : Labels) : ofText t.toText = .ok t := by
  unfold ofText toText
  rw [Text.lines_unlines fun s hs => isLine_of_isLabel (t.isLabel_of_mem s hs), ofList_names]

/-- A table is read back from its file. -/
theorem ofFound_toText (t : Labels) (path : Path) :
    ofFound path (.ok (Storage.bytesOf t.toText)) = .ok t := by
  unfold ofFound
  rw [Storage.textFound_bytesOf, ok_bind, ofText_toText, mapError_ok]

/-- Whether the lines of a text are labels, each of them given once. -/
structure Holds (text : String) : Prop where
  labels : ∀ s ∈ Text.lines text, s ≠ "" ∧ '\r' ∉ s.toList
  nodup : (Text.lines text).Nodup

/-- No line has a line feed in it, so this need not be asked for. -/
theorem exists_ofText_iff : (∃ t, ofText text = .ok t) ↔ Holds text := by
  unfold ofText
  rw [exists_ofList_iff]
  have hlabel : ∀ s ∈ Text.lines text, isLabel s = true ↔ s ≠ "" ∧ '\r' ∉ s.toList := by
    intro s hs
    have hline : s.toList ∈ Text.linesFrom [] text.toList :=
      Text.map_toList_lines text ▸ List.mem_map_of_mem hs
    have hfeed := Text.noFeed_of_mem_linesFrom List.not_mem_nil hline
    rw [isLabel_iff]
    simp [hfeed]
  constructor
  · rintro ⟨hlabels, hnodup⟩
    exact ⟨fun s hs => (hlabel s hs).1 (hlabels s hs), hnodup⟩
  · rintro ⟨hlabels, hnodup⟩
    exact ⟨fun s hs => (hlabel s hs).2 (hlabels s hs), hnodup⟩

/-! ## Files -/

/-- A table is saved just if its file can be written. -/
theorem save_eq (t : Labels) (path : Path) (u : Tree) : t.save (m := StateM Tree) path u =
    ((u.settle (u.write path (Storage.bytesOf t.toText))).1.mapError .file,
      (u.settle (u.write path (Storage.bytesOf t.toText))).2) :=
  rfl

theorem save_of_write (h : u.write path (Storage.bytesOf t.toText) = .ok w) :
    t.save (m := StateM Tree) path u = (.ok (), w) := by
  rw [save_eq, h]
  rfl

theorem save_of_write_error {f : FileFault}
    (h : u.write path (Storage.bytesOf t.toText) = .error f) :
    t.save (m := StateM Tree) path u = (.error (.file f), u) := by
  rw [save_eq, h]
  rfl

/-- Nothing is changed when a table is loaded. -/
theorem load_eq (path : Path) (u : Tree) :
    load (m := StateM Tree) path u = (ofFound path (u.read path), u) :=
  rfl

theorem load_of_write (h : u.write path (Storage.bytesOf t.toText) = .ok w) :
    load (m := StateM Tree) path w = (.ok t, w) := by
  rw [load_eq, Storage.Tree.read_of_write h, ofFound_toText]

theorem load_of_text (hread : u.read path = .ok bytes) (htext : Storage.textOf bytes = .ok text) :
    load (m := StateM Tree) path u =
      ((ofText text).mapError fun f => .corrupt (.labels path.text f), u) := by
  have hfound : Storage.textFound (u.read path) = .ok text := by
    rw [hread]
    show (Storage.textOf bytes).mapError _ = _
    rw [htext, mapError_ok]
  rw [load_eq, ofFound, hfound, ok_bind]

/-! ## Main statement -/

/-- A table is saved wherever its file can be written, one label to a line, and is loaded from there
as it was, each label at its place. A file whose text holds a table is loaded as the table of its
lines, which is loaded again from wherever it is saved; a file of any other text is corrupt, for the
fault that its lines have as labels; and a file that cannot be read as text is refused as a file. -/
theorem files_hold_tables :
    (∀ (names : List String) (t : Labels) (path : Path) (u : Tree), ofList names = .ok t →
      (∀ w, u.write path (Storage.bytesOf (String.join (names.map (· ++ "\n")))) = .ok w →
        t.save (m := StateM Tree) path u = (.ok (), w) ∧
        load (m := StateM Tree) path w = (.ok t, w) ∧ ∀ i, t.name? i = names[i]?) ∧
      ∀ f, u.write path (Storage.bytesOf (String.join (names.map (· ++ "\n")))) = .error f →
        t.save (m := StateM Tree) path u = (.error (.file f), u)) ∧
    (∀ (path : Path) (u : Tree) (bytes : List UInt8) (text : String), u.read path = .ok bytes →
      Storage.textOf bytes = .ok text →
        (Holds text → ∃ t, load (m := StateM Tree) path u = (.ok t, u) ∧
          t.names = Text.lines text ∧
          ∀ (other : Path) (v w : Tree), v.write other (Storage.bytesOf t.toText) = .ok w →
            t.save (m := StateM Tree) other v = (.ok (), w) ∧
            load (m := StateM Tree) other w = (.ok t, w)) ∧
        (¬Holds text → ∃ f, ofList (Text.lines text) = .error f ∧
          load (m := StateM Tree) path u = (.error (.corrupt (.labels path.text f)), u))) ∧
    ∀ (path : Path) (u : Tree) (f : FileFault), (u.read path).bind Storage.textOf = .error f →
      load (m := StateM Tree) path u = (.error (.file f), u) := by
  refine ⟨fun names t path u hof => ?saved, fun path u bytes text hread htext => ?given,
    fun path u f hnone => ?refused⟩
  case saved =>
    obtain rfl := names_of_ofList hof
    refine ⟨fun w hwrite => ?_, fun f hwrite => save_of_write_error hwrite⟩
    exact ⟨save_of_write hwrite, load_of_write hwrite, fun i => rfl⟩
  case given =>
    have hload := load_of_text hread htext
    constructor
    · intro hholds
      obtain ⟨t, ht⟩ := exists_ofText_iff.2 hholds
      rw [ht] at hload
      refine ⟨t, hload, names_of_ofList ht, fun other v w hwrite => ?_⟩
      exact ⟨save_of_write hwrite, load_of_write hwrite⟩
    · intro hnot
      cases hof : ofText text with
      | ok t => exact absurd (exists_ofText_iff.1 ⟨t, hof⟩) hnot
      | error f =>
        rw [hof] at hload
        exact ⟨f, hof, hload⟩
  case refused =>
    rw [load_eq, ofFound, Storage.textFound, hnone]
    rfl

/-- A file from elsewhere, with both kinds of line endings and the last line open, the label on it a
character that other programs take for the end of a line. -/
theorem files_hold_tables_open : ∃ u w t,
    Tree.empty.write (Path.ofText "ad.txt") (Storage.bytesOf "a b\r\nsport\n\u2028") = .ok u ∧
      load (m := StateM Tree) (Path.ofText "ad.txt") u = (.ok t, u) ∧
      t.names = ["a b", "sport", "\u2028"] ∧
      t.save (m := StateM Tree) (Path.ofText "ad.txt") Tree.empty = (.ok (), w) ∧
      load (m := StateM Tree) (Path.ofText "ad.txt") w = (.ok t, w) := by
  obtain ⟨-, hgiven, -⟩ := files_hold_tables
  have hroom (bytes : List UInt8) :
      (Tree.empty.write (Path.ofText "ad.txt") bytes).isOk = true := rfl
  obtain ⟨u, hu⟩ := ok_of_isOk (hroom (Storage.bytesOf "a b\r\nsport\n\u2028"))
  have hholds : Holds "a b\r\nsport\n\u2028" := by constructor <;> decide +kernel
  obtain ⟨hload, -⟩ := hgiven _ u _ _ (Storage.Tree.read_of_write hu) (Storage.textOf_bytesOf _)
  obtain ⟨t, ht, hnames, hsaved⟩ := hload hholds
  obtain ⟨w, hw⟩ := ok_of_isOk (hroom (Storage.bytesOf t.toText))
  obtain ⟨hsave, hagain⟩ := hsaved _ _ w hw
  exact ⟨u, w, t, hu, ht, hnames.trans (by decide +kernel), hsave, hagain⟩

end Triage.Labels
