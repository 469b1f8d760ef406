/-
Files whose names start alike. Strokes in the start only lead to the directory that holds all of
them, so the files are in one directory under names of their own; and what is written to such files
one after the other is read back from each.
-/
import Triage.Proofs.Result
import Triage.Proofs.Storage.Tree

namespace Triage.Storage

/-! ## Names that start alike -/

theorem splitFrom_append (part l : List Char) : ∃ names rest, ∀ m, '/' ∉ m →
    splitFrom part (l ++ m) = names ++ [String.ofList (rest ++ m)] := by
  induction l generalizing part with
  | nil =>
    refine ⟨[], part.reverse, ?_⟩
    intro m hm
    rw [List.nil_append, splitFrom_of_no_stroke hm, List.nil_append]
  | cons c l ih =>
    by_cases hc : c = '/'
    · obtain ⟨names, rest, h⟩ := ih []
      refine ⟨String.ofList part.reverse :: names, rest, ?_⟩
      intro m hm
      rw [List.cons_append, splitFrom, if_pos hc, h m hm, List.cons_append]
    · obtain ⟨names, rest, h⟩ := ih (c :: part)
      refine ⟨names, rest, ?_⟩
      intro m hm
      rw [List.cons_append, splitFrom, if_neg hc, h m hm]

/-- The names in texts that start alike differ in the last of them only. -/
theorem namesIn_append (start : String) : ∃ names rest, ∀ ending, SingleName ending →
    namesIn (start ++ ending) = names ++ [rest ++ ending] := by
  obtain ⟨names, rest, h⟩ := splitFrom_append [] start.toList
  refine ⟨names.filter (· ≠ ""), String.ofList rest, ?_⟩
  intro ending hending
  have hlast : String.ofList (rest ++ ending.toList) = String.ofList rest ++ ending := by
    rw [String.ofList_append, String.ofList_toList]
  have hne : String.ofList rest ++ ending ≠ "" := by
    intro e
    exact hending.nonempty (String.append_eq_empty_iff.1 e).2
  unfold namesIn
  rw [String.toList_append, h _ hending.noStroke, List.filter_append, hlast]
  simp [hne]

namespace SingleName

variable {ending : String}

/-- A text that ends in a name begins with a stroke just if it does before the name. -/
theorem opens_append (h : SingleName ending) (start : String) :
    opensWithStroke (start ++ ending) = opensWithStroke start := by
  rcases Decidable.em (start = "") with rfl | hstart
  · rw [String.empty_append, h.opens]
    rfl
  · have hne : start.toList ≠ [] := by simpa using hstart
    unfold opensWithStroke
    rw [String.toList_append, List.head?_append, List.head?_eq_some_head hne, Option.some_or]

theorem ends_join (h : SingleName ending) (dir start : String) :
    endsInStroke (Path.join dir (start ++ ending)) = false := by
  unfold Path.join
  split
  · rw [← String.append_assoc]
    exact h.ends_append _
  · rw [← String.append_assoc]
    exact h.ends_append _

end SingleName

/-- Files of a directory whose names start alike are in one directory, under names that end as
theirs do. -/
theorem child_append (dir : Path) (start : String) : ∃ names rest, ∀ ending, SingleName ending →
    (dir.child (start ++ ending)).names = names ++ [rest ++ ending] ∧
      (dir.child (start ++ ending)).closed = false := by
  obtain ⟨names, rest, h⟩ := namesIn_append start
  by_cases hstroke : opensWithStroke start = true
  · refine ⟨"/" :: names, rest, ?_⟩
    intro ending hending
    have hchild : dir.child (start ++ ending) = Path.ofText (start ++ ending) :=
      if_pos ((hending.opens_append start).trans hstroke)
    rw [hchild]
    constructor
    · show (if opensWithStroke (start ++ ending) then ["/"] else []) ++
        namesIn (start ++ ending) = _
      rw [hending.opens_append, if_pos hstroke, h ending hending]
      rfl
    · exact hending.ends_append start
  · refine ⟨dir.names ++ names, rest, ?_⟩
    intro ending hending
    have hchild : dir.child (start ++ ending) = ⟨Path.join dir.text (start ++ ending),
        dir.names ++ namesIn (start ++ ending),
        endsInStroke (Path.join dir.text (start ++ ending))⟩ := by
      unfold Path.child
      rw [if_neg (by rwa [hending.opens_append])]
    rw [hchild]
    constructor
    · rw [h ending hending, List.append_assoc]
    · exact hending.ends_join _ _

/-! ## Files in one directory -/

variable {t u : Tree} {names : List String} {p : Path}

/-- A file that is in the directory names lead to, under a name that leads neither back nor
nowhere. -/
structure FileIn (names : List String) (p : Path) : Prop where
  isOpen : p.closed = false
  behind : ∃ name, p.names = names ++ [name] ∧ name ≠ "." ∧ name ≠ ".."

/-- A file in a directory that is there has its name behind the place of that. -/
theorem FileIn.locate_ok (hp : FileIn names p) {q : Place} (h : t.locate p.names = .ok q) :
    ∃ d name, t.Leads names d ∧ p.names = names ++ [name] ∧ q = d ++ [name] := by
  obtain ⟨name, hname, hdot, hback⟩ := hp.behind
  obtain ⟨start, last, d, heq, hleads, -, hstep⟩ := Tree.locate_ok h
  rw [hname] at heq
  obtain ⟨rfl, hlast⟩ := List.append_inj' heq rfl
  obtain rfl := List.singleton_inj.1 hlast
  unfold step at hstep
  rw [if_neg hdot, if_neg hback] at hstep
  split at hstep
  · cases hstep
  · cases hstep
    exact ⟨d, name, hleads, hname, rfl⟩

/-- Where a path leads does not change as long as no directory goes. -/
theorem Tree.DirectoriesIn.locate (hd : t.DirectoriesIn u) {path : List String} {q : Place}
    (h : t.locate path = .ok q) : u.locate path = .ok q := by
  obtain ⟨start, last, d, rfl, hleads, hzero, hstep⟩ := Tree.locate_ok h
  rw [(hleads.mono hd).locate hzero, hstep]

/-- What is written is read back. -/
theorem Tree.read_of_write {bytes : List UInt8} (h : t.write p bytes = .ok u) :
    u.read p = .ok bytes := by
  obtain ⟨q, hq, hfree, hchanged⟩ := Tree.write_ok h
  have hopen : p.closed = false := by
    unfold Tree.write at h
    rw [hq, ok_bind] at h
    split at h
    · cases h
    · rename_i hnot
      exact eq_false_of_ne_true fun hclosed => hnot (.inl hclosed)
  exact Tree.read_of ((hchanged.directoriesIn hfree).locate hq) hchanged.at hopen

/-- Files of one directory that are at one place have one name. -/
theorem FileIn.names_eq {p' : Path} (hp : FileIn names p) (hp' : FileIn names p') {q : Place}
    (h : t.locate p.names = .ok q) (h' : t.locate p'.names = .ok q) : p.names = p'.names := by
  obtain ⟨d, name, hleads, hname, hq⟩ := hp.locate_ok h
  obtain ⟨d', name', hleads', hname', hq'⟩ := hp'.locate_ok h'
  rw [hleads.unique hleads', hq'] at hq
  rw [hname, hname', List.append_cancel_left hq]

theorem writeAll_cons_ok {bytes : List UInt8} {rest : List (Path × List UInt8)}
    (h : writeAll (m := StateM Tree) ((p, bytes) :: rest) t = (.ok (), u)) :
    ∃ v, t.write p bytes = .ok v ∧ writeAll (m := StateM Tree) rest v = (.ok (), u) := by
  cases hw : t.write p bytes with
  | error f =>
    simp only [writeAll, Host.change, Tree.change, bind, StateT.bind, hw, Tree.settle] at h
    cases h
  | ok v =>
    simp only [writeAll, Host.change, Tree.change, bind, StateT.bind, hw, Tree.settle] at h
    exact ⟨v, rfl, h⟩

/-- What is written to different files of one directory is at their places afterwards, and nothing
else has changed. -/
theorem entry?_of_writeAll {files : List (Path × List UInt8)}
    (hin : ∀ file ∈ files, FileIn names file.1) (hne : (files.map (·.1.names)).Nodup)
    (h : writeAll (m := StateM Tree) files t = (.ok (), u)) :
    t.DirectoriesIn u ∧
      (∀ file ∈ files, ∃ q, u.locate file.1.names = .ok q ∧ u.entry? q = some (.file file.2)) ∧
      ∀ q, (∀ file ∈ files, u.locate file.1.names ≠ .ok q) → u.entry? q = t.entry? q := by
  induction files generalizing t with
  | nil =>
    cases h
    refine ⟨fun _ hq => hq, ?_, fun _ _ => rfl⟩
    intro file hfile
    cases hfile
  | cons file rest ih =>
    obtain ⟨p, bytes⟩ := file
    obtain ⟨v, hv, hrest⟩ := writeAll_cons_ok h
    obtain ⟨q, hq, hfree, hchanged⟩ := Tree.write_ok hv
    rw [List.map_cons, List.nodup_cons] at hne
    have hinRest : ∀ file ∈ rest, FileIn names file.1 :=
      fun file hfile => hin file (List.mem_cons_of_mem _ hfile)
    obtain ⟨hdirs, hwritten, hother⟩ := ih hinRest hne.2 hrest
    have hall : t.DirectoriesIn u := (hchanged.directoriesIn hfree).trans hdirs
    have hlocated : u.locate p.names = .ok q := hall.locate hq
    -- No later file is at the place of the first one, since their names differ.
    have hkept : u.entry? q = v.entry? q := by
      refine hother q ?_
      intro file hfile hplace
      refine hne.1 (List.mem_map.2 ⟨file, hfile, ?_⟩)
      exact (hinRest file hfile).names_eq (hin _ List.mem_cons_self) hplace hlocated
    refine ⟨hall, ?_, ?_⟩
    · intro file hfile
      rcases List.mem_cons.1 hfile with rfl | hfile
      · exact ⟨q, hlocated, hkept.trans hchanged.at⟩
      · exact hwritten file hfile
    · intro r hr
      have hrq : r ≠ q := by
        rintro rfl
        exact hr (p, bytes) List.mem_cons_self hlocated
      rw [hother r fun file hfile => hr file (List.mem_cons_of_mem _ hfile), hchanged.of_ne hrq]

/-- What is written to different files of one directory is read back. -/
theorem read_of_writeAll {files : List (Path × List UInt8)}
    (hin : ∀ file ∈ files, FileIn names file.1) (hne : (files.map (·.1.names)).Nodup)
    (h : writeAll (m := StateM Tree) files t = (.ok (), u)) :
    ∀ file ∈ files, u.read file.1 = .ok file.2 := by
  intro file hfile
  obtain ⟨-, hwritten, -⟩ := entry?_of_writeAll hin hne h
  obtain ⟨q, hq, hentry⟩ := hwritten file hfile
  exact Tree.read_of hq hentry (hin file hfile).isOpen

end Triage.Storage
