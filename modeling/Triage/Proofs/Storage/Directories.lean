/-
Directories that are made a second time. If they could be made, the second time finds them and
changes nothing. If not, the second time fails too and changes nothing either; and it fails with the
same fault, unless names lead back, since then what was made the first time may open a way that was
not there before.
-/
import Mathlib.Data.List.Induction
import Triage.Proofs.Storage.Tree

namespace Triage.Storage

theorem enclosing_starts_dropLast {names : List String} (h : names ≠ []) :
    enclosing names <+: names.dropLast := by
  refine List.prefix_of_prefix_length_le (enclosing_starts names) (List.dropLast_prefix names) ?_
  have := length_enclosing_lt h
  rw [List.length_dropLast]
  omega

namespace Tree

variable {t u : Tree} {names more : List String} {p q : Place}

/-! ## Directories that are there -/

theorem provideDirectory_of_isDirectory (h : t.isDirectory names = true) :
    t.provideDirectory names = (.ok (), t) :=
  if_pos h

/-- Where names lead to a directory there is nothing to make. -/
theorem Leads.makeDirectories (h : t.Leads names p) : t.makeDirectories names = (.ok (), t) := by
  rw [Tree.makeDirectories]
  split
  · rfl
  · rw [provideDirectory_of_isDirectory (h.isDirectory ‹_›)]

/-- Directories that could be made are there the second time. -/
theorem makeDirectories_again (h : t.makeDirectories names = (.ok (), u)) :
    u.makeDirectories names = (.ok (), u) := by
  obtain ⟨-, hleads⟩ := makeDirectories_spec t names
  rw [h] at hleads
  obtain ⟨p, hp⟩ := hleads rfl
  exact hp.makeDirectories

/-! ## Directories that cannot be made -/

theorem provideDirectory_error {f : FileFault} (h : t.provideDirectory names = (.error f, u)) :
    u = t ∧ t.isDirectory names = false ∧ t.makeDirectory names = .error f := by
  unfold Tree.provideDirectory at h
  split at h
  · cases h
  · rename_i hd
    cases hm : t.makeDirectory names with
    | ok v =>
      rw [hm] at h
      cases h
    | error g =>
      rw [hm] at h
      cases h
      exact ⟨rfl, by simpa using hd, rfl⟩

/-- A directory is provided only in one that is there. -/
theorem enclosing_leads (hn : names ≠ []) (h : t.provideDirectory names = (.ok (), u)) :
    ∃ q, t.Leads (enclosing names) q := by
  obtain ⟨q, hq⟩ : ∃ q, t.locate names = .ok q := by
    unfold Tree.provideDirectory at h
    split at h
    · rename_i hd
      unfold Tree.isDirectory at hd
      cases hl : t.locate names with
      | error f =>
        rw [hl] at hd
        cases hd
      | ok q => exact ⟨q, rfl⟩
    · cases hm : t.makeDirectory names with
      | error f =>
        rw [hm] at h
        cases h
      | ok v =>
        obtain ⟨q, hl, -⟩ := makeDirectory_ok hm
        exact ⟨q, hl⟩
  obtain ⟨start, name, x, rfl, hleads, -⟩ := locate_ok hq
  have hstarts := enclosing_starts_dropLast hn
  rw [List.dropLast_concat] at hstarts
  exact hleads.start hstarts

/-- Directories that could not be made cannot be made the second time, and nothing more is done. -/
theorem makeDirectories_fails {f : FileFault} (h : t.makeDirectories names = (.error f, u)) :
    ∃ g, u.makeDirectories names = (.error g, u) := by
  fun_induction Tree.makeDirectories t names generalizing f u with
  | case1 t => cases h
  | case2 t names hn v hp w hm ih =>
    -- Those around it were made, and itself it could not be.
    obtain ⟨rfl, -⟩ := provideDirectory_error h
    rw [Tree.makeDirectories, if_neg hn, h]
    cases f with
    | notFound =>
      simp only [makeDirectories_again hm, h]
      exact ⟨_, rfl⟩
    | _ => exact ⟨_, rfl⟩
  | case3 t names hn v hp hfail ih =>
    obtain ⟨g, hg⟩ := ih h
    rw [Tree.makeDirectories, if_neg hn]
    cases hu : u.provideDirectory names with
    | mk result w =>
      cases result with
      | ok _ =>
        obtain ⟨q, hq⟩ := enclosing_leads hn hu
        rw [hq.makeDirectories] at hg
        cases hg
      | error e =>
        obtain ⟨rfl, -⟩ := provideDirectory_error hu
        cases e with
        | notFound =>
          simp only [hg]
          exact ⟨_, rfl⟩
        | _ => exact ⟨_, rfl⟩
  | case4 t names hn hother =>
    obtain ⟨rfl, -⟩ := provideDirectory_error h
    rw [Tree.makeDirectories, if_neg hn, h]
    cases f with
    | notFound => exact (hother _ h).elim
    | _ => exact ⟨_, rfl⟩

/-! ## The same fault -/

/-- Whether whatever is in a tree is in a directory, as on every machine. -/
def Closed (t : Tree) : Prop :=
  ∀ p name e, t.entry? (p ++ [name]) = some e → t.entry? p = some .directory

theorem closed_empty : empty.Closed := by
  intro p name e h
  unfold entry? at h
  split at h
  · rename_i hroot
    rcases hroot with hroot | hroot
    · simp at hroot
    · cases p with
      | nil => exact entry?_nil _
      | cons x rest => simp [root] at hroot
  · simp [empty] at h

theorem Closed.directory (ht : t.Closed) {rest : Place}
    (h : t.entry? (p ++ rest) = some .directory) : t.entry? p = some .directory := by
  induction rest using List.reverseRecOn with
  | nil => rwa [List.append_nil] at h
  | append_singleton rest name ih =>
    rw [← List.append_assoc] at h
    exact ih (ht _ name _ h)

/-- Where whatever is there is in a directory, names that do not lead back lead to a directory if
they can be read as its place. -/
theorem Closed.descend (ht : t.Closed) (hn : ".." ∉ names) (hf : follow p names = .ok q)
    (hq : t.entry? q = some .directory) : t.descend p names = .ok q := by
  induction names generalizing p with
  | nil => exact hf
  | cons name rest ih =>
    obtain ⟨-, hrest⟩ := not_or.1 fun e => hn (List.mem_cons.2 e)
    unfold follow at hf
    cases hs : step p name with
    | error f =>
      rw [hs] at hf
      cases hf
    | ok x =>
      rw [hs] at hf
      obtain ⟨more, rfl⟩ := prefix_of_follow hrest hf
      exact descend_of_cons hs (ht.directory hq) (ih hrest hf)

theorem locate_concat {start : List String} {last : String}
    (hz : (start ++ [last]).any (·.toList.contains '\x00') = false) :
    t.locate (start ++ [last]) = (t.descend [] start).bind fun x => step x last := by
  unfold Tree.locate
  rw [if_neg (by rw [hz]; exact Bool.false_ne_true), List.getLast?_concat, List.dropLast_concat]
  rfl

/-- The way along names goes on behind the last of those before. -/
theorem locate_behind {start more : List String} {name last : String}
    (hz : (start ++ name :: more ++ [last]).any (·.toList.contains '\x00') = false) :
    t.locate (start ++ name :: more ++ [last]) =
      ((t.descend [] start).bind fun x => t.descend x (name :: more)).bind fun x =>
        step x last := by
  rw [locate_concat hz, descend_bind]

theorem provideDirectory_of_locate {f : FileFault} (h : t.locate names = .error f) :
    t.provideDirectory names = (.error f, t) := by
  unfold Tree.provideDirectory Tree.isDirectory Tree.makeDirectory
  rw [h]
  rfl

/-- Why a directory cannot be provided is why none below it can be, unless there is a file. -/
theorem provideDirectory_below {start more : List String} {name last : String} {f : FileFault}
    (hz : (start ++ name :: more ++ [last]).any (·.toList.contains '\x00') = false)
    (h : t.provideDirectory (start ++ [name]) = (.error f, u)) :
    (t.provideDirectory (start ++ name :: more ++ [last])).1 = .error f ∨
      ∃ q bytes, t.locate (start ++ [name]) = .ok q ∧ t.entry? q = some (.file bytes) := by
  have hz' : (start ++ [name]).any (·.toList.contains '\x00') = false := by
    simp only [List.any_append, List.any_cons, Bool.or_eq_false_iff] at hz ⊢
    exact ⟨hz.1.1, hz.1.2.1, rfl⟩
  obtain ⟨rfl, hd, hm⟩ := provideDirectory_error h
  unfold Tree.makeDirectory at hm
  unfold Tree.isDirectory at hd
  cases hl : u.locate (start ++ [name]) with
  | ok q =>
    rw [hl] at hm hd
    cases he : u.entry? q with
    | none =>
      simp only [bind, Except.bind, he] at hm
      cases hm
    | some e =>
      cases e with
      | directory => simp [he] at hd
      | file bytes => exact .inr ⟨q, bytes, rfl, he⟩
  | error g =>
    rw [hl] at hm
    cases hm
    refine .inl ?_
    -- The way ends before the name or at it, and so does the longer way.
    have hbelow : u.locate (start ++ name :: more ++ [last]) = .error f := by
      rw [locate_behind hz]
      rw [locate_concat hz'] at hl
      cases hs : u.descend [] start with
      | error g =>
        rw [hs] at hl
        cases hl
        rfl
      | ok x =>
        rw [hs] at hl
        have hstep : step x name = .error f := hl
        simp only [Except.bind, descend_cons, hstep]
    rw [provideDirectory_of_locate hbelow]

/-- A file in the way is no missing name, even if what is around it was not made before. -/
theorem file_in_way (ht : t.Closed) {start more : List String} {name last : String}
    (hn : ".." ∉ start ++ [name])
    (hz : (start ++ name :: more ++ [last]).any (·.toList.contains '\x00') = false)
    (made : MadeOnWay names t u) {bytes : List UInt8}
    (hl : u.locate (start ++ [name]) = .ok q) (hq : u.entry? q = some (.file bytes)) :
    (t.provideDirectory (start ++ name :: more ++ [last])).1 = .error .notADirectory := by
  obtain ⟨start', name', x, heq, hx, -, hs⟩ := locate_ok hl
  obtain ⟨rfl, hname⟩ := List.append_inj' heq rfl
  cases hname
  have hfile : t.entry? q = some (.file bytes) := by
    rcases made q with e | ⟨-, hd, -⟩
    · rw [← e, hq]
    · rw [hq] at hd
      cases hd
  have hparent : t.entry? x = some .directory := by
    unfold step at hs
    rw [if_neg (c := name = "..") (by rintro rfl; simp at hn)] at hs
    split at hs
    · cases hs
      rw [hx.directory] at hq
      cases hq
    · split at hs
      · cases hs
      · cases hs
        exact ht x name _ hfile
  have hstart : t.descend [] start = .ok x :=
    ht.descend (fun hm => hn (List.mem_append_left _ hm)) (follow_of_descend hx.descend) hparent
  have hbelow : t.locate (start ++ name :: more ++ [last]) = .error .notADirectory := by
    rw [locate_behind hz, hstart]
    simp only [Except.bind, descend_cons, hs, hfile]
  rw [provideDirectory_of_locate hbelow]

/-- Names with a name in front of the last that is kept when those around are read. -/
theorem enclosing_split (hn : names ≠ []) (he : enclosing names ≠ []) :
    ∃ start name more last, enclosing names = start ++ [name] ∧
      names = start ++ name :: more ++ [last] := by
  obtain ⟨more, hmore⟩ := enclosing_starts_dropLast hn
  refine ⟨(enclosing names).dropLast, (enclosing names).getLast he, more, names.getLast hn,
    (List.dropLast_concat_getLast he).symm, ?_⟩
  calc names = names.dropLast ++ [names.getLast hn] := (List.dropLast_concat_getLast hn).symm
    _ = enclosing names ++ more ++ [names.getLast hn] := by rw [hmore]
    _ = _ := by
      nth_rewrite 1 [← List.dropLast_concat_getLast he]
      simp

theorem noZero_of_notFound (h : t.provideDirectory names = (.error .notFound, u)) :
    names.any (·.toList.contains '\x00') = false := by
  obtain ⟨-, -, hm⟩ := provideDirectory_error h
  rw [← Bool.not_eq_true]
  intro hz
  unfold Tree.makeDirectory Tree.locate at hm
  rw [if_pos hz] at hm
  cases hm

/-- What stops the directories around one stops the one itself, if it could not be provided for
being nowhere: a file in the way would have stopped it at once. -/
theorem provideDirectory_still_fails (ht : t.Closed) (hn : ".." ∉ names) (hne : names ≠ [])
    (hencl : enclosing names ≠ []) (hp : t.provideDirectory names = (.error .notFound, t))
    (made : MadeOnWay (enclosing names) t u) {e : FileFault}
    (he : u.provideDirectory (enclosing names) = (.error e, u)) :
    u.provideDirectory names = (.error e, u) := by
  obtain ⟨start, name, more, last, henc, hnames⟩ := enclosing_split hne hencl
  have hz := noZero_of_notFound hp
  rw [hnames] at hz
  have hstarts := enclosing_starts names
  rw [henc] at he hstarts
  rcases provideDirectory_below hz he with hsame | ⟨q, bytes, hl, hq⟩
  · rw [← hnames] at hsame
    cases hu : u.provideDirectory names with
    | mk result w =>
      rw [hu] at hsame
      cases hsame
      obtain ⟨rfl, -⟩ := provideDirectory_error hu
      rfl
  · have hfile := file_in_way ht (fun hm => hn (hstarts.subset hm)) hz made hl hq
    rw [← hnames, hp] at hfile
    cases hfile

/-- Where no name leads back, directories that could not be made cannot be made the second time for
the same reason. -/
theorem makeDirectories_fails_alike (ht : t.Closed) (hn : ".." ∉ names) {f : FileFault}
    (h : t.makeDirectories names = (.error f, u)) :
    u.makeDirectories names = (.error f, u) ∧
      (u.provideDirectory names = (.error f, u) ∨
        u.provideDirectory names = (.error .notFound, u)) := by
  fun_induction Tree.makeDirectories t names generalizing u with
  | case1 t => cases h
  | case2 t names hne v hp w hm ih =>
    obtain ⟨rfl, -⟩ := provideDirectory_error h
    refine ⟨?_, .inl h⟩
    rw [Tree.makeDirectories, if_neg hne, h]
    cases f with
    | notFound => simp only [makeDirectories_again hm, h]
    | _ => rfl
  | case3 t names hne v hp hfail ih =>
    obtain ⟨rfl, -⟩ := provideDirectory_error hp
    obtain ⟨hagain, hends⟩ := ih ht (fun hm => hn ((enclosing_starts names).subset hm)) h
    have hencl : enclosing names ≠ [] := by
      intro e
      rw [e, Tree.makeDirectories, if_pos rfl] at h
      cases h
    have made := (makeDirectories_spec v (enclosing names)).1
    rw [h] at made
    have hends := hends.imp (provideDirectory_still_fails ht hn hne hencl hp made)
      (provideDirectory_still_fails ht hn hne hencl hp made)
    refine ⟨?_, hends⟩
    rw [Tree.makeDirectories, if_neg hne]
    rcases hends with he | he
    · rw [he]
      cases f with
      | notFound => simp only [hagain]
      | _ => rfl
    · rw [he]
      simp only [hagain]
  | case4 t names hne hother =>
    obtain ⟨rfl, -⟩ := provideDirectory_error h
    refine ⟨?_, .inl h⟩
    rw [Tree.makeDirectories, if_neg hne, h]
    cases f with
    | notFound => exact (hother _ h).elim
    | _ => rfl

end Tree

end Triage.Storage
