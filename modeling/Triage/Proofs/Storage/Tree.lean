/-
Trees of files seen from outside, as what is at each place. An operation that takes effect changes
what is at the places it names and nothing else; a directory only goes with the tree below it, so
names lead where they led before; and the making of directories adds directories on the way to the
last of them and nothing else.
-/
import Triage.Proofs.Storage.Path
import Triage.Storage.Host

namespace Triage.Storage

namespace Tree

variable {t u : Tree}

/-! ## What is at a place -/

theorem entry?_nil (t : Tree) : t.entry? [] = some .directory := if_pos (.inl rfl)

theorem entry?_of_ne {p : Place} (h : t.entry? p ≠ some .directory) :
    t.entry? p = t.entries[p]? ∧ ¬(p = [] ∨ p = root) := by
  have hp : ¬(p = [] ∨ p = root) := fun hp => h (if_pos hp)
  exact ⟨if_neg hp, hp⟩

/-- What is at each place after something was put where no directory is. -/
theorem entry?_put {p : Place} (h : t.entry? p ≠ some .directory) (e : Entry) (q : Place) :
    Tree.entry? ⟨t.entries.insert p e⟩ q = if q = p then some e else t.entry? q := by
  obtain ⟨-, hp⟩ := entry?_of_ne h
  unfold entry?
  by_cases hq : q = [] ∨ q = root
  · have hne : q ≠ p := by rintro rfl; exact hp hq
    rw [if_pos hq, if_neg hne, if_pos hq]
  · rw [if_neg hq, if_neg hq, Std.TreeMap.getElem?_insert]
    simp only [Std.LawfulEqCmp.compare_eq_iff_eq, eq_comm (a := p)]

/-- What is at each place after what is no directory was taken away. -/
theorem entry?_erase {p : Place} (h : t.entry? p ≠ some .directory) (q : Place) :
    Tree.entry? ⟨t.entries.erase p⟩ q = if q = p then none else t.entry? q := by
  obtain ⟨-, hp⟩ := entry?_of_ne h
  unfold entry?
  by_cases hq : q = [] ∨ q = root
  · have hne : q ≠ p := by rintro rfl; exact hp hq
    rw [if_pos hq, if_neg hne, if_pos hq]
  · rw [if_neg hq, if_neg hq, Std.TreeMap.getElem?_erase]
    simp only [Std.LawfulEqCmp.compare_eq_iff_eq, eq_comm (a := p)]

/-- What is at each place after all below a place was taken away. -/
theorem entry?_prune (t : Tree) {p : Place} (hp : ¬(p = [] ∨ p = root)) (q : Place) :
    Tree.entry? ⟨t.entries.filter fun x _ => !p.isPrefixOf x⟩ q =
      if p <+: q then none else t.entry? q := by
  unfold entry?
  -- The roots are directories whatever the entries are, and no root is below the place.
  by_cases hq : q = [] ∨ q = root
  · have hpq : ¬p <+: q := by
      rintro h
      rcases hq with rfl | rfl
      · exact hp (.inl (List.prefix_nil.1 h))
      · rcases List.prefix_cons_iff.1 h with hn | ⟨x, hx, hn⟩
        · exact hp (.inl hn)
        · exact hp (.inr (by rw [hx, List.prefix_nil.1 hn]; rfl))
    rw [if_pos hq, if_neg hpq, if_pos hq]
  · rw [if_neg hq, if_neg hq, Std.TreeMap.getElem?_filter]
    simp only [Std.TreeMap.getKey_eq, Option.pfilter_eq_filter]
    by_cases hpq : p <+: q
    · simp [hpq]
    · have hb : p.isPrefixOf q = false := by
        rw [← Bool.not_eq_true, List.isPrefixOf_iff_prefix]; exact hpq
      cases t.entries[q]? <;> simp [hpq, hb]

/-! ## Where names lead -/

/-- Each directory of one tree is one of the other. -/
def DirectoriesIn (t u : Tree) : Prop :=
  ∀ q, t.entry? q = some .directory → u.entry? q = some .directory

theorem DirectoriesIn.trans {v : Tree} (h : t.DirectoriesIn u) (h' : u.DirectoriesIn v) :
    t.DirectoriesIn v :=
  fun q hq => h' q (h q hq)

theorem descend_cons (t : Tree) (p : Place) (name : String) (rest : List String) :
    t.descend p (name :: rest) = (step p name).bind fun q =>
      match t.entry? q with
      | none => .error .notFound
      | some (.file _) => .error .notADirectory
      | some .directory => t.descend q rest :=
  rfl

theorem descend_cons_ok {p q : Place} {name : String} {rest : List String}
    (h : t.descend p (name :: rest) = .ok q) :
    ∃ x, step p name = .ok x ∧ t.entry? x = some .directory ∧ t.descend x rest = .ok q := by
  rw [descend_cons] at h
  cases hs : step p name with
  | error f => rw [hs] at h; cases h
  | ok x =>
    rw [hs] at h
    simp only [Except.bind] at h
    split at h
    · cases h
    · cases h
    · rename_i he
      exact ⟨x, rfl, he, h⟩

theorem descend_of_cons {p q x : Place} {name : String} {rest : List String}
    (hs : step p name = .ok x) (he : t.entry? x = some .directory)
    (h : t.descend x rest = .ok q) : t.descend p (name :: rest) = .ok q := by
  rw [descend_cons, hs]
  simp only [Except.bind, he, h]

theorem descend_mono (hd : t.DirectoriesIn u) {names : List String} {p q : Place}
    (h : t.descend p names = .ok q) : u.descend p names = .ok q := by
  induction names generalizing p with
  | nil => exact h
  | cons name rest ih =>
    obtain ⟨x, hs, he, hr⟩ := descend_cons_ok h
    exact descend_of_cons hs (hd x he) (ih hr)

theorem follow_of_descend {names : List String} {p q : Place} (h : t.descend p names = .ok q) :
    follow p names = .ok q := by
  induction names generalizing p with
  | nil => exact h
  | cons name rest ih =>
    obtain ⟨x, hs, -, hr⟩ := descend_cons_ok h
    simp only [follow, hs, ih hr]

theorem descend_append {names : List String} {name : String} {p q x : Place}
    (h : t.descend p names = .ok q) (hs : step q name = .ok x)
    (he : t.entry? x = some .directory) : t.descend p (names ++ [name]) = .ok x := by
  induction names generalizing p with
  | nil =>
    cases h
    exact descend_of_cons hs he rfl
  | cons n rest ih =>
    obtain ⟨y, hy, hd, hr⟩ := descend_cons_ok h
    exact descend_of_cons hy hd (ih hr)

/-- The way from a directory ends in one. -/
theorem directory_of_descend {names : List String} {p q : Place}
    (hp : t.entry? p = some .directory) (h : t.descend p names = .ok q) :
    t.entry? q = some .directory := by
  induction names generalizing p with
  | nil =>
    cases h
    exact hp
  | cons name rest ih =>
    obtain ⟨x, -, hd, hr⟩ := descend_cons_ok h
    exact ih hd hr

/-- Names without the character of number zero that lead to a place through directories, the place
itself being one. -/
structure Leads (t : Tree) (names : List String) (p : Place) : Prop where
  noZero : names.any (·.toList.contains '\x00') = false
  descend : t.descend [] names = .ok p

theorem Leads.mono {names : List String} {p : Place} (h : t.Leads names p)
    (hd : t.DirectoriesIn u) : u.Leads names p :=
  ⟨h.noZero, descend_mono hd h.descend⟩

theorem Leads.directory {names : List String} {p : Place} (h : t.Leads names p) :
    t.entry? p = some .directory :=
  directory_of_descend (entry?_nil t) h.descend

theorem Leads.unique {names : List String} {p q : Place} (h : t.Leads names p)
    (h' : t.Leads names q) : p = q := by
  have := h.descend
  rw [h'.descend] at this
  exact (Except.ok.inj this).symm

/-- Where no name leads back, no place on the way is below the last of them. -/
theorem Leads.not_onWay {names : List String} {p : Place} (h : t.Leads names p)
    (hn : ".." ∉ names) (name : String) : ¬OnWay names (p ++ [name]) := by
  rintro ⟨start, ⟨more, rfl⟩, hs⟩
  have hf := follow_of_descend h.descend
  rw [follow_append, hs] at hf
  have hp := (prefix_of_follow (fun hm => hn (List.mem_append_right _ hm)) hf).length_le
  rw [List.length_append, List.length_singleton] at hp
  omega

/-- A name in a directory that names lead to is located one step further. -/
theorem Leads.locate {names : List String} {p : Place} (h : t.Leads names p) {name : String}
    (hz : name.toList.contains '\x00' = false) : t.locate (names ++ [name]) = step p name := by
  have hzero : (names ++ [name]).any (·.toList.contains '\x00') = false := by
    rw [List.any_append, h.noZero]
    simpa using hz
  unfold Tree.locate
  rw [if_neg (by rw [hzero]; exact Bool.false_ne_true), List.getLast?_concat,
    List.dropLast_concat, h.descend]
  rfl

theorem locate_ok {names : List String} {q : Place} (h : t.locate names = .ok q) :
    ∃ start name p, names = start ++ [name] ∧ t.Leads start p ∧
      name.toList.contains '\x00' = false ∧ step p name = .ok q := by
  unfold Tree.locate at h
  split at h
  · cases h
  · rename_i hz
    split at h
    · cases h
    · rename_i last hl
      obtain ⟨start, rfl⟩ := List.getLast?_eq_some_iff.1 hl
      rw [Bool.not_eq_true, List.any_append, Bool.or_eq_false_iff] at hz
      rw [List.dropLast_concat] at h
      cases hd : t.descend [] start with
      | error f => rw [hd] at h; cases h
      | ok p =>
        rw [hd] at h
        exact ⟨start, last, p, rfl, ⟨hz.1, hd⟩, by simpa using hz.2, h⟩

theorem onWay_of_locate {names : List String} {q : Place} (h : t.locate names = .ok q) :
    OnWay names q := by
  obtain ⟨start, name, p, rfl, hl, -, hs⟩ := locate_ok h
  refine ⟨_, List.prefix_refl _, ?_⟩
  rw [follow_append, follow_of_descend hl.descend]
  show follow p [name] = _
  rw [follow, hs]
  rfl

theorem descend_bind (t : Tree) (p : Place) (names more : List String) :
    t.descend p (names ++ more) = (t.descend p names).bind fun q => t.descend q more := by
  induction names generalizing p with
  | nil => rfl
  | cons name rest ih =>
    rw [List.cons_append, descend_cons, descend_cons]
    cases step p name with
    | error f => rfl
    | ok x =>
      simp only [Except.bind]
      cases t.entry? x with
      | none => rfl
      | some e =>
        cases e with
        | file bytes => rfl
        | directory => exact ih x

/-- The beginning of names that lead to a directory leads to one. -/
theorem Leads.start {names more : List String} {p : Place} (h : t.Leads names p)
    (hp : more <+: names) : ∃ q, t.Leads more q := by
  obtain ⟨rest, rfl⟩ := hp
  obtain ⟨hzero, hdescend⟩ := h
  rw [List.any_append, Bool.or_eq_false_iff] at hzero
  rw [descend_bind] at hdescend
  cases hd : t.descend [] more with
  | error f =>
    rw [hd] at hdescend
    cases hdescend
  | ok q => exact ⟨q, hzero.1, hd⟩

theorem Leads.isDirectory {names : List String} {p : Place} (h : t.Leads names p)
    (hn : names ≠ []) : t.isDirectory names = true := by
  obtain ⟨last, hlast⟩ := List.getLast?_isSome.2 hn |> Option.isSome_iff_exists.1
  obtain ⟨start, rfl⟩ := List.getLast?_eq_some_iff.1 hlast
  obtain ⟨x, hx⟩ := h.start (List.prefix_append start [last])
  have hdescend := h.descend
  rw [descend_bind, hx.descend] at hdescend
  obtain ⟨y, hs, he, hy⟩ := descend_cons_ok hdescend
  cases hy
  have hzero := h.noZero
  rw [List.any_append, hx.noZero] at hzero
  unfold Tree.isDirectory
  rw [hx.locate (by simpa using hzero), hs]
  simpa using he

/-- The places on the way of names that lead to a directory are directories. -/
theorem Leads.onWay {names : List String} {p q : Place} (h : t.Leads names p)
    (hq : OnWay names q) : t.entry? q = some .directory := by
  obtain ⟨start, hstart, hf⟩ := hq
  obtain ⟨x, hx⟩ := h.start hstart
  rw [follow_of_descend hx.descend] at hf
  cases hf
  exact hx.directory

theorem descend_of_kept {names : List String} {p q : Place} (h : t.descend p names = .ok q)
    (hk : ∀ start x, start <+: names → follow p start = .ok x → u.entry? x = t.entry? x) :
    u.descend p names = .ok q := by
  induction names generalizing p with
  | nil => exact h
  | cons name rest ih =>
    obtain ⟨x, hs, he, hr⟩ := descend_cons_ok h
    have hfirst : follow p [name] = .ok x := by
      rw [follow, hs]
      rfl
    refine descend_of_cons hs ?_ (ih hr fun start y hstart hy => ?_)
    · rw [hk [name] x ⟨rest, rfl⟩ hfirst, he]
    · refine hk (name :: start) y ((List.prefix_cons_inj name).2 hstart) ?_
      rw [follow, hs]
      exact hy

/-- Names lead where they led if the places on their way are as they were. -/
theorem Leads.of_kept {names : List String} {p : Place} (h : t.Leads names p)
    (hk : ∀ q, OnWay names q → u.entry? q = t.entry? q) : u.Leads names p :=
  ⟨h.noZero, descend_of_kept h.descend fun start x hstart hx => hk x ⟨start, hstart, hx⟩⟩

/-! ## Single operations -/

/-- One tree is another with something else at a place. -/
def ChangedAt (t : Tree) (p : Place) (e : Option Entry) (u : Tree) : Prop :=
  ∀ q, u.entry? q = if q = p then e else t.entry? q

theorem ChangedAt.at {p : Place} {e : Option Entry} (h : t.ChangedAt p e u) : u.entry? p = e := by
  rw [h p, if_pos rfl]

theorem ChangedAt.of_ne {p q : Place} {e : Option Entry} (h : t.ChangedAt p e u) (hq : q ≠ p) :
    u.entry? q = t.entry? q := by
  rw [h q, if_neg hq]

theorem ChangedAt.directoriesIn {p : Place} {e : Option Entry} (h : t.ChangedAt p e u)
    (hp : t.entry? p ≠ some .directory) : t.DirectoriesIn u := by
  intro q hq
  have hne : q ≠ p := by rintro rfl; exact hp hq
  rw [h.of_ne hne, hq]

theorem fileAt_ok {p : Path} {q : Place} {bytes : List UInt8} (h : t.fileAt p = .ok (q, bytes)) :
    t.locate p.names = .ok q ∧ t.entry? q = some (.file bytes) := by
  unfold Tree.fileAt at h
  cases hl : t.locate p.names with
  | error f => rw [hl] at h; cases h
  | ok x =>
    rw [hl] at h
    simp only [bind, Except.bind] at h
    split at h
    · cases h
    · cases h
    · rename_i he
      split at h
      · cases h
      · cases h
        exact ⟨rfl, he⟩

theorem fileAt_of {p : Path} {q : Place} {bytes : List UInt8} (hl : t.locate p.names = .ok q)
    (he : t.entry? q = some (.file bytes)) (hc : p.closed = false) :
    t.fileAt p = .ok (q, bytes) := by
  unfold Tree.fileAt
  simp only [hl, bind, Except.bind, he, hc, Bool.false_eq_true, if_false]

theorem read_of {p : Path} {q : Place} {bytes : List UInt8} (hl : t.locate p.names = .ok q)
    (he : t.entry? q = some (.file bytes)) (hc : p.closed = false) : t.read p = .ok bytes := by
  unfold Tree.read
  rw [fileAt_of hl he hc]
  rfl

theorem write_ok {p : Path} {bytes : List UInt8} (h : t.write p bytes = .ok u) :
    ∃ q, t.locate p.names = .ok q ∧ t.entry? q ≠ some .directory ∧
      t.ChangedAt q (some (.file bytes)) u := by
  unfold Tree.write at h
  cases hl : t.locate p.names with
  | error f => rw [hl] at h; cases h
  | ok q =>
    rw [hl] at h
    simp only [bind, Except.bind] at h
    split at h
    · cases h
    · rename_i hd
      cases h
      have hq : t.entry? q ≠ some .directory := fun hq => hd (.inr hq)
      exact ⟨q, rfl, hq, entry?_put hq _⟩

theorem makeDirectory_ok {names : List String} (h : t.makeDirectory names = .ok u) :
    ∃ q, t.locate names = .ok q ∧ t.entry? q = none ∧ t.ChangedAt q (some .directory) u := by
  unfold Tree.makeDirectory at h
  cases hl : t.locate names with
  | error f => rw [hl] at h; cases h
  | ok q =>
    rw [hl] at h
    simp only [bind, Except.bind] at h
    split at h
    · cases h
    · rename_i he
      cases h
      exact ⟨q, rfl, he, entry?_put (by rw [he]; simp) _⟩

theorem remove_of {p : Path} {q : Place} {bytes : List UInt8} (hl : t.locate p.names = .ok q)
    (he : t.entry? q = some (.file bytes)) (hc : p.closed = false) :
    ∃ u, t.remove p = .ok u ∧ t.ChangedAt q none u := by
  refine ⟨⟨t.entries.erase q⟩, ?_, entry?_erase (by rw [he]; simp)⟩
  unfold Tree.remove
  rw [fileAt_of hl he hc]
  rfl

theorem remove_ok {p : Path} (h : t.remove p = .ok u) :
    ∃ q, t.locate p.names = .ok q ∧ t.entry? q ≠ some .directory ∧ t.ChangedAt q none u := by
  unfold Tree.remove at h
  cases hf : t.fileAt p with
  | error f => rw [hf] at h; cases h
  | ok found =>
    obtain ⟨q, bytes⟩ := found
    obtain ⟨hl, he⟩ := fileAt_ok hf
    rw [hf] at h
    cases h
    have hq : t.entry? q ≠ some .directory := by rw [he]; simp
    exact ⟨q, hl, hq, entry?_erase hq⟩

theorem move_ok {p target : Path} (h : t.move p target = .ok u) :
    ∃ q bytes goal, t.locate p.names = .ok q ∧ t.entry? q = some (.file bytes) ∧
      t.locate target.names = .ok goal ∧ t.entry? goal ≠ some .directory ∧
      ∃ v, t.ChangedAt q none v ∧ v.ChangedAt goal (some (.file bytes)) u := by
  unfold Tree.move at h
  cases hf : t.fileAt p with
  | error f => rw [hf] at h; cases h
  | ok r =>
    obtain ⟨q, bytes⟩ := r
    obtain ⟨hl, he⟩ := fileAt_ok hf
    rw [hf] at h
    cases hg : t.locate target.names with
    | error f => rw [hg] at h; cases h
    | ok goal =>
      rw [hg] at h
      simp only [bind, Except.bind] at h
      split at h
      · cases h
      · split at h
        · cases h
        · rename_i hd
          cases h
          have hq : t.entry? q ≠ some .directory := by rw [he]; simp
          have hv : t.ChangedAt q none ⟨t.entries.erase q⟩ := entry?_erase hq
          refine ⟨q, bytes, goal, hl, he, rfl, hd, ⟨t.entries.erase q⟩, hv, entry?_put ?_ _⟩
          show Tree.entry? ⟨t.entries.erase q⟩ goal ≠ some .directory
          rw [hv goal]
          split
          · simp
          · exact hd

/-- Moving a file to where no directory is succeeds. -/
theorem move_of {p target : Path} {q goal : Place} {bytes : List UInt8}
    (hl : t.locate p.names = .ok q) (he : t.entry? q = some (.file bytes)) (hc : p.closed = false)
    (hg : t.locate target.names = .ok goal) (ht : target.closed = false)
    (hd : t.entry? goal ≠ some .directory) : ∃ u, t.move p target = .ok u := by
  unfold Tree.move
  rw [fileAt_of hl he hc]
  simp only [bind, Except.bind, hg, ht, hd, Bool.false_eq_true, if_false]
  exact ⟨_, rfl⟩

/-- Removing the tree below a directory. -/
theorem removeTree_of {p : Path} {q : Place} (hl : t.locate p.names = .ok q)
    (he : t.entry? q = some .directory) (hq : ¬(q = [] ∨ q = root)) :
    ∃ u, t.removeTree p = .ok u ∧
      ∀ x, u.entry? x = if q <+: x then none else t.entry? x := by
  refine ⟨⟨t.entries.filter fun x _ => !q.isPrefixOf x⟩, ?_, entry?_prune t hq⟩
  unfold Tree.removeTree
  simp only [hl, bind, Except.bind, he]

/-! ## Directories one below the other -/

/-- A place is as it was, or a directory was made there, where nothing was, on the way of names. -/
def KeptAt (names : List String) (t u : Tree) (q : Place) : Prop :=
  u.entry? q = t.entry? q ∨
    (t.entry? q = none ∧ u.entry? q = some .directory ∧ OnWay names q)

/-- One tree is another with directories made on the way of names. -/
def MadeOnWay (names : List String) (t u : Tree) : Prop :=
  ∀ q, KeptAt names t u q

theorem KeptAt.congr {names : List String} {v : Tree} {q : Place} (h : KeptAt names t u q)
    (hq : v.entry? q = u.entry? q) : KeptAt names t v q := by
  unfold KeptAt
  rw [hq]
  exact h

theorem MadeOnWay.directoriesIn {names : List String} (h : MadeOnWay names t u) :
    t.DirectoriesIn u := by
  intro q hq
  rcases h q with e | ⟨hn, -, -⟩
  · rw [e, hq]
  · rw [hq] at hn
    cases hn

theorem MadeOnWay.none_of {names : List String} (h : MadeOnWay names t u) {q : Place}
    (hq : u.entry? q = none) : t.entry? q = none := by
  rcases h q with e | ⟨hn, -, -⟩
  · rw [← e, hq]
  · exact hn

theorem MadeOnWay.refl (names : List String) (t : Tree) : MadeOnWay names t t :=
  fun _ => .inl rfl

theorem MadeOnWay.trans {names : List String} {v : Tree} (h : MadeOnWay names t u)
    (h' : MadeOnWay names u v) : MadeOnWay names t v := by
  intro q
  rcases h q with e | ⟨hn, hd, hw⟩
  · rcases h' q with e' | ⟨hn', hd', hw'⟩
    · exact .inl (e'.trans e)
    · exact .inr ⟨e ▸ hn', hd', hw'⟩
  · rcases h' q with e' | ⟨hn', -, -⟩
    · exact .inr ⟨hn, e'.trans hd, hw⟩
    · rw [hd] at hn'; cases hn'

theorem MadeOnWay.longer {names more : List String} (h : MadeOnWay names t u)
    (hp : names <+: more) : MadeOnWay more t u :=
  fun q => (h q).imp id fun ⟨hn, hd, hw⟩ => ⟨hn, hd, hw.longer hp⟩

theorem isDirectory_leads {names : List String} (h : t.isDirectory names = true) :
    ∃ p, t.Leads names p := by
  unfold Tree.isDirectory at h
  cases hl : t.locate names with
  | error f => rw [hl] at h; cases h
  | ok p =>
    rw [hl] at h
    have he : t.entry? p = some .directory := by simpa using h
    obtain ⟨start, name, x, rfl, hs, hz, hstep⟩ := locate_ok hl
    refine ⟨p, ?_, descend_append hs.descend hstep he⟩
    rw [List.any_append, hs.noZero]
    simpa using hz

/-- A directory that is provided is made at the end of its names, if at all. -/
theorem provideDirectory_spec (t : Tree) (names : List String) :
    MadeOnWay names t (t.provideDirectory names).2 ∧
      ((t.provideDirectory names).1 = .ok () →
        ∃ p, (t.provideDirectory names).2.Leads names p) := by
  unfold Tree.provideDirectory
  by_cases hd : t.isDirectory names = true
  · rw [if_pos hd]
    exact ⟨.refl names t, fun _ => isDirectory_leads hd⟩
  · rw [if_neg hd]
    cases hm : t.makeDirectory names with
    | error f => exact ⟨.refl names t, fun h => by cases h⟩
    | ok u =>
      obtain ⟨q, hl, hn, hc⟩ := makeDirectory_ok hm
      refine ⟨fun x => ?_, fun _ => isDirectory_leads ?_⟩
      · show u.entry? x = _ ∨ _ ∧ u.entry? x = _ ∧ _
        by_cases hx : x = q
        · subst hx
          exact .inr ⟨hn, hc.at, onWay_of_locate hl⟩
        · exact .inl (hc.of_ne hx)
      · show u.isDirectory names = true
        obtain ⟨start, name, p, rfl, hs, hz, hstep⟩ := locate_ok hl
        have hd' : t.DirectoriesIn u := hc.directoriesIn (by rw [hn]; simp)
        unfold Tree.isDirectory
        rw [(hs.mono hd').locate hz, hstep]
        simpa using hc.at

/-- Making directories adds directories on the way of their names and changes nothing else, and
where it succeeds the names lead to a directory. -/
theorem makeDirectories_spec (t : Tree) (names : List String) :
    MadeOnWay names t (t.makeDirectories names).2 ∧
      ((t.makeDirectories names).1 = .ok () → ∃ p, (t.makeDirectories names).2.Leads names p) := by
  fun_induction Tree.makeDirectories t names with
  -- The cases: no names; the directories around made first; these not made; none to make first.
  | case1 t => exact ⟨.refl [] t, fun _ => ⟨[], rfl, rfl⟩⟩
  | case2 t names _ u hp v hm ih =>
    have first := (provideDirectory_spec t names).1
    have second := ih.1.longer (enclosing_starts names)
    obtain ⟨third, leads⟩ := provideDirectory_spec v names
    rw [hp] at first
    rw [hm] at second
    exact ⟨(first.trans second).trans third, leads⟩
  | case3 t names _ u hp hfail ih =>
    have first := (provideDirectory_spec t names).1
    rw [hp] at first
    refine ⟨first.trans (ih.1.longer (enclosing_starts names)), fun h => ?_⟩
    exact (hfail _ (Prod.ext h rfl)).elim
  | case4 t names _ _ => exact provideDirectory_spec t names

end Tree

end Triage.Storage
