/-
The bundles of two tasks in one directory. Each task has places of its own in it: those of its files
and, in directories with new names for it, those the files are staged at. The publishing of a bundle
keeps to the places of its task once the directory is there, so that of another task does not come
into its way.
-/
import Triage.Proofs.Bundle.Publish
import Triage.Proofs.Storage.Directories
import Triage.Proofs.Storage.Separation

namespace Triage

open Storage (Division Entry Operation OnWay Paired Path Place Program Refusals Refusing SameChanges
  SingleName Tree)

namespace Bundle

variable {r : Refusals} {v t u : Tree} {dir : Path} {p q : Place} {task other : Task}
  {name : String}

/-! ## Places of a task -/

/-- A name for a staging directory of a task that is not in use. -/
structure NewName (v : Tree) (task : Task) (name : String) : Prop where
  form : ∃ zeros, name = stagingStart task ++ String.ofList (List.replicate zeros '0')
  unused : ∀ q : Place, name ∈ q → v.entry? q = none

/-- The places of a task in a directory: those of its files, and those of its staging directories
and of the files in them. -/
inductive Own (v : Tree) (p : Place) (task : Task) : Place → Prop
  | file (f : BundleFile) : Own v p task (f.place p task)
  | staging {name : String} (new : NewName v task name) : Own v p task (p ++ [name])
  | staged {name : String} (new : NewName v task name) (f : BundleFile) :
    Own v p task (f.place (p ++ [name]) task)

/-- Whether a name is that of a file of a task, or starts like those of its staging directories. -/
def Belongs (task : Task) (name : String) : Prop :=
  (∃ f : BundleFile, name = f.name task) ∨ (stagingStart task).toList <+: name.toList

theorem NewName.starts (new : NewName v task name) :
    (stagingStart task).toList <+: name.toList := by
  obtain ⟨zeros, rfl⟩ := new.form
  simp

theorem NewName.belongs (new : NewName v task name) : Belongs task name :=
  .inr new.starts

/-- A name belongs to one task at most. -/
theorem Belongs.unique (h : Belongs task name) (h' : Belongs other name) : task = other := by
  rcases h with ⟨f, rfl⟩ | h
  · rcases h' with ⟨g, hg⟩ | h'
    · exact Classical.byContradiction fun hne => BundleFile.name_ne_of_task hne f g hg
    · exact absurd h' (file_not_staging f task other)
  · rcases h' with ⟨g, rfl⟩ | h'
    · exact absurd h (file_not_staging g other task)
    · have starts := List.prefix_or_prefix_of_prefix h h'
      revert starts
      cases task <;> cases other <;> decide

/-- The name behind that of the directory is one of the task. -/
theorem Own.head (h : Own v p task q) : ∃ name rest, q = p ++ name :: rest ∧ Belongs task name := by
  cases h with
  | file f => exact ⟨f.name task, [], rfl, .inl ⟨f, rfl⟩⟩
  | @staging name new => exact ⟨name, [], rfl, new.belongs⟩
  | @staged name new f => exact ⟨name, [f.name task], by simp [BundleFile.place], new.belongs⟩

/-- So are all names behind it. -/
theorem Own.belongs_of_mem (h : Own v p task q) (hname : name ∈ q) :
    name ∈ p ∨ Belongs task name := by
  have behind {q : Place} {last : String} (hlast : Belongs task last) (hname : name ∈ q ++ [last]) :
      name ∈ q ∨ Belongs task name := by
    rcases List.mem_append.1 hname with h | h
    · exact .inl h
    · rw [List.mem_singleton.1 h]
      exact .inr hlast
  cases h with
  | file f => exact behind (.inl ⟨f, rfl⟩) hname
  | staging new => exact behind new.belongs hname
  | staged new f => exact (behind (.inl ⟨f, rfl⟩) hname).elim (behind new.belongs) .inr

theorem Own.unique_of_prefix (h : Own v p task q) (hb : Belongs other name)
    (hq : p ++ [name] <+: q) : task = other := by
  obtain ⟨head, rest, rfl, hhead⟩ := h.head
  obtain ⟨rest', hrest⟩ := hq
  rw [List.append_assoc] at hrest
  obtain ⟨rfl, -⟩ := List.cons.inj (List.append_cancel_left hrest)
  exact hhead.unique hb

/-- A place is that of one task at most. -/
theorem Own.unique (h : Own v p task q) (h' : Own v p other q) : task = other := by
  obtain ⟨name, rest, rfl, hname⟩ := h'.head
  exact h.unique_of_prefix hname ⟨rest, by simp⟩

/-- The division of places between two tasks, for trees in which names lead to the directory and
nothing has changed but at places of tasks. -/
def division (v : Tree) (dir : Path) (p : Place) (task other : Task) : Division where
  valid t := t.Leads dir.names p ∧ ∀ q, (∀ task, ¬Own v p task q) → t.entry? q = v.entry? q
  own := Own v p task
  foreign := Own v p other

theorem division_self (hv : v.Leads dir.names p) : (division v dir p task other).valid v :=
  ⟨hv, fun _ _ => rfl⟩

/-! ## New names -/

/-- Nothing that is not the task's is in a staging directory of a new name. -/
theorem NewName.below (new : NewName v task name) (ht : (division v dir p task other).valid t)
    (hq : p ++ [name] <+: q) (hown : ¬Own v p task q) : t.entry? q = none := by
  rw [ht.2 q fun another h => hown (h.unique_of_prefix new.belongs hq ▸ h)]
  exact new.unused q (hq.subset (by simp))

/-- No place on the way to the directory is in one of a new name. -/
theorem NewName.not_onWay (new : NewName v task name) (hv : v.Leads dir.names p)
    (hq : OnWay dir.names q) : ¬p ++ [name] <+: q := by
  intro hbegins
  have hnone := new.unused q (hbegins.subset (by simp))
  rw [hv.onWay hq] at hnone
  cases hnone

/-- Names in use that start like those of the staging directories of a task are in use whatever the
places of another task hold. -/
theorem inUse_of_alike (hne : task ≠ other) (ht : (division v dir p task other).valid t)
    (hu : (division v dir p task other).valid u) (htu : t.AlikeOutside (Own v p other) u)
    (hq : q ∈ t.entries) (hname : name ∈ q) (hs : (stagingStart task).toList <+: name.toList) :
    ∃ q ∈ u.entries, name ∈ q := by
  have hbelongs : Belongs task name := .inr hs
  -- A place with such a name is not that of a root, so what is there is among the entries.
  have hroot {q : Place} (hname : name ∈ q) : ¬(q = [] ∨ q = Storage.root) := by
    rintro (rfl | rfl)
    · cases hname
    · rw [List.mem_singleton.1 hname] at hs
      revert hs
      cases task <;> decide
  have hmem {w : Tree} {q : Place} (hname : name ∈ q) : w.entry? q ≠ none ↔ q ∈ w.entries := by
    unfold Tree.entry?
    rw [if_neg (hroot hname), Option.ne_none_iff_isSome, Std.TreeMap.isSome_getElem?_iff_mem]
  by_cases hown : Own v p other q
  · have hp : name ∈ p :=
      (hown.belongs_of_mem hname).resolve_right fun h => hne (hbelongs.unique h)
    exact ⟨p, (hmem hp).1 (by rw [hu.1.directory]; simp), hp⟩
  · refine ⟨q, (hmem hname).1 ?_, hname⟩
    rw [htu q hown]
    exact (hmem hname).2 hq

/-- A new name is one that is not in use before anything changed either. -/
theorem newName_freshName (ht : (division v dir p task other).valid t) :
    NewName v task (t.freshName (stagingStart task)) := by
  have hunused {q : Place} (hq : t.freshName (stagingStart task) ∈ q) : t.entry? q = none :=
    t.entry?_freshName (stagingStart_plain task).1 hq
  refine ⟨⟨_, rfl⟩, fun q hq => ?_⟩
  by_cases hown : ∃ another, Own v p another q
  · obtain ⟨another, hown⟩ := hown
    cases hown with
    | file f =>
      rcases List.mem_append.1 hq with h | h
      · have hnone := hunused h
        rw [ht.1.directory] at hnone
        cases hnone
      · have hstart := t.start_prefix_freshName (stagingStart task)
        rw [List.mem_singleton.1 h] at hstart
        exact absurd hstart (file_not_staging f another task)
    | staging new => exact new.unused _ (by simp)
    | staged new f => exact new.unused _ (by simp [BundleFile.place])
  · rw [← ht.2 q fun another h => hown ⟨another, h⟩]
    exact hunused hq

/-! ## Paths of a task -/

theorem NewName.plain (new : NewName v task name) :
    SingleName name ∧ name.toList.contains '\x00' = false ∧
      (Storage.step p name = .error .nameTooLong ∨ Storage.step p name = .ok (p ++ [name])) := by
  obtain ⟨zeros, hname⟩ := new.form
  obtain ⟨hsingle, hzero, hdot, hdots, -⟩ := staging_plain hname
  refine ⟨hsingle, hzero, ?_⟩
  unfold Storage.step
  rw [if_neg hdot, if_neg hdots]
  split
  · exact .inl rfl
  · exact .inr rfl

theorem path_located (hne : task ≠ other) (f : BundleFile) :
    (f.path dir task).Located (division v dir p task other) := by
  refine ⟨fun t u ht hu _ => ?_, fun t q ht hq => ?_⟩
  · rw [BundleFile.locate_path ht.1, BundleFile.locate_path hu.1]
  · rw [BundleFile.locate_path ht.1] at hq
    cases hq
    have hown : Own v p task (f.place p task) := .file f
    exact ⟨hown, fun h => hne (hown.unique h)⟩

theorem locate_staging (new : NewName v task name) (ht : t.Leads dir.names p) :
    t.locate (dir.child name).names = Storage.step p name := by
  obtain ⟨hsingle, hzero, -⟩ := new.plain (p := p)
  rw [hsingle.child_names, ht.locate hzero]

/-- Where it leads anywhere, the path of a staging directory leads to its place. -/
theorem place_of_staging (new : NewName v task name) (ht : t.Leads dir.names p) {s : Place}
    (hs : t.locate (dir.child name).names = .ok s) : s = p ++ [name] := by
  obtain ⟨-, -, hstep⟩ := new.plain (p := p)
  rw [locate_staging new ht] at hs
  rcases hstep with h | h
  · rw [h] at hs
    cases hs
  · rw [h] at hs
    cases hs
    rfl

theorem staging_located (hne : task ≠ other) (new : NewName v task name) :
    (dir.child name).Located (division v dir p task other) := by
  refine ⟨fun t u ht hu _ => ?_, fun t q ht hq => ?_⟩
  · rw [locate_staging new ht.1, locate_staging new hu.1]
  · obtain rfl := place_of_staging new ht.1 hq
    have hown : Own v p task (p ++ [name]) := .staging new
    exact ⟨hown, fun h => hne (hown.unique h)⟩

/-- Where the path of a staged file leads depends on the staging directory alone. -/
theorem locate_staged (new : NewName v task name) (ht : t.Leads dir.names p) (f : BundleFile) :
    t.locate (f.path (dir.child name) task).names =
      match Storage.step p name with
      | .error fault => .error fault
      | .ok s =>
        match t.entry? s with
        | none => .error .notFound
        | some (.file _) => .error .notADirectory
        | some .directory => .ok (f.place s task) := by
  obtain ⟨hsingle, hzero, -⟩ := new.plain (p := p)
  have hz : (dir.names ++ [name] ++ [f.name task]).any (·.toList.contains '\x00') = false := by
    rw [List.any_append, List.any_append, ht.noZero, List.any_cons, hzero, List.any_cons,
      BundleFile.name_noZero]
    rfl
  rw [BundleFile.path_names, hsingle.child_names, Tree.locate_concat hz, Tree.descend_bind,
    ht.descend]
  show (t.descend p [name]).bind _ = _
  rw [Tree.descend_cons]
  cases Storage.step p name with
  | error fault => rfl
  | ok s =>
    simp only [Except.bind]
    cases t.entry? s with
    | none => rfl
    | some e =>
      cases e with
      | file bytes => rfl
      | directory => exact BundleFile.step_name s task f

theorem staged_located (hne : task ≠ other) (new : NewName v task name) (f : BundleFile) :
    (f.path (dir.child name) task).Located (division v dir p task other) := by
  have hown : Own v p task (p ++ [name]) := .staging new
  obtain ⟨-, -, hstep⟩ := new.plain (p := p)
  refine ⟨fun t u ht hu htu => ?_, fun t q ht hq => ?_⟩
  · rw [locate_staged new ht.1, locate_staged new hu.1]
    rcases hstep with h | h
    · rw [h]
    · simp only [h, htu _ fun h' => hne (hown.unique h')]
  · rw [locate_staged new ht.1] at hq
    rcases hstep with h | h
    · rw [h] at hq
      cases hq
    · simp only [h] at hq
      split at hq
      · cases hq
      · cases hq
      · cases hq
        have hown : Own v p task (f.place (p ++ [name]) task) := .staged new f
        exact ⟨hown, fun h => hne (hown.unique h)⟩

/-! ## Operations of the publishing -/

/-- An operation keeps to the places of a task if it makes the same changes there on trees that are
alike outside the places of the other one, and names still lead to the directory. -/
theorem keeps_of_changes {op : Operation} (timeless : op ≠ .clock)
    (leads : ∀ t, (division v dir p task other).valid t → (op.on r t).2.Leads dir.names p)
    (changes : ∀ t u, (division v dir p task other).valid t →
      (division v dir p task other).valid u → t.AlikeOutside (Own v p other) u →
        SameChanges (Own v p task) t u (op.on r t) (op.on r u)) :
    op.Keeps r (division v dir p task other) where
  timeless := timeless
  valid t ht := by
    have hwithin := (changes t t ht ht (.refl _ t)).within
    exact ⟨leads t ht, fun q hq => (hwithin q (hq task)).trans (ht.2 q hq)⟩
  within t ht := (changes t t ht ht (.refl _ t)).within
  alike t u ht hu htu :=
    have same := changes t u ht hu htu
    ⟨same.answer, same.alike htu⟩

/-- So does a change that may be refused, whatever files there are. -/
theorem keeps_of_change (hr : r.Static) {c : Storage.Change}
    (leads : ∀ t, (division v dir p task other).valid t → (Tree.change c t).2.Leads dir.names p)
    (changes : ∀ t u, (division v dir p task other).valid t →
      (division v dir p task other).valid u → t.AlikeOutside (Own v p other) u →
        SameChanges (Own v p task) t u (Tree.change c t) (Tree.change c u)) :
    (Operation.change c).Keeps r (division v dir p task other) := by
  refine keeps_of_changes (fun h => by cases h) (fun t ht => ?_) fun t u ht hu htu => ?_
  · show (Refusing.change r c t).2.Leads dir.names p
    rcases Refusing.change_cases r c t with ⟨f, h⟩ | h
    · rw [h]
      exact ht.1
    · rw [h]
      exact leads t ht
  · show SameChanges _ t u (Refusing.change r c t) (Refusing.change r c u)
    unfold Refusing.change
    rw [hr.change u t]
    cases r.change t c with
    | some f => exact .none _ t u _
    | none => exact changes t u ht hu htu

theorem settle_leads (ht : t.Leads dir.names p) {x : Except FileFault Tree}
    (h : ∀ u, x = .ok u → t.DirectoriesIn u) : (t.settle x).2.Leads dir.names p := by
  cases x with
  | error f => exact ht
  | ok u => exact ht.mono (h u rfl)

theorem keeps_write (hr : r.Static) {path : Path}
    (hpath : path.Located (division v dir p task other)) (bytes : List UInt8) :
    (Operation.change (.write path bytes)).Keeps r (division v dir p task other) := by
  refine keeps_of_change hr (fun t ht => settle_leads ht.1 fun u hu => ?_)
    fun t u ht hu htu => hpath.write ht hu htu bytes
  obtain ⟨q, -, hq, hc⟩ := Tree.write_ok hu
  exact hc.directoriesIn hq

theorem keeps_move (hr : r.Static) {path target : Path}
    (hpath : path.Located (division v dir p task other))
    (htarget : target.Located (division v dir p task other)) :
    (Operation.change (.move path target)).Keeps r (division v dir p task other) := by
  refine keeps_of_change hr (fun t ht => settle_leads ht.1 fun u hu => ?_)
    fun t u ht hu htu => hpath.move ht hu htu htarget
  obtain ⟨q, bytes, goal, -, he, -, hd, x, hx, hu⟩ := Tree.move_ok hu
  refine (hx.directoriesIn (by rw [he]; simp)).trans (hu.directoriesIn ?_)
  rw [hx goal]
  split
  · simp
  · exact hd

theorem keeps_remove (hr : r.Static) {path : Path}
    (hpath : path.Located (division v dir p task other)) :
    (Operation.change (.remove path)).Keeps r (division v dir p task other) := by
  refine keeps_of_change hr (fun t ht => settle_leads ht.1 fun u hu => ?_)
    fun t u ht hu htu => hpath.remove ht hu htu
  obtain ⟨q, -, he, hc⟩ := Tree.remove_ok hu
  exact hc.directoriesIn he

/-- The directory is there, so it does not have to be made. -/
theorem keeps_makeDirectories (hr : r.Static) :
    (Operation.change (.makeDirectories dir)).Keeps r (division v dir p task other) := by
  have hmade {t : Tree} (ht : t.Leads dir.names p) :
      Tree.change (.makeDirectories dir) t = (.ok (), t) := ht.makeDirectories
  refine keeps_of_change hr (fun t ht => ?_) fun t u ht hu _ => ?_
  · rw [hmade ht.1]
    exact ht.1
  · rw [hmade ht.1, hmade hu.1]
    exact .none _ t u _

theorem NewName.not_root (new : NewName v task name) :
    ¬(p ++ [name] = [] ∨ p ++ [name] = Storage.root) := by
  obtain ⟨hsingle, -, -⟩ := new.plain (p := p)
  rintro (h | h)
  · simp at h
  · have hmem : name ∈ Storage.root := by
      rw [← h]
      simp
    refine hsingle.noStroke ?_
    rw [List.mem_singleton.1 hmem]
    decide

/-- With a staging directory nothing goes but what is the task's. -/
theorem prune_changes (new : NewName v task name) (ht : (division v dir p task other).valid t)
    (hu : (division v dir p task other).valid u) :
    SameChanges (Own v p task) t u
      ((.ok (), ⟨t.entries.filter fun x _ => !(p ++ [name]).isPrefixOf x⟩) :
        Except FileFault Unit × Tree)
      (.ok (), ⟨u.entries.filter fun x _ => !(p ++ [name]).isPrefixOf x⟩) := by
  classical
  have pruned {w : Tree} (hw : (division v dir p task other).valid w) (q : Place) :
      Tree.entry? ⟨w.entries.filter fun x _ => !(p ++ [name]).isPrefixOf x⟩ q =
        (if p ++ [name] <+: q ∧ Own v p task q then some none else none).getD (w.entry? q) := by
    rw [Tree.entry?_prune w new.not_root]
    by_cases hq : p ++ [name] <+: q
    · by_cases hown : Own v p task q
      · rw [if_pos hq, if_pos ⟨hq, hown⟩]
        rfl
      · rw [if_pos hq, if_neg fun h => hown h.2, Option.getD_none, new.below hw hq hown]
    · rw [if_neg hq, if_neg fun h => hq h.1]
      rfl
  refine ⟨rfl, fun q => if p ++ [name] <+: q ∧ Own v p task q then some none else none, pruned ht,
    pruned hu, fun q e h => ?_⟩
  by_cases hq : p ++ [name] <+: q ∧ Own v p task q
  · exact hq.2
  · simp [hq] at h

theorem keeps_removeTree (hr : r.Static) (hne : task ≠ other) (hv : v.Leads dir.names p)
    (new : NewName v task name) :
    (Operation.change (.removeTree (dir.child name))).Keeps r (division v dir p task other) := by
  have hpath : (dir.child name).Located (division v dir p task other) := staging_located hne new
  refine keeps_of_change hr (fun t ht => ?_) fun t u ht hu htu => ?_
  · show (t.settle (t.removeTree (dir.child name))).2.Leads dir.names p
    unfold Tree.removeTree
    cases hs : t.locate (dir.child name).names with
    | error f => exact ht.1
    | ok s =>
      obtain rfl := place_of_staging new ht.1 hs
      simp only [bind, Except.bind]
      split
      · exact ht.1
      · exact ht.1
      · refine ht.1.of_kept fun q hq => ?_
        show Tree.entry? ⟨t.entries.filter _⟩ q = _
        rw [Tree.entry?_prune t new.not_root, if_neg (new.not_onWay hv hq)]
  · show SameChanges _ t u (t.settle (t.removeTree _)) (u.settle (u.removeTree _))
    unfold Tree.removeTree
    rw [hpath.same t u ht hu htu]
    cases hs : t.locate (dir.child name).names with
    | error f => exact .none _ t u _
    | ok s =>
      have hforeign := (hpath.own t s ht hs).2
      obtain rfl := place_of_staging new ht.1 hs
      simp only [bind, Except.bind, htu _ hforeign]
      cases t.entry? (p ++ [name]) with
      | none => exact .none _ t u _
      | some e =>
        cases e with
        | file bytes => exact .none _ t u _
        | directory => exact prune_changes new ht hu

/-- On trees that are alike outside the places of another task the staging directory of a task gets
the same name, which is a new one. -/
theorem keeps_makeFresh (hr : r.Static) (hne : task ≠ other) :
    (Operation.makeFresh dir (stagingStart task)).Keeps r (division v dir p task other) := by
  refine keeps_of_changes (fun h => by cases h) (fun t ht => ?_) fun t u ht hu htu => ?_
  · show (Refusing.makeFresh r dir (stagingStart task) t).2.Leads dir.names p
    rcases Refusing.makeFresh_cases r dir (stagingStart task) t with ⟨f, h⟩ | ⟨u, h, hu⟩
    · rw [h]
      exact ht.1
    · rw [h]
      obtain ⟨q, -, hnone, hc⟩ := Tree.makeDirectory_ok hu
      exact ht.1.mono (hc.directoriesIn (by rw [hnone]; simp))
  · show SameChanges _ t u (Refusing.makeFresh r dir _ t) (Refusing.makeFresh r dir _ u)
    unfold Refusing.makeFresh
    rw [hr.fresh u t]
    cases r.fresh t with
    | some f => exact .none _ t u _
    | none =>
      have hname : u.freshName (stagingStart task) = t.freshName (stagingStart task) :=
        Tree.freshName_congr
          (fun q hq x hx hs => inUse_of_alike hne hu ht htu.symm hq hx hs)
          (fun q hq x hx hs => inUse_of_alike hne ht hu htu hq hx hs)
      have hpath : (dir.child (t.freshName (stagingStart task))).Located
          (division v dir p task other) := staging_located hne (newName_freshName ht)
      unfold Tree.makeFresh Tree.makeDirectory
      simp only [hname, hpath.same t u ht hu htu]
      cases hs : t.locate (dir.child (t.freshName (stagingStart task))).names with
      | error f => exact .none _ t u _
      | ok s =>
        obtain ⟨hown, hforeign⟩ := hpath.own t s ht hs
        simp only [bind, Except.bind, htu s hforeign]
        cases he : t.entry? s with
        | some e => exact .none _ t u _
        | none =>
          have hd : t.entry? s ≠ some .directory := by rw [he]; simp
          exact .at_place (Tree.entry?_put hd _) (Tree.entry?_put (htu s hforeign ▸ hd) _) hown _

/-! ## The publishing -/

section

variable (hr : r.Static) (hne : task ≠ other) (hv : v.Leads dir.names p)

include hr hne in
theorem writeAll_paired (new : NewName v task name) (b : Bundle) (fs : List BundleFile) :
    Paired r (division v dir p task other) Eq
      (Storage.writeAll (m := Program)
        (fs.map fun f => (f.path (dir.child name) task, b.content f)))
      (Storage.writeAll (m := Program)
        (fs.map fun f => (f.path (dir.child name) task, b.content f))) := by
  induction fs with
  | nil => exact .done rfl
  | cons f rest ih =>
    refine .ask (keeps_write hr (staged_located hne new f) _) fun t _ => ?_
    cases (Operation.on r (.change (.write (f.path (dir.child name) task) (b.content f))) t).1 with
    | error fault => exact .done rfl
    | ok _ => exact ih

include hr hne in
theorem takeBack_paired (fs : List BundleFile) :
    Paired r (division v dir p task other) Eq
      (takeBack (m := Program) (fs.map fun f => f.path dir task))
      (takeBack (m := Program) (fs.map fun f => f.path dir task)) := by
  induction fs with
  | nil => exact .done rfl
  | cons f rest ih =>
    refine .ask (keeps_remove hr (path_located hne f)) fun t _ => ih.bind ?_
    rintro leftovers _ rfl
    cases (Operation.on r (.change (.remove (f.path dir task))) t).1 with
    | error fault => exact .done rfl
    | ok _ => exact .done rfl

include hr hne in
theorem place_paired (new : NewName v task name) (placed fs : List BundleFile) :
    Paired r (division v dir p task other) Eq
      (place (m := Program) (dir.child name) dir task (placed.map fun f => f.path dir task) fs)
      (place (m := Program) (dir.child name) dir task
        (placed.map fun f => f.path dir task) fs) := by
  induction fs generalizing placed with
  | nil => exact .done rfl
  | cons f rest ih =>
    refine .ask (keeps_move hr (staged_located hne new f) (path_located hne f)) fun t _ => ?_
    cases (Operation.on r
        (.change (.move (f.path (dir.child name) task) (f.path dir task))) t).1 with
    | error fault =>
      refine (takeBack_paired hr hne placed).bind ?_
      rintro leftovers _ rfl
      exact .done rfl
    | ok _ =>
      have hnext := ih (placed ++ [f])
      rw [List.map_append] at hnext
      exact hnext

include hr hne hv in
/-- What is done once there is a staging directory. -/
theorem staging_paired (new : NewName v task name) (b : Bundle) :
    Paired r (division v dir p task other) Eq
      (do
        let result ← do
          match ← stage (m := Program) b (dir.child name) task with
          | .error fault => pure ⟨.error fault, []⟩
          | .ok () => place (dir.child name) dir task [] BundleFile.all
        let _ ← Storage.Host.change (.removeTree (dir.child name))
        pure result)
      (do
        let result ← do
          match ← stage (m := Program) b (dir.child name) task with
          | .error fault => pure ⟨.error fault, []⟩
          | .ok () => place (dir.child name) dir task [] BundleFile.all
        let _ ← Storage.Host.change (.removeTree (dir.child name))
        pure result) := by
  have hend (result : Placement) : Paired r (division v dir p task other) Eq
      (do
        let _ ← Storage.Host.change (m := Program) (.removeTree (dir.child name))
        pure result)
      (do
        let _ ← Storage.Host.change (m := Program) (.removeTree (dir.child name))
        pure result) :=
    .ask (keeps_removeTree hr hne hv new) fun t _ => .done rfl
  refine (writeAll_paired hr hne new b BundleFile.all).bind ?_
  rintro result _ rfl
  cases result with
  | error fault => exact hend _
  | ok _ =>
    refine (place_paired hr hne new [] BundleFile.all).bind ?_
    rintro placement _ rfl
    exact hend placement

include hr hne hv in
/-- The publishing of a bundle keeps to the places of its task. -/
theorem publish_paired (b : Bundle) :
    Paired r (division v dir p task other) Eq (b.publish (m := Program) dir task)
      (b.publish (m := Program) dir task) := by
  refine .ask (keeps_makeDirectories hr) fun t _ => ?_
  cases (Operation.on r (.change (.makeDirectories dir)) t).1 with
  | error fault => exact .done rfl
  | ok _ =>
    refine .ask (keeps_makeFresh hr hne) fun t ht => ?_
    have new := newName_freshName ht
    rcases Refusing.makeFresh_cases r dir (stagingStart task) t with ⟨f, h⟩ | ⟨u, h, -⟩
    · have hanswer : (Operation.on r (.makeFresh dir (stagingStart task)) t).1 = .error f :=
        congrArg Prod.fst h
      unfold stagingStart at hanswer
      rw [hanswer]
      exact .done rfl
    · have hanswer : (Operation.on r (.makeFresh dir (stagingStart task)) t).1 =
          .ok (dir.child (t.freshName (stagingStart task))) := congrArg Prod.fst h
      unfold stagingStart at hanswer new
      rw [hanswer]
      exact staging_paired hr hne hv new b

end

/-! ## The publishing as a program -/

section

variable {m : Type → Type} [Monad m] [LawfulMonad m] [Storage.Host m]

theorem perform_writeAll (files : List (Path × List UInt8)) :
    (Storage.writeAll (m := Program) files).perform = (Storage.writeAll files : m _) := by
  induction files with
  | nil => rfl
  | cons file rest ih =>
    simp only [Storage.writeAll, Program.perform_bind, Program.perform_change]
    refine congrArg _ (funext fun result => ?_)
    cases result with
    | error fault => rfl
    | ok _ => exact ih

theorem perform_takeBack (paths : List Path) :
    (takeBack (m := Program) paths).perform = (takeBack paths : m _) := by
  induction paths with
  | nil => rfl
  | cons path rest ih =>
    simp only [takeBack, Program.perform_bind, Program.perform_change, ih]
    refine congrArg _ (funext fun result => congrArg _ (funext fun leftovers => ?_))
    cases result <;> rfl

theorem perform_place (staging dir : Path) (task : Task) (placed : List Path)
    (fs : List BundleFile) : (place (m := Program) staging dir task placed fs).perform =
      (place staging dir task placed fs : m _) := by
  induction fs generalizing placed with
  | nil => rfl
  | cons f rest ih =>
    simp only [place, Program.perform_bind, Program.perform_change]
    refine congrArg _ (funext fun result => ?_)
    cases result with
    | error fault =>
      simp only [Program.perform_bind, perform_takeBack]
      rfl
    | ok _ => exact ih _

/-- The publishing of a bundle written down and carried out is the publishing itself. -/
theorem perform_publish (b : Bundle) (dir : Path) (task : Task) :
    (b.publish (m := Program) dir task).perform = (b.publish dir task : m _) := by
  have perform_stage (staging : Path) :
      (b.stage (m := Program) staging task).perform = (b.stage staging task : m _) :=
    perform_writeAll _
  unfold publish
  simp only [Program.perform_bind, Program.perform_change]
  refine congrArg _ (funext fun made => ?_)
  cases made with
  | error fault => rfl
  | ok _ =>
    simp only [Program.perform_bind, Program.perform_makeFresh]
    refine congrArg _ (funext fun fresh => ?_)
    cases fresh with
    | error fault => rfl
    | ok staging =>
      simp only [Program.perform_bind, perform_stage]
      refine congrArg _ (funext fun staged => ?_)
      cases staged with
      | error fault =>
        simp only [Program.perform_bind, Program.perform_change]
        rfl
      | ok _ =>
        simp only [Program.perform_bind, Program.perform_change, perform_place]
        rfl

end

end Bundle

end Triage
