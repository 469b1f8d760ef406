/-
The publishing of a bundle. While its files are moved from the staging directory to where they
belong, the files moved so far are in place, the others are still in the staging directory, and all
else is as it was. What was placed can be removed again, and the staging directory goes with what is
left in it, unless the machine refuses; so the publishing ends with all files in place, or with those
gone that had been placed before a move failed, or with nothing done but directories made.
-/
import Triage.Bundle
import Triage.Proofs.Storage.Machine

namespace Triage

open Storage (Place Path Tree Refusals Refusing SingleName)

namespace BundleFile

/-! ## Names of files -/

/-- What is true of the file of each kind is true of every file. -/
theorem forall_of_all {P : BundleFile → Prop} (h : ∀ f ∈ all, P f) (f : BundleFile) : P f := by
  refine h f ?_
  rcases f with (_ | _ | _) | _ | _ <;> decide

theorem mem_all (f : BundleFile) : f ∈ all := by
  rcases f with (_ | _ | _) | _ | _ <;> decide

theorem all_nodup : all.Nodup := by decide

/-- The names of files are plain: single names that every system takes as they are. -/
theorem name_plain (task : Task) (f : BundleFile) :
    f.name task ≠ "" ∧ '/' ∉ (f.name task).toList ∧ '\x00' ∉ (f.name task).toList ∧
      f.name task ≠ "." ∧ f.name task ≠ ".." ∧ (f.name task).utf8ByteSize ≤ 255 ∧
      (f.name task).toList.head? ≠ some '.' := by
  revert f
  refine forall_of_all ?_
  cases task <;> decide

theorem name_single (task : Task) (f : BundleFile) : SingleName (f.name task) :=
  ⟨(name_plain task f).1, (name_plain task f).2.1⟩

theorem name_noZero (task : Task) (f : BundleFile) :
    (f.name task).toList.contains '\x00' = false := by
  have := (name_plain task f).2.2.1
  simpa using this

theorem step_name (p : Place) (task : Task) (f : BundleFile) :
    Storage.step p (f.name task) = .ok (p ++ [f.name task]) := by
  obtain ⟨-, -, -, h, h', hs, -⟩ := name_plain task f
  unfold Storage.step
  rw [if_neg h, if_neg h', if_neg (by omega)]

theorem name_ne_of_task {task other : Task} (h : task ≠ other) (f g : BundleFile) :
    f.name task ≠ g.name other := by
  have key : ∀ f ∈ all, ∀ g ∈ all, f.name task ≠ g.name other := by
    revert h
    cases task <;> cases other <;> decide
  exact key f (mem_all f) g (mem_all g)

theorem name_injective {task : Task} {f g : BundleFile} (h : f.name task = g.name task) :
    f = g := by
  have key : ∀ f ∈ all, ∀ g ∈ all, f.name task = g.name task → f = g := by
    cases task <;> decide
  exact key f (mem_all f) g (mem_all g) h

/-- The place of a file in a directory at a place. -/
def place (p : Place) (task : Task) (f : BundleFile) : Place :=
  p ++ [f.name task]

theorem place_injective {p : Place} {task : Task} {f g : BundleFile}
    (h : f.place p task = g.place p task) : f = g :=
  name_injective (List.singleton_inj.1 (List.append_cancel_left h))

/-- The places of one task's files are not those of another's. -/
theorem place_ne_of_task {task other : Task} (h : other ≠ task) (p : Place) (f g : BundleFile) :
    f.place p other ≠ g.place p task :=
  fun e => name_ne_of_task h f g (List.singleton_inj.1 (List.append_cancel_left e))

theorem path_names (dir : Path) (task : Task) (f : BundleFile) :
    (f.path dir task).names = dir.names ++ [f.name task] :=
  (name_single task f).child_names dir

theorem path_closed (dir : Path) (task : Task) (f : BundleFile) :
    (f.path dir task).closed = false :=
  (name_single task f).child_closed dir

/-- The path of a file leads to its place in the directory. -/
theorem locate_path {t : Tree} {dir : Path} {p : Place} (h : t.Leads dir.names p) (task : Task)
    (f : BundleFile) : t.locate (f.path dir task).names = .ok (f.place p task) := by
  rw [path_names, h.locate (name_noZero task f), step_name]
  rfl

end BundleFile

namespace Bundle

variable {r : Refusals} {b : Bundle} {dir staging : Path} {task : Task} {p s : Place}
  {t u v : Tree}

/-! ## Staging -/

/-- Names lead to a directory and to the staging directory, and all that is not below the latter is
as it was. -/
structure Beside (dir staging : Path) (p s : Place) (t u : Tree) : Prop where
  leads : u.Leads dir.names p
  stagingLeads : u.Leads staging.names s
  other : ∀ q, ¬s <+: q → u.entry? q = t.entry? q

/-- Something else put below the staging directory where no directory is. -/
theorem Beside.changedAt {q : Place} {e : Option Storage.Entry} (h : Beside dir staging p s t u)
    (hc : u.ChangedAt q e v) (hq : u.entry? q ≠ some .directory) (hs : s <+: q) :
    Beside dir staging p s t v := by
  have hd := hc.directoriesIn hq
  refine ⟨h.leads.mono hd, h.stagingLeads.mono hd, fun x hx => ?_⟩
  have hne : x ≠ q := by rintro rfl; exact hx hs
  rw [hc.of_ne hne, h.other x hx]

/-- The files are written one after the other below the staging directory. -/
theorem writeAll_spec (task : Task) (fs done : List BundleFile) (h : Beside dir staging p s t u)
    (hw : ∀ f ∈ done, u.entry? (f.place s task) = some (.file (b.content f))) :
    ∃ result v, Refusing.on u (Storage.writeAll (m := Refusing r)
        (fs.map fun f => (f.path staging task, b.content f))) = (result, v) ∧
      Beside dir staging p s t v ∧ (result = .ok () →
        ∀ f ∈ done ++ fs, v.entry? (f.place s task) = some (.file (b.content f))) := by
  -- By induction on the files still to be written; those before them are written.
  induction fs generalizing done u with
  | nil => exact ⟨.ok (), u, rfl, h, fun _ => by simpa using hw⟩
  | cons f rest ih =>
    simp only [List.map_cons, Storage.writeAll, Refusing.on_bind, Refusing.on_change]
    rcases Refusing.write_cases r (f.path staging task) (b.content f) u with
      ⟨fault, hf⟩ | ⟨v, hv, hok⟩
    · rw [hf]
      exact ⟨.error fault, u, rfl, h, fun e => by cases e⟩
    · rw [hv]
      obtain ⟨q, hl, hq, hc⟩ := Tree.write_ok hok
      rw [BundleFile.locate_path h.stagingLeads task f] at hl
      cases hl
      have hs : s <+: f.place s task := List.prefix_append s _
      obtain ⟨result, w, hrun, hb, hall⟩ := ih (done ++ [f]) (h.changedAt hc hq hs) (by
        intro g hg
        by_cases hgf : g = f
        · subst hgf
          exact hc.at
        · rw [hc.of_ne fun e => hgf (BundleFile.place_injective e)]
          exact hw g (by simpa [hgf] using hg))
      exact ⟨result, w, hrun, hb, fun e => by simpa using hall e⟩

/-! ## Taking back -/

/-- One tree is another without some of the files in a directory, none of which was one. -/
structure Without (p : Place) (task : Task) (fs : List BundleFile) (t u : Tree) : Prop where
  free : ∀ f ∈ fs, t.entry? (f.place p task) ≠ some .directory
  gone : ∀ f ∈ fs, u.entry? (f.place p task) = none
  other : ∀ q, (∀ f ∈ fs, q ≠ f.place p task) → u.entry? q = t.entry? q

theorem Without.directoriesIn {fs : List BundleFile} (h : Without p task fs t u) :
    t.DirectoriesIn u := by
  intro q hq
  rw [h.other q, hq]
  rintro f hf rfl
  exact h.free f hf hq

/-- Whether a machine removes the files of a bundle where they are in place. -/
def CanTakeBack (r : Refusals) (dir : Path) (task : Task) : Prop :=
  ∀ (t : Tree) (f : BundleFile) (bytes : List UInt8), t.read (f.path dir task) = .ok bytes →
    r.change t (.remove (f.path dir task)) = .none

theorem canTakeBack_none (dir : Path) (task : Task) : CanTakeBack .none dir task :=
  fun _ _ _ _ => rfl

/-- Files that are there are removed without anything left over. -/
theorem takeBack_spec (hr : CanTakeBack r dir task) (fs : List BundleFile) (hn : fs.Nodup)
    (h : u.Leads dir.names p)
    (hf : ∀ f ∈ fs, ∃ bytes, u.entry? (f.place p task) = some (.file bytes)) :
    ∃ v, Refusing.on u (takeBack (m := Refusing r) (fs.map fun f => f.path dir task)) = ([], v) ∧
      Without p task fs u v := by
  induction fs generalizing u with
  | nil =>
    refine ⟨u, rfl, ?_, ?_, fun _ _ => rfl⟩
    · intro f hf; cases hf
    · intro f hf; cases hf
  | cons f rest ih =>
    obtain ⟨hfr, hn'⟩ := List.nodup_cons.1 hn
    obtain ⟨bytes, he⟩ := hf f List.mem_cons_self
    obtain ⟨v, hv, hc⟩ := Tree.remove_of (BundleFile.locate_path h task f) he
      (BundleFile.path_closed dir task f)
    have hfree : u.entry? (f.place p task) ≠ some .directory := by rw [he]; simp
    -- Removing the first one leaves the others, since names differ.
    have hne : ∀ g ∈ rest, g.place p task ≠ f.place p task := by
      intro g hg e
      exact hfr (BundleFile.place_injective e ▸ hg)
    obtain ⟨w, hw, hwo⟩ := ih hn' (h.mono (hc.directoriesIn hfree)) (by
      intro g hg
      rw [hc.of_ne (hne g hg)]
      exact hf g (List.mem_cons_of_mem f hg))
    have hread : u.read (f.path dir task) = .ok bytes :=
      Tree.read_of (BundleFile.locate_path h task f) he (BundleFile.path_closed dir task f)
    have hrm : Refusing.change r (.remove (f.path dir task)) u = (.ok (), v) := by
      rw [Refusing.change_of_not_refused (hr u f bytes hread)]
      show u.settle (u.remove (f.path dir task)) = _
      rw [hv]
      rfl
    refine ⟨w, ?_, ?_, ?_, ?_⟩
    · simp only [List.map_cons, takeBack, Refusing.on_bind, Refusing.on_change, hrm, hw]
      rfl
    · intro g hg
      rcases List.mem_cons.1 hg with rfl | hg
      · exact hfree
      · rw [← hc.of_ne (hne g hg)]
        exact hwo.free g hg
    · intro g hg
      rcases List.mem_cons.1 hg with rfl | hg
      · rw [hwo.other _ fun x hx e => hne x hx e.symm]
        exact hc.at
      · exact hwo.gone g hg
    · intro q hq
      rw [hwo.other q fun x hx => hq x (List.mem_cons_of_mem f hx),
        hc.of_ne (hq f List.mem_cons_self)]

/-! ## Placing -/

/-- The files `done` are in place, the others in the staging directory, and all else that is not
below the latter is as it was. No directory was where a file is now. -/
structure Placing (b : Bundle) (dir staging : Path) (task : Task) (p s : Place)
    (done : List BundleFile) (t u : Tree) : Prop where
  leads : u.Leads dir.names p
  stagingLeads : u.Leads staging.names s
  free : ∀ f ∈ done, t.entry? (f.place p task) ≠ some .directory
  placed : ∀ f ∈ done, u.entry? (f.place p task) = some (.file (b.content f))
  staged : ∀ f ∉ done, u.entry? (f.place s task) = some (.file (b.content f))
  other : ∀ q, ¬s <+: q → (∀ f ∈ done, q ≠ f.place p task) → u.entry? q = t.entry? q

/-- The place of a staged file is below the staging directory, that of a placed one is not. -/
theorem ne_of_apart {f g : BundleFile} (hs : ∀ f : BundleFile, ¬s <+: f.place p task) :
    f.place p task ≠ g.place s task :=
  fun e => hs f (e ▸ List.prefix_append s _)

/-- One more file is moved. -/
theorem Placing.move {done : List BundleFile} {f : BundleFile}
    (h : Placing b dir staging task p s done t u) (hs : ∀ f : BundleFile, ¬s <+: f.place p task)
    (hf : f ∉ done) (hm : u.move (f.path staging task) (f.path dir task) = .ok v) :
    Placing b dir staging task p s (done ++ [f]) t v := by
  obtain ⟨q, bytes, goal, hl, he, hg, hd, x, hx, hv⟩ := Tree.move_ok hm
  rw [BundleFile.locate_path h.stagingLeads task f] at hl
  rw [BundleFile.locate_path h.leads task f] at hg
  cases hl
  cases hg
  have hbytes := h.staged f hf
  rw [he] at hbytes
  cases hbytes
  have hsource : u.entry? (f.place s task) ≠ some .directory := by rw [he]; simp
  have htarget : x.entry? (f.place p task) ≠ some .directory := by
    rw [hx.of_ne (ne_of_apart hs)]
    exact hd
  -- Neither where the file was nor where it is now was a directory, so names lead where they led.
  have hdirs := (hx.directoriesIn hsource).trans (hv.directoriesIn htarget)
  have hne : ∀ g ∈ done, g.place p task ≠ f.place p task := by
    intro g hg e
    exact hf (BundleFile.place_injective e ▸ hg)
  refine ⟨h.leads.mono hdirs, h.stagingLeads.mono hdirs, ?_, ?_, ?_, ?_⟩
  · intro g hg
    rcases List.mem_append.1 hg with hg | hg
    · exact h.free g hg
    · rw [List.mem_singleton.1 hg, ← h.other _ (hs f) fun g hg e => hne g hg e.symm]
      exact hd
  · intro g hg
    rcases List.mem_append.1 hg with hg | hg
    · rw [hv.of_ne (hne g hg), hx.of_ne (ne_of_apart hs)]
      exact h.placed g hg
    · rw [List.mem_singleton.1 hg]
      exact hv.at
  · intro g hg
    have hgf : g ∉ done ∧ g ≠ f := by simpa using hg
    rw [hv.of_ne (ne_of_apart hs).symm,
      hx.of_ne fun e => hgf.2 (BundleFile.place_injective e)]
    exact h.staged g hgf.1
  · intro q hq hall
    have hqf : q ≠ f.place s task := by rintro rfl; exact hq (List.prefix_append s _)
    rw [hv.of_ne (hall f (by simp)), hx.of_ne hqf]
    exact h.other q hq fun g hg => hall g (by simp [hg])

/-- Files are moved until all are in place, or until one cannot be moved, and then those before it
are gone. -/
theorem place_spec (hr : CanTakeBack r dir task) (hs : ∀ f : BundleFile, ¬s <+: f.place p task)
    (rest done : List BundleFile) (ha : BundleFile.all = done ++ rest)
    (h : Placing b dir staging task p s done t u) :
    (∃ v, Refusing.on u (place (m := Refusing r) staging dir task
          (done.map fun f => f.path dir task) rest) = (⟨.ok (), []⟩, v) ∧
        Placing b dir staging task p s BundleFile.all t v) ∨
      ∃ moved f left fault w v, BundleFile.all = moved ++ f :: left ∧
        Refusing.on u (place (m := Refusing r) staging dir task
          (done.map fun f => f.path dir task) rest) = (⟨.error fault, []⟩, v) ∧
        Placing b dir staging task p s moved t w ∧ Without p task moved w v ∧
        (r = .none → v.entry? (f.place p task) = some .directory) := by
  -- By induction on the files still to be moved, those before them being in place.
  induction rest generalizing done u with
  | nil =>
    rw [List.append_nil] at ha
    exact .inl ⟨u, rfl, ha ▸ h⟩
  | cons f rest ih =>
    have hnodup : (done ++ f :: rest).Nodup := ha ▸ BundleFile.all_nodup
    have hf : f ∉ done := fun hf =>
      (List.nodup_append.1 hnodup).2.2 f hf f List.mem_cons_self rfl
    simp only [place, Refusing.on_bind, Refusing.on_change]
    rcases Refusing.move_cases r (f.path staging task) (f.path dir task) u with
      ⟨fault, hm, hwhy⟩ | ⟨v, hm, hok⟩
    · obtain ⟨v, hv, hwo⟩ := takeBack_spec hr done (List.nodup_append.1 hnodup).1 h.leads
        fun g hg => ⟨_, h.placed g hg⟩
      refine .inr ⟨done, f, rest, fault, u, v, ha, ?_, h, hwo, fun e => ?_⟩
      · simp only [hm, Refusing.on_bind, hv]
        rfl
      · have hne : ∀ g ∈ done, f.place p task ≠ g.place p task := by
          intro g hg he
          exact hf (BundleFile.place_injective he ▸ hg)
        rw [hwo.other _ hne]
        -- Nothing refused, and the staged file there: only a directory can be in its way.
        refine Classical.byContradiction fun hd => ?_
        obtain ⟨x, hx⟩ := Tree.move_of (BundleFile.locate_path h.stagingLeads task f)
          (h.staged f hf) (BundleFile.path_closed staging task f)
          (BundleFile.locate_path h.leads task f) (BundleFile.path_closed dir task f) hd
        rw [hwhy e] at hx
        cases hx
    · simp only [hm]
      have hnext := ih (done ++ [f]) (by simpa using ha) (h.move hs hf hok)
      rw [List.map_append] at hnext
      exact hnext

/-! ## Publishing -/

/-- What the publishing of a bundle can come to. -/
inductive Published (r : Refusals) (b : Bundle) (dir : Path) (task : Task) (t u : Tree) :
    Placement → Prop where
  /-- No file was moved, and nothing was done but directories made. -/
  | notBegun {fault : FileFault} (made : t.MadeOnWay dir.names u) :
    Published r b dir task t u ⟨.error fault, []⟩
  /-- A file could not be moved, and those before it are gone. -/
  | takenBack {v : Tree} {p : Place} {moved left : List BundleFile} {f : BundleFile}
      {fault : FileFault} (made : t.MadeOnWay dir.names v) (leads : u.Leads dir.names p)
      (order : BundleFile.all = moved ++ f :: left) (without : Without p task moved v u)
      (stopped : r = .none → u.entry? (f.place p task) = some .directory) :
    Published r b dir task t u ⟨.error fault, []⟩
  /-- All files are in place. -/
  | inPlace {v : Tree} {p : Place} (made : t.MadeOnWay dir.names v) (leads : u.Leads dir.names p)
      (free : ∀ f : BundleFile, v.entry? (f.place p task) ≠ some .directory)
      (placed : ∀ f : BundleFile, u.entry? (f.place p task) = some (.file (b.content f)))
      (other : ∀ q, (∀ f : BundleFile, q ≠ f.place p task) → u.entry? q = v.entry? q) :
    Published r b dir task t u ⟨.ok (), []⟩

/-- How the name of a staging directory starts. -/
def stagingStart (task : Task) : String := "." ++ task.name ++ "-staging-"

theorem stagingStart_plain (task : Task) :
    stagingStart task ≠ "" ∧ '/' ∉ (stagingStart task).toList ∧
      '\x00' ∉ (stagingStart task).toList ∧ 2 < (stagingStart task).length ∧
      (stagingStart task).toList.head? = some '.' := by
  cases task <;> decide

theorem file_not_staging (f : BundleFile) (task other : Task) :
    ¬(stagingStart other).toList <+: (f.name task).toList := by
  rintro ⟨rest, h⟩
  obtain ⟨-, -, -, -, hhead⟩ := stagingStart_plain other
  refine (BundleFile.name_plain task f).2.2.2.2.2.2 ?_
  rw [← h, List.head?_append, hhead]
  rfl

/-- A name that starts like that of a staging directory is a single name and not that of a file of
a bundle. -/
theorem staging_plain {task : Task} {zeros : Nat} {name : String}
    (h : name = stagingStart task ++ String.ofList (List.replicate zeros '0')) :
    SingleName name ∧ name.toList.contains '\x00' = false ∧ name ≠ "." ∧ name ≠ ".." ∧
      ∀ f : BundleFile, name ≠ f.name task := by
  obtain ⟨hne, hstroke, hzero, hlong, -⟩ := stagingStart_plain task
  have hl : name.toList = (stagingStart task).toList ++ List.replicate zeros '0' := by simp [h]
  have hlength : 2 < name.length := by
    rw [h, String.length_append]
    omega
  refine ⟨⟨?_, ?_⟩, ?_, ?_, ?_, fun f e => ?_⟩
  · rintro rfl
    exact absurd hlength (by decide)
  · rw [hl, List.mem_append, List.mem_replicate]
    rintro (h | ⟨-, h⟩)
    · exact hstroke h
    · exact absurd h (by decide)
  · rw [hl]
    simpa using hzero
  · rintro rfl
    exact absurd hlength (by decide)
  · rintro rfl
    exact absurd hlength (by decide)
  · refine file_not_staging f task task ?_
    rw [← e, hl]
    exact List.prefix_append _ _

/-- A staging directory that was just made in the directory that names lead to: nothing was where
it is or below, and no file of the bundle belongs there. -/
structure Staging (dir staging : Path) (task : Task) (p s : Place) (t u : Tree) : Prop where
  named : ∃ name, staging = dir.child name ∧ s = p ++ [name] ∧
    (stagingStart task).toList <+: name.toList
  located : ∀ {v : Tree}, v.Leads dir.names p → v.locate staging.names = .ok s
  notRoot : ¬(s = [] ∨ s = Storage.root)
  below : ∀ q, s <+: q → t.entry? q = none
  apart : ∀ f : BundleFile, ¬s <+: f.place p task
  beside : Beside dir staging p s t u

/-- A directory of a new name is fit for staging. -/
theorem staging_of_fresh (leads : t.Leads dir.names p) {name : String}
    (hname : name = t.freshName (stagingStart task))
    (hu : t.makeDirectory (dir.child name).names = .ok u) :
    ∃ s, Staging dir (dir.child name) task p s t u := by
  obtain ⟨hsingle, hz, hdot, hdots, hbundle⟩ := staging_plain hname
  have hnew : ∀ q : Place, name ∈ q → t.entry? q = none := by
    rw [hname]
    exact fun q hq => t.entry?_freshName (stagingStart_plain task).1 hq
  have hnames : (dir.child name).names = dir.names ++ [name] := hsingle.child_names dir
  obtain ⟨s, hl, hnone, hc⟩ := Tree.makeDirectory_ok hu
  rw [hnames, leads.locate hz] at hl
  have hs : s = p ++ [name] := by
    unfold Storage.step at hl
    rw [if_neg hdot, if_neg hdots] at hl
    split at hl
    · cases hl
    · cases hl; rfl
  have hdirs := hc.directoriesIn (by rw [hnone]; simp)
  refine ⟨s, ⟨name, rfl, hs, ?_⟩, fun hv => ?_, ?_, fun q hq => hnew q (hq.subset (by simp [hs])),
    fun f hf => ?_, ⟨leads.mono hdirs, ⟨?_, ?_⟩, fun q hq => hc.of_ne ?_⟩⟩
  · rw [hname]
    exact t.start_prefix_freshName (stagingStart task)
  · rw [hnames, hv.locate hz, hl]
  · rintro (h | h)
    · simp [hs] at h
    · have : name ∈ Storage.root := by rw [← h, hs]; simp
      exact hsingle.noStroke (by rw [List.mem_singleton.1 this]; decide)
  · rw [hs] at hf
    have := (List.prefix_append_right_inj p).1 hf
    exact hbundle f (by simpa using this)
  · rw [hnames, List.any_append, leads.noZero]
    simpa using hz
  · rw [hnames]
    exact Tree.descend_append (leads.mono hdirs).descend hl hc.at
  · rintro rfl
    exact hq (List.prefix_refl _)

/-- What is left once the staging directory was to be removed: the tree without it, or, if the
machine refused, that tree with the staging directory and what is in it. Nothing was there before. -/
inductive Swept (r : Refusals) (dir : Path) (task : Task) (t v : Tree) : Tree → Prop where
  | removed : Swept r dir task t v v
  | refused {w : Tree} {p : Place} {name : String} {fault : FileFault}
      (leads : v.Leads dir.names p) (start : (stagingStart task).toList <+: name.toList)
      (fresh : ∀ q, p ++ [name] <+: q → t.entry? q = none)
      (still : w.entry? (p ++ [name]) = some .directory)
      (refusal : r.change w (.removeTree (dir.child name)) = some fault)
      (without : ∀ q, v.entry? q = if p ++ [name] <+: q then none else w.entry? q) :
      Swept r dir task t v w

/-- The tree below the staging directory is removed at the end, unless that is refused. -/
theorem Staging.swept (r : Refusals) {x : Tree} (made : t.MadeOnWay dir.names x)
    (hst : Staging dir staging task p s x v) (h : u.Leads dir.names p)
    (h' : u.Leads staging.names s) :
    ∃ result w y, Refusing.change r (.removeTree staging) u = (result, w) ∧
      (∀ q, y.entry? q = if s <+: q then none else u.entry? q) ∧
      (y.Leads dir.names p → Swept r dir task t y w) := by
  obtain ⟨y, hy, hall⟩ := Tree.removeTree_of (hst.located h) h'.directory hst.notRoot
  have hfresh : ∀ q, s <+: q → t.entry? q = none := fun q hq => made.none_of (hst.below q hq)
  obtain ⟨name, rfl, rfl, hstart⟩ := hst.named
  cases hrefused : r.change u (.removeTree (dir.child name)) with
  | some fault =>
    refine ⟨.error fault, u, y, ?_, hall,
      fun leads => .refused leads hstart hfresh h'.directory hrefused hall⟩
    unfold Refusing.change
    rw [hrefused]
  | none =>
    refine ⟨.ok (), y, y, ?_, hall, fun _ => .removed⟩
    rw [Refusing.change_of_not_refused hrefused]
    show u.settle (u.removeTree (dir.child name)) = _
    rw [hy]
    rfl

/-- A tree in which only the staging directory was written to is as it was without it. -/
theorem Beside.cleared (h : Beside dir staging p s t u) (hbelow : ∀ q, s <+: q → t.entry? q = none)
    (hv : ∀ q, v.entry? q = if s <+: q then none else u.entry? q) (q : Place) :
    v.entry? q = t.entry? q := by
  rw [hv]
  split
  · rw [hbelow q ‹_›]
  · exact h.other q ‹_›

/-- Once the tree below the staging directory is removed, all that is left of what was done is in
the directory itself. -/
theorem Placing.cleared {fs : List BundleFile} (h : Placing b dir staging task p s fs t u)
    (hs : ∀ f : BundleFile, ¬s <+: f.place p task) (hbelow : ∀ q, s <+: q → t.entry? q = none)
    (hv : ∀ q, v.entry? q = if s <+: q then none else u.entry? q) :
    (∀ f ∈ fs, v.entry? (f.place p task) = some (.file (b.content f))) ∧
      ∀ q, (∀ f ∈ fs, q ≠ f.place p task) → v.entry? q = t.entry? q := by
  refine ⟨fun f hf => ?_, fun q hq => ?_⟩
  · rw [hv, if_neg (hs f), h.placed f hf]
  · rw [hv]
    split
    · rw [hbelow q ‹_›]
    · exact h.other q ‹_› hq

/-- If what was placed was taken back and the tree below the staging directory removed, the files
that were placed are gone and all else is as it was. -/
theorem Placing.without {fs : List BundleFile} {w : Tree}
    (h : Placing b dir staging task p s fs t u) (hwo : Without p task fs u v)
    (hs : ∀ f : BundleFile, ¬s <+: f.place p task) (hbelow : ∀ q, s <+: q → t.entry? q = none)
    (hw : ∀ q, w.entry? q = if s <+: q then none else v.entry? q) : Without p task fs t w := by
  refine ⟨h.free, fun g hg => ?_, fun q hq => ?_⟩
  · rw [hw, if_neg (hs g), hwo.gone g hg]
  · rw [hw]
    split
    · rw [hbelow q ‹_›]
    · rw [hwo.other q hq, h.other q ‹_› hq]

/-- A bundle is written into the staging directory, moved, and the directory removed. -/
theorem published_of_staging (hr : CanTakeBack r dir task) (made : t.MadeOnWay dir.names u)
    (leads : u.Leads dir.names p) (hst : Staging dir staging task p s u v) :
    ∃ result w y, Refusing.on v (do
        let result ← do
          match ← stage (m := Refusing r) b staging task with
          | .error fault => pure ⟨.error fault, []⟩
          | .ok () => place staging dir task [] BundleFile.all
        let _ ← Storage.Host.change (.removeTree staging)
        pure result) = (result, w) ∧ Published r b dir task t y result ∧ Swept r dir task t y w := by
  obtain ⟨result, x, hwrite, hx, hstaged⟩ := writeAll_spec (r := r) (b := b)
    task BundleFile.all [] hst.beside fun f hf => by cases hf
  have hstage : Refusing.on v (stage (m := Refusing r) b staging task) = (result, x) := hwrite
  cases result with
  | error fault =>
    -- The files could not be written: the staging directory goes, and nothing was moved.
    obtain ⟨_, w, y, hw, hclear, hswept⟩ := hst.swept r made hx.leads hx.stagingLeads
    have hsame : ∀ q, y.entry? q = u.entry? q := hx.cleared hst.below hclear
    refine ⟨⟨.error fault, []⟩, w, y, ?_, .notBegun fun q => (made q).congr (hsame q),
      hswept (leads.mono fun q hq => (hsame q).trans hq)⟩
    simp only [Refusing.on_bind, Refusing.on_change, hstage, Refusing.on_pure, hw]
  | ok _ =>
    have hbegin : Placing b dir staging task p s [] u x :=
      ⟨hx.leads, hx.stagingLeads, fun f hf => (by cases hf), fun f hf => (by cases hf),
        fun f _ => hstaged rfl f (BundleFile.mem_all f), fun q hq _ => hx.other q hq⟩
    rcases place_spec hr hst.apart BundleFile.all [] rfl hbegin with
      ⟨z, hplace, hz⟩ | ⟨moved, f, left, fault, z, z', horder, hplace, hz, hwo, hwhy⟩
    · -- All files were moved.
      obtain ⟨_, w, y, hw, hclear, hswept⟩ := hst.swept r made hz.leads hz.stagingLeads
      obtain ⟨hplaced, hother⟩ := hz.cleared hst.apart hst.below hclear
      have hfree : ∀ f : BundleFile, u.entry? (f.place p task) ≠ some .directory :=
        fun f => hz.free f (BundleFile.mem_all f)
      have hleads : y.Leads dir.names p := leads.mono fun q hq => by
        rw [hother q, hq]
        rintro f - rfl
        exact hfree f hq
      refine ⟨⟨.ok (), []⟩, w, y, ?_, .inPlace made hleads hfree
        (fun f => hplaced f (BundleFile.mem_all f)) fun q hq => hother q fun f _ => hq f,
        hswept hleads⟩
      simp only [List.map_nil] at hplace
      simp only [Refusing.on_bind, Refusing.on_change, hstage, hplace, Refusing.on_pure, hw]
    · -- One could not be moved, and those before it were taken back.
      have hdirs := hwo.directoriesIn
      obtain ⟨_, w, y, hw, hclear, hswept⟩ :=
        hst.swept r made (hz.leads.mono hdirs) (hz.stagingLeads.mono hdirs)
      have hwithout : Without p task moved u y := hz.without hwo hst.apart hst.below hclear
      have hleads : y.Leads dir.names p := leads.mono hwithout.directoriesIn
      refine ⟨⟨.error fault, []⟩, w, y, ?_, .takenBack made hleads horder hwithout fun e => ?_,
        hswept hleads⟩
      · simp only [List.map_nil] at hplace
        simp only [Refusing.on_bind, Refusing.on_change, hstage, hplace, Refusing.on_pure, hw]
      · rw [hclear, if_neg (hst.apart f)]
        exact hwhy e

/-- The publishing of a bundle comes to one of three ends, the staging directory apart. -/
theorem publish_spec (b : Bundle) (hr : CanTakeBack r dir task) (t : Tree) :
    ∃ result w y, Refusing.on t (b.publish (m := Refusing r) dir task) = (result, w) ∧
      Published r b dir task t y result ∧ Swept r dir task t y w := by
  unfold publish
  simp only [Refusing.on_bind, Refusing.on_change]
  rcases Refusing.change_cases r (.makeDirectories dir) t with ⟨fault, h⟩ | h
  · simp only [h]
    exact ⟨⟨.error fault, []⟩, t, t, rfl, .notBegun (.refl _ _), .removed⟩
  · simp only [h]
    obtain ⟨made, leads⟩ := t.makeDirectories_spec dir.names
    have hdef : Tree.change (.makeDirectories dir) t = t.makeDirectories dir.names := rfl
    rw [hdef]
    rcases hm : t.makeDirectories dir.names with ⟨result, u⟩
    rw [hm] at made leads
    cases result with
    | error fault => exact ⟨⟨.error fault, []⟩, u, u, rfl, .notBegun made, .removed⟩
    | ok _ =>
      obtain ⟨p, hp⟩ := leads rfl
      simp only [Refusing.on_bind, Refusing.on_makeFresh]
      rcases Refusing.makeFresh_cases r dir ("." ++ task.name ++ "-staging-") u with
        ⟨fault, hf⟩ | ⟨v, hf, hv⟩
      · simp only [hf]
        exact ⟨⟨.error fault, []⟩, u, u, rfl, .notBegun made, .removed⟩
      · simp only [hf]
        obtain ⟨s, hst⟩ := staging_of_fresh hp rfl hv
        exact published_of_staging hr made hp hst

/-! ## What is left of the staging directory -/

/-- Whether a staging directory is at a place, where nothing was, since the machine refused to remove
it. -/
structure StagingLeft (r : Refusals) (dir : Path) (task : Task) (t u : Tree) (s : Place) : Prop where
  still : u.entry? s = some .directory
  fresh : ∀ q, s <+: q → t.entry? q = none
  refusal : ∃ p name fault, u.Leads dir.names p ∧ s = p ++ [name] ∧
    (stagingStart task).toList <+: name.toList ∧
    r.change u (.removeTree (dir.child name)) = some fault

/-- Whether a place is kept, or is in a staging directory that the machine refused to remove. -/
def KeptOrLeft (r : Refusals) (dir : Path) (task : Task) (t u : Tree) (q : Place) : Prop :=
  t.KeptAt dir.names u q ∨ ∃ s, s <+: q ∧ StagingLeft r dir task t u s

namespace Swept

theorem eq_of_none (h : Swept .none dir task t v u) : u = v := by
  cases h with
  | removed => rfl
  | refused leads start fresh still refusal => cases refusal

/-- What is there without the staging directory is there with it. -/
theorem entry?_of (h : Swept r dir task t v u) {q : Place} {e : Storage.Entry}
    (hq : v.entry? q = some e) : u.entry? q = some e := by
  cases h with
  | removed => exact hq
  | refused leads start fresh still refusal without =>
    rw [without] at hq
    split at hq
    · cases hq
    · exact hq

theorem directoriesIn (h : Swept r dir task t v u) : v.DirectoriesIn u :=
  fun _ hq => h.entry?_of hq

theorem keptOrLeft (h : Swept r dir task t v u) {q : Place} (hq : t.KeptAt dir.names v q) :
    KeptOrLeft r dir task t u q := by
  have hdirs := h.directoriesIn
  cases h with
  | removed => exact .inl hq
  | @refused _ p name _ leads start fresh still refusal without =>
    by_cases hs : p ++ [name] <+: q
    · exact .inr ⟨_, hs, still, fresh, p, name, _, leads.mono hdirs, rfl, start, refusal⟩
    · refine .inl (hq.congr ?_)
      rw [without, if_neg hs]

/-- The files of a bundle do not belong in the staging directory, whatever their task is. -/
theorem entry?_place (h : Swept r dir task t v u) (hp : v.Leads dir.names p) (f : BundleFile)
    (other : Task) : u.entry? (f.place p other) = v.entry? (f.place p other) := by
  cases h with
  | removed => rfl
  | @refused _ _ name _ leads start fresh still refusal without =>
    rw [without, if_neg]
    intro hs
    cases leads.unique hp
    obtain rfl : name = f.name other := by
      simpa [BundleFile.place] using (List.prefix_append_right_inj _).1 hs
    exact file_not_staging f other task start

/-- Names that lead to a directory lead there without the staging directory, or nothing was left. -/
theorem leads_of (h : Swept r dir task t v u) (hp : u.Leads dir.names p) :
    v.Leads dir.names p := by
  have hdirs := h.directoriesIn
  cases h with
  | removed => exact hp
  | refused leads => exact (leads.mono hdirs).unique hp ▸ leads

end Swept

/-! ## What is kept -/

/-- A tree after the publishing of a bundle failed: the files `moved` are gone from where they were
moved to, and all else is kept. -/
structure Failed (dir : Path) (task : Task) (moved : List BundleFile) (t u : Tree) : Prop where
  gone : ∀ p, u.Leads dir.names p → ∀ f ∈ moved, u.entry? (f.place p task) = none
  kept : ∀ q, t.KeptAt dir.names u q ∨ (u.entry? q = none ∧ t.entry? q ≠ some .directory ∧
    ∃ p, u.Leads dir.names p ∧ ∃ f ∈ moved, q = f.place p task)

theorem failed_of_made (h : t.MadeOnWay dir.names u) : Failed dir task [] t u :=
  ⟨fun _ _ _ hf => (by cases hf), fun q => .inl (h q)⟩

/-- At the place of a file is what was there or nothing, or, where names lead back, a directory that
was made on the way. -/
theorem Failed.at_place {moved : List BundleFile} (h : Failed dir task moved t u)
    (hp : u.Leads dir.names p) (f : BundleFile) :
    u.entry? (f.place p task) = t.entry? (f.place p task) ∨ u.entry? (f.place p task) = none ∨
      (".." ∈ dir.names ∧ t.KeptAt dir.names u (f.place p task)) := by
  rcases h.kept (f.place p task) with hkept | hgone
  · by_cases hn : ".." ∈ dir.names
    · exact .inr (.inr ⟨hn, hkept⟩)
    · exact .inl (hkept.resolve_right fun hmade => hp.not_onWay hn _ hmade.2.2)
  · exact .inr (.inl hgone.1)

/-- The places of another task's files are kept. -/
theorem Failed.kept_of_task {moved : List BundleFile} (h : Failed dir task moved t u) {other : Task}
    (ho : other ≠ task) (hp : u.Leads dir.names p) (f : BundleFile) :
    t.KeptAt dir.names u (f.place p other) := by
  rcases h.kept (f.place p other) with h | ⟨-, -, q, hq, g, -, e⟩
  · exact h
  · rw [hq.unique hp] at e
    exact absurd e (BundleFile.place_ne_of_task ho p f g)

theorem Published.failed {fault : FileFault} {leftovers : List Leftover}
    (h : Published r b dir task t u ⟨.error fault, leftovers⟩) :
    ∃ moved f left, BundleFile.all = moved ++ f :: left ∧ Failed dir task moved t u ∧
      (r = .none → moved ≠ [] → ∃ p, u.Leads dir.names p ∧
        u.entry? (f.place p task) = some .directory) := by
  cases h with
  | notBegun made =>
    exact ⟨[], _, _, rfl, failed_of_made made, fun _ hm => absurd rfl hm⟩
  | takenBack made leads order without stopped =>
    rename_i v p moved left f
    refine ⟨moved, f, left, order, ⟨fun x hx g hg => ?_, fun q => ?_⟩,
      fun e _ => ⟨p, leads, stopped e⟩⟩
    · rw [hx.unique leads]
      exact without.gone g hg
    · by_cases hq : ∃ g ∈ moved, q = g.place p task
      · obtain ⟨g, hg, rfl⟩ := hq
        exact .inr ⟨without.gone g hg, fun hd => without.free g hg (made.directoriesIn _ hd),
          p, leads, g, hg, rfl⟩
      · exact .inl ((made q).congr (without.other q fun g hg e => hq ⟨g, hg, e⟩))

/-- Once all files are in place they can be read, and the places of no others are changed. -/
theorem Published.held {leftovers : List Leftover}
    (h : Published r b dir task t u ⟨.ok (), leftovers⟩) :
    ∃ p, u.Leads dir.names p ∧
      (∀ f : BundleFile, u.entry? (f.place p task) = some (.file (b.content f)) ∧
        u.read (f.path dir task) = .ok (b.content f)) ∧
      ∀ q, (∀ f : BundleFile, q ≠ f.place p task) → t.KeptAt dir.names u q := by
  cases h with
  | inPlace made leads free placed other =>
    refine ⟨_, leads, fun f => ⟨placed f, ?_⟩, fun q hq => (made q).congr (other q hq)⟩
    exact Tree.read_of (BundleFile.locate_path leads task f) (placed f)
      (BundleFile.path_closed dir task f)

end Bundle

end Triage
