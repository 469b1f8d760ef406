/-
What a run does to files. It writes nothing before the classifier is trained, so it ends as the
publishing of the bundle does: all files are in place and nothing else is changed; or no file of the
bundle is new, and those that were replaced before a move failed are gone. Directories made on the way
to the one of the bundle stay, and one of them may be where a file was to be if the path leads back;
the staging directory stays if the machine refuses to remove it (`run_leaves_directories`).
-/
import Triage.Proofs.Bundle.Publish
import Triage.Proofs.Result
import Triage.Report

namespace Triage

open Storage (Entry OnWay Path Place Refusals Refusing Tree)

variable {r : Refusals} {task : Task} {dir : Path}

/-- How a run ends: it fails before anything is written, or as the publishing of the bundle does. -/
inductive Ended (r : Refusals) (task : Task) (settings : Settings) (samples : List Sample)
    (dir : Path) (t u : Tree) : Except Error Report → Prop where
  | notTrained {e : Error} (training : Trained.of task settings samples = .error e) (same : u = t) :
    Ended r task settings samples dir t u (.error e)
  | notPublished {trained : Trained} {fault : FileFault} {leftovers : List Bundle.Leftover}
      (training : Trained.of task settings samples = .ok trained)
      (published : Bundle.Published r trained.bundle dir task t u ⟨.error fault, leftovers⟩) :
    Ended r task settings samples dir t u (.error (.file fault))
  | published {trained : Trained} {seconds : Float} {leftovers : List Bundle.Leftover}
      (training : Trained.of task settings samples = .ok trained)
      (published : Bundle.Published r trained.bundle dir task t u ⟨.ok (), leftovers⟩) :
    Ended r task settings samples dir t u (.ok (trained.report seconds dir))

/-- It does so but for the staging directory, which may be left. -/
theorem run_spec (settings : Settings) (samples : List Sample)
    (hr : Bundle.CanTakeBack r dir task) (t : Tree) :
    ∃ v, Ended r task settings samples dir t v
        (Refusing.on t (run (m := Refusing r) task settings samples dir)).1.result ∧
      Bundle.Swept r dir task t v
        (Refusing.on t (run (m := Refusing r) task settings samples dir)).2 := by
  unfold run
  simp only [Refusing.on_bind]
  cases ht : Trained.of task settings samples with
  | error e => exact ⟨t, .notTrained ht rfl, .removed⟩
  | ok trained =>
    obtain ⟨⟨result, leftovers⟩, u, v, hp, hpub, hswept⟩ :=
      Bundle.publish_spec trained.bundle hr t
    have hclock : (Refusing.on t (Storage.Host.clock (m := Refusing r))).2 = t := rfl
    simp only [Refusing.on_bind, hclock, hp, Refusing.on_pure]
    refine ⟨v, ?_, hswept⟩
    cases result with
    | error fault => exact .notPublished ht hpub
    | ok _ => exact .published ht hpub

/-- The least that can be trained with. -/
def smallSettings : Settings where
  vectorizer := ⟨1, ⟨1, 1, Nat.one_pos, by decide⟩⟩
  training :=
    { hidden := [], dropout := [], epochs := 1, batchSize := 4, learningRate := 0.5
      testFraction := 0.5, splitSeed := 1, initSeed := 1 }
  exporting := ⟨.float32, true⟩

/-- Two messages of each class of the ad task. -/
def smallSamples : List Sample :=
  [⟨some "a", "ad", none⟩, ⟨some "a", "ad", none⟩, ⟨some "b", "normal", none⟩,
    ⟨some "b", "normal", none⟩]

/-! ## All or nothing -/

/-- What a run may come to. Either all files of the trained bundle are in place, and all other
places are kept; or it fails and nothing new is anywhere: what is at the places of the files is what
was there or nothing, all other places being kept. The files of other tasks are kept in any case. A
place is kept if what is there is what was there, or a directory made on the way to the one the
bundle was meant for; where names lead back that may be the place of a file. A staging directory is
left only if the machine refused to remove it. -/
structure AllOrNothing (r : Refusals) (task : Task) (settings : Settings) (samples : List Sample)
    (dir : Path) (t u : Tree) (result : Except Error Report) : Prop where
  ended : (∃ trained seconds p, Trained.of task settings samples = .ok trained ∧
      result = .ok (trained.report seconds dir) ∧ u.Leads dir.names p ∧
      (∀ f : BundleFile, u.entry? (f.place p task) = some (.file (trained.bundle.content f)) ∧
        u.read (f.path dir task) = .ok (trained.bundle.content f)) ∧
      ∀ q, (∀ f : BundleFile, q ≠ f.place p task) → Bundle.KeptOrLeft r dir task t u q) ∨
    ∃ e, result = .error e ∧
      (∀ q, Bundle.KeptOrLeft r dir task t u q ∨
        (u.entry? q = none ∧ ∃ p, u.Leads dir.names p ∧ ∃ f : BundleFile, q = f.place p task)) ∧
      ∀ p, u.Leads dir.names p → ∀ f : BundleFile,
        u.entry? (f.place p task) = t.entry? (f.place p task) ∨
          u.entry? (f.place p task) = none ∨
          (".." ∈ dir.names ∧ t.KeptAt dir.names u (f.place p task))
  others : ∀ other, other ≠ task → ∀ p, u.Leads dir.names p → ∀ f : BundleFile,
    t.KeptAt dir.names u (f.place p other)

theorem allOrNothing_of_failed {settings : Settings} {samples : List Sample}
    {moved : List BundleFile} {t u v : Tree} (h : Bundle.Failed dir task moved t v)
    (hs : Bundle.Swept r dir task t v u) (e : Error) :
    AllOrNothing r task settings samples dir t u (.error e) := by
  refine ⟨.inr ⟨e, rfl, fun q => ?_, fun p hp f => ?_⟩, fun other ho p hp f => ?_⟩
  · refine (h.kept q).imp hs.keptOrLeft ?_
    rintro ⟨hnone, -, p, hp, f, -, rfl⟩
    rw [hs.entry?_place hp]
    exact ⟨hnone, p, hp.mono hs.directoriesIn, f, rfl⟩
  · have hv := hs.leads_of hp
    have hsame := hs.entry?_place hv f task
    rw [hsame]
    exact (h.at_place hv f).imp_right (Or.imp_right (And.imp_right (·.congr hsame)))
  · have hv := hs.leads_of hp
    exact (h.kept_of_task ho hv f).congr (hs.entry?_place hv f other)

theorem allOrNothing_of_published {settings : Settings} {samples : List Sample} {t u v : Tree}
    {trained : Trained} {seconds : Float} {leftovers : List Bundle.Leftover}
    (training : Trained.of task settings samples = .ok trained)
    (h : Bundle.Published r trained.bundle dir task t v ⟨.ok (), leftovers⟩)
    (hs : Bundle.Swept r dir task t v u) :
    AllOrNothing r task settings samples dir t u (.ok (trained.report seconds dir)) := by
  obtain ⟨p, hp, hheld, hother⟩ := h.held
  have hplaced (f : BundleFile) :
      u.entry? (f.place p task) = some (.file (trained.bundle.content f)) :=
    hs.entry?_of (hheld f).1
  have hu := hp.mono hs.directoriesIn
  refine ⟨.inl ⟨trained, seconds, p, training, rfl, hu, fun f => ⟨hplaced f, ?_⟩,
    fun q hq => hs.keptOrLeft (hother q hq)⟩, fun other ho q hq f => ?_⟩
  · exact Tree.read_of (BundleFile.locate_path hu task f) (hplaced f)
      (BundleFile.path_closed dir task f)
  · cases hq.unique hu
    refine (hother _ fun g => ?_).congr (hs.entry?_place hp f other)
    exact BundleFile.place_ne_of_task ho p f g

/-- A machine that moves nothing and removes no directory. -/
def immovable : Refusals where
  change _
    | .move _ _ => some (.other 13 "Permission denied")
    | .removeTree _ => some (.other 13 "Permission denied")
    | _ => none
  fresh _ := none

/-- A run that is given a path that leads back from where the labels are to be. -/
def leadingBackRun : Run × Tree :=
  run (m := StateM Tree) .ad smallSettings smallSamples (Path.ofText "ad_labels.txt/..") Tree.empty

set_option maxRecDepth 100000 in
theorem leadingBackRun_spec : leadingBackRun.1.result.isOk = false ∧
    (leadingBackRun.2.descend [] ["ad_labels.txt", ".."]).toOption = some [] ∧
    Tree.entry? leadingBackRun.2 ["ad_labels.txt"] = some .directory := by
  decide +kernel

/-- A machine that removes no directory. -/
def hoarding : Refusals where
  change _
    | .removeTree _ => some (.other 13 "Permission denied")
    | _ => none
  fresh _ := none

set_option maxRecDepth 100000 in
theorem hoarding_left : Tree.entry? (Refusing.on Tree.empty (run (m := Refusing hoarding) .ad
      smallSettings smallSamples (Path.ofText "."))).2 [".ad-staging-0"] = some .directory := by
  decide +kernel

/-- A run without refusals is one on the tree alone. -/
theorem run_none (task : Task) (settings : Settings) (samples : List Sample) (dir : Path)
    (t : Tree) : Refusing.on t (run (m := Refusing .none) task settings samples dir) =
      run (m := StateM Tree) task settings samples dir t :=
  rfl

/-- After a failed run some of the files, those before one in the order in which they are moved, are
gone from where they were to be, if something was there; none of them was a directory, and there are
such files only if there is a directory where the next one was to be. All else that was there is
there as it was, and nothing is new but directories on the way to the one the bundle was meant for.
If no classifier was trained nothing is changed at all. -/
theorem failed_run_keeps {task : Task} {settings : Settings} {samples : List Sample} {dir : Path}
    {t : Tree} {e : Error}
    (h : (run (m := StateM Tree) task settings samples dir t).1.result = .error e) :
    ∃ moved f left, BundleFile.all = moved ++ f :: left ∧
      (moved ≠ [] → ∃ p, (run (m := StateM Tree) task settings samples dir t).2.Leads dir.names p ∧
        Tree.entry? (run (m := StateM Tree) task settings samples dir t).2 (f.place p task) =
          some .directory) ∧
      Bundle.Failed dir task moved t (run (m := StateM Tree) task settings samples dir t).2 ∧
      ((∃ fault, Trained.of task settings samples = .error fault) →
        (run (m := StateM Tree) task settings samples dir t).2 = t) := by
  obtain ⟨v, hs, hswept⟩ := run_spec settings samples (Bundle.canTakeBack_none dir task) t
  obtain rfl := hswept.eq_of_none
  rw [run_none] at hs
  generalize (run (m := StateM Tree) task settings samples dir t).1.result = result at hs h
  generalize (run (m := StateM Tree) task settings samples dir t).2 = u at hs ⊢
  cases hs with
  | notTrained training same =>
    subst same
    exact ⟨[], _, _, rfl, fun hm => absurd rfl hm, Bundle.failed_of_made (.refl dir.names _),
      fun _ => rfl⟩
  | notPublished training published =>
    obtain ⟨moved, f, left, order, hf, stopped⟩ := published.failed
    refine ⟨moved, f, left, order, stopped rfl, hf, ?_⟩
    rintro ⟨fault, hfault⟩
    rw [training] at hfault
    cases hfault
  | published training published => cases h

/-- A tree with an older vocabulary, and a directory where the labels were to be. -/
def blockedTree : Tree :=
  ⟨((∅ : Std.TreeMap Place Entry).insert ["ad_vocabulary.txt"]
    (.file (Storage.bytesOf "old\n"))).insert ["ad_labels.txt"] .directory⟩

/-- The run that meets it. -/
def blockedRun : Run × Tree :=
  run (m := StateM Tree) .ad smallSettings smallSamples (Path.ofText ".") blockedTree

set_option maxRecDepth 100000 in
theorem blockedRun_spec : blockedRun.1.result.isOk = false ∧
    Tree.entry? blockedRun.2 ["ad_vocabulary.txt"] = none := by
  decide +kernel

theorem failed_run_keeps_blocked : (∃ e, blockedRun.1.result = .error e) ∧
    ∃ moved f left, BundleFile.all = moved ++ f :: left ∧
      Bundle.Failed (Path.ofText ".") .ad moved blockedTree blockedRun.2 := by
  have failing := error_of_isOk blockedRun_spec.1
  unfold blockedRun at failing ⊢
  obtain ⟨e, h⟩ := failing
  obtain ⟨moved, f, left, order, -, hf, -⟩ := failed_run_keeps h
  exact ⟨⟨e, h⟩, moved, f, left, order, hf⟩

/-- Not all files that were there outlast a failed run: the older vocabulary does not. -/
theorem failed_run_loses_file : ¬∀ (task : Task) (settings : Settings) (samples : List Sample)
    (dir : Path) (t : Tree) (e : Error),
    (run (m := StateM Tree) task settings samples dir t).1.result = .error e →
      ∀ q x, t.entry? q = some x →
        Tree.entry? (run (m := StateM Tree) task settings samples dir t).2 q = some x := by
  intro h
  have failing := error_of_isOk blockedRun_spec.1
  have gone := blockedRun_spec.2
  unfold blockedRun at failing gone
  obtain ⟨e, he⟩ := failing
  have hold : blockedTree.entry? ["ad_vocabulary.txt"] =
      some (.file (Storage.bytesOf "old\n")) := by
    decide +kernel
  have kept := h _ _ _ _ _ e he _ _ hold
  rw [gone] at kept
  cases kept

end Triage
