/-
The texts held out for the test are not seen by training. Two runs on samples that differ in the
texts of rows held out only end in the same way: with the same error, or with the same files and
reports that differ in the accuracies at most.
-/
import Triage.Proofs.Run.Serving

namespace Triage

open Storage (Path Refusals Refusing Tree)

/-- Whether samples have the same labels and topics as others, and the same texts in all rows that
are not held out. -/
structure SameButHeldOut (task : Task) (settings : Settings) (samples others : List Sample) :
    Prop where
  labels : others.map Sample.label = samples.map Sample.label
  topics : others.map Sample.topic = samples.map Sample.topic
  texts : ∀ table labels split, Trained.encodeLabels task samples = .ok (table, labels) →
    Split.stratified labels settings.training.testFraction settings.training.splitSeed =
      .ok split →
    ∀ row, row ∉ split.test → others[row]?.map Sample.text = samples[row]?.map Sample.text

/-! ## Labels -/

theorem topicsFrom_congr {samples others : List Sample}
    (h : others.map Sample.topic = samples.map Sample.topic) (row : Nat) :
    Trained.topicsFrom row others = Trained.topicsFrom row samples := by
  induction samples generalizing others row with
  | nil => rw [List.map_eq_nil_iff.1 h]
  | cons s rest ih =>
    cases others with
    | nil => cases h
    | cons o others =>
      obtain ⟨htopic, hrest⟩ := List.cons.inj h
      have hlabel : Task.topic.labelOf o = Task.topic.labelOf s :=
        congrArg (Option.filter (· ≠ "")) htopic
      rw [Trained.topicsFrom, Trained.topicsFrom, hlabel, ih hrest]

theorem encodeLabels_congr {task : Task} {samples others : List Sample}
    (hlabels : others.map Sample.label = samples.map Sample.label)
    (htopics : others.map Sample.topic = samples.map Sample.topic) :
    Trained.encodeLabels task others = Trained.encodeLabels task samples := by
  cases task with
  | ad =>
    unfold Trained.encodeLabels
    rw [hlabels]
  | topic =>
    unfold Trained.encodeLabels
    rw [topicsFrom_congr htopics]

namespace SameButHeldOut

variable {task : Task} {settings : Settings} {samples others : List Sample}

theorem length (h : SameButHeldOut task settings samples others) :
    others.length = samples.length := by
  rw [← List.length_map Sample.label, h.labels, List.length_map]

/-- The texts that are trained with are the same. -/
theorem select_train (h : SameButHeldOut task settings samples others) {table : Labels}
    {labels : List Nat} {split : Split}
    (hencoded : Trained.encodeLabels task samples = .ok (table, labels))
    (hdivided : Split.stratified labels settings.training.testFraction
      settings.training.splitSeed = .ok split) :
    (split.select (others.map fun s => Text.normalizeOption s.text).toArray).1 =
      (split.select (samples.map fun s => Text.normalizeOption s.text).toArray).1 := by
  refine Split.select_train (Split.not_mem_test hdivided) fun row hrow => ?_
  have htext := congrArg (Option.map Text.normalizeOption)
    (h.texts table labels split hencoded hdivided row hrow)
  simpa [Option.map_map, Function.comp_def] using htext

/-- There are as many texts to test with, and their vectors have the same sizes. -/
theorem select_test (h : SameButHeldOut task settings samples others) (split : Split)
    (v : Vectorizer) :
    ((split.select (others.map fun s => Text.normalizeOption s.text).toArray).2.map
        v.transform).map Array.size =
      ((split.select (samples.map fun s => Text.normalizeOption s.text).toArray).2.map
        v.transform).map Array.size := by
  have hsizes (texts : List String) :
      (texts.map v.transform).map Array.size = List.replicate texts.length v.size := by
    rw [List.map_map, List.eq_replicate_iff]
    simp [Vectorizer.size_transform]
  rw [hsizes, hsizes]
  exact congrArg (List.replicate · v.size) (Split.length_select_test (by simp [h.length]))

end SameButHeldOut

/-! ## Trainings -/

namespace Trained

/-- Whether a training came to what another came to, but for the accuracies. -/
structure SameButAccuracy (t u : Trained) : Prop where
  same : u = { t with accuracy := u.accuracy, storedAccuracy := u.storedAccuracy }
  stored : u.storedAccuracy.isSome = t.storedAccuracy.isSome

theorem storedAccuracyOf_alike (verify : Bool) (bytes : List UInt8) {xs ys : List Singles}
    (h : xs.map Array.size = ys.map Array.size) (labels : List Nat) :
    Alike Eq (fun a b => b.isSome = a.isSome) (storedAccuracyOf verify bytes xs labels)
      (storedAccuracyOf verify bytes ys labels) := by
  unfold storedAccuracyOf
  cases verify with
  | false => exact rfl
  | true =>
    refine alike_of_bind fun model _ => ?_
    exact (model.scorer.accuracy_alike h labels).map fun _ _ _ => rfl

theorem fitAndTest_alike (settings : TrainingSettings) (trainXs : List Singles)
    (trainLabels testLabels : List Nat) {xs ys : List Singles}
    (h : xs.map Array.size = ys.map Array.size) (classes : Nat) :
    Alike Eq (fun a b => b.1 = a.1)
      (Training.fitAndTest settings trainXs trainLabels xs testLabels classes)
      (Training.fitAndTest settings trainXs trainLabels ys testLabels classes) := by
  unfold Training.fitAndTest
  refine alike_of_bind fun network _ => ?_
  exact (network.scorer.accuracy_alike h testLabels).bind fun _ _ _ _ _ => rfl

/-- The texts held out reach the accuracies only, and whether there are any does not depend on what
the texts are. -/
theorem of_alike {task : Task} {settings : Settings} {samples others : List Sample}
    (h : SameButHeldOut task settings samples others) :
    Alike Eq SameButAccuracy (Trained.of task settings samples)
      (Trained.of task settings others) := by
  unfold Trained.of
  cases settings.fault? with
  | some f => exact rfl
  | none =>
    simp only
    unfold ofSamples
    rw [encodeLabels_congr h.labels h.topics]
    refine alike_of_bind ?_
    rintro ⟨table, labels⟩ hencoded
    by_cases hclasses : table.size < 2
    · simp only [hclasses, if_true]
      exact rfl
    · simp only [hclasses, if_false]
      refine alike_of_bind fun split hdivided => ?_
      have htrain := h.select_train (ok_of_mapError hencoded) hdivided
      have htest := h.select_test split
      have hcount :
          (split.select (others.map fun s => Text.normalizeOption s.text).toArray).2.length =
            (split.select (samples.map fun s => Text.normalizeOption s.text).toArray).2.length :=
        Split.length_select_test (by simp [h.length])
      rw [htrain, hcount, h.length]
      refine alike_of_bind fun vectorizer _ => ?_
      refine (fitAndTest_alike _ _ _ _ (htest vectorizer).symm _).bind ?_
      rintro ⟨network, accuracy⟩ ⟨_, accuracy'⟩ - - rfl
      refine alike_of_bind fun model _ => ?_
      refine (storedAccuracyOf_alike _ _ (htest vectorizer).symm _).bind ?_
      rintro stored stored' - - hstored
      exact ⟨rfl, hstored⟩

end Trained

/-! ## Runs -/

/-- A run is the publishing of the bundle that was trained, if one was. -/
theorem on_run (r : Refusals) (task : Task) (settings : Settings) (samples : List Sample)
    (dir : Path) (t : Tree) :
    Refusing.on t (run (m := Refusing r) task settings samples dir) =
      match Trained.of task settings samples with
      | .error e => (⟨.error e, []⟩, t)
      | .ok trained =>
        let (placement, u) := Refusing.on t (trained.bundle.publish (m := Refusing r) dir task)
        (⟨(placement.result.map fun () => trained.report (0 - 0) dir).mapError .file,
          trained.warnings ++ placement.leftovers.map (.leftover task)⟩, u) := by
  unfold run
  simp only [Refusing.on_bind]
  cases Trained.of task settings samples <;> rfl

/-- Runs on samples that differ in texts held out only leave the same files, and fail with the same
error or come to reports that differ in the accuracies at most. In the latter case what is read from
the files is one and the same bundle. -/
theorem heldOut_unseen {task : Task} {settings : Settings} {samples others : List Sample}
    (h : SameButHeldOut task settings samples others) (r : Refusals) (dir : Path) (t : Tree) :
    ∃ first second u,
      Refusing.on t (run (m := Refusing r) task settings samples dir) = (first, u) ∧
      Refusing.on t (run (m := Refusing r) task settings others dir) = (second, u) ∧
      ((∃ e, first.result = .error e ∧ second.result = .error e) ∨
        ∃ report accuracy stored trained, first.result = .ok report ∧
          second.result = .ok { report with accuracy := accuracy, storedAccuracy := stored } ∧
          stored.isSome = report.storedAccuracy.isSome ∧
          Trained.of task settings samples = .ok trained ∧
          (Bundle.CanTakeBack r dir task →
            ∀ f : BundleFile, u.read (f.path dir task) = .ok (trained.bundle.content f))) := by
  have hfirst := on_run r task settings samples dir t
  have hsecond := on_run r task settings others dir t
  obtain ⟨e, _, htrained, hother, rfl⟩ | ⟨trained, other, htrained, hother, hsame⟩ :=
    (Trained.of_alike h).cases
  · rw [htrained] at hfirst
    rw [hother] at hsecond
    exact ⟨_, _, t, hfirst, hsecond, .inl ⟨e, rfl, rfl⟩⟩
  · rw [htrained] at hfirst
    rw [hother] at hsecond
    have hbundle : other.bundle = trained.bundle := by rw [hsame.same]
    simp only [hbundle] at hfirst hsecond
    -- From here on both runs publish one bundle, so they go through the same files.
    generalize Refusing.on t (trained.bundle.publish (m := Refusing r) dir task) = ending
      at hfirst hsecond
    obtain ⟨⟨result, leftovers⟩, u⟩ := ending
    refine ⟨_, _, u, hfirst, hsecond, ?_⟩
    cases result with
    | error fault => exact .inl ⟨_, rfl, rfl⟩
    | ok _ =>
      refine .inr ⟨_, other.accuracy, other.storedAccuracy, trained, rfl, ?_, hsame.stored,
        htrained, fun hr => ?_⟩
      · rw [hsame.same]
        rfl
      · have hok : (Refusing.on t (run (m := Refusing r) task settings samples dir)).1.result =
            .ok (trained.report (0 - 0) dir) := by
          rw [hfirst]
          rfl
        obtain ⟨trained', seconds, htrained', -, hread⟩ := run_published hr hok
        rw [htrained] at htrained'
        cases htrained'
        rwa [hfirst] at hread

/-- The small samples with other texts in the rows held out. -/
def otherSamples : List Sample :=
  [⟨none, "ad", none⟩, ⟨some "a", "ad", none⟩, ⟨some "c", "normal", none⟩,
    ⟨some "b", "normal", none⟩]

theorem encodeLabels_smallSamples :
    Trained.encodeLabels .ad smallSamples = .ok (.ad, [0, 0, 1, 1]) := by
  decide +kernel

theorem stratified_small : Split.stratified [0, 0, 1, 1] smallSettings.training.testFraction
    smallSettings.training.splitSeed = .ok ⟨[1, 3], [0, 2]⟩ := by
  decide +kernel

theorem otherSamples_same : SameButHeldOut .ad smallSettings smallSamples otherSamples where
  labels := rfl
  topics := rfl
  texts := by
    intro table labels split hencoded hdivided row hrow
    rw [encodeLabels_smallSamples] at hencoded
    cases hencoded
    rw [stratified_small] at hdivided
    cases hdivided
    match row with
    | 0 => exact absurd (by simp) hrow
    | 1 => rfl
    | 2 => exact absurd (by simp) hrow
    | 3 => rfl
    | row + 4 => rfl

theorem heldOut_unseen_small : SameButHeldOut .ad smallSettings smallSamples otherSamples ∧
    ∃ report second accuracy stored, smallRun.1.result = .ok report ∧
      run (m := StateM Tree) .ad smallSettings otherSamples (Path.ofText ".") Tree.empty =
        (second, smallRun.2) ∧
      second.result = .ok { report with accuracy := accuracy, storedAccuracy := stored } := by
  obtain ⟨report, hreport⟩ := smallRun_ok
  obtain ⟨first, second, u, hfirst, hsecond, hends⟩ :=
    heldOut_unseen otherSamples_same .none (Path.ofText ".") Tree.empty
  rw [run_none] at hfirst hsecond
  have hsmall : smallRun = (first, u) := hfirst
  rw [hsmall] at hreport ⊢
  obtain ⟨e, herror, -⟩ | ⟨_, accuracy, stored, _, hok, hother, -⟩ := hends
  · rw [herror] at hreport
    cases hreport
  · exact ⟨otherSamples_same, _, second, accuracy, stored, hok, hsecond, hother⟩

end Triage
