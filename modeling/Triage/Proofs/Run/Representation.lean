/-
Which classes a training has samples of. Labels that can be split have two samples of each class
that occurs, one of them for training. A table of observed topics has no other classes; but the
table of the ad task is fixed, so a class of it that no sample has is not missed by the split, and
samples of one class alone are trained with (`oneSided_trained`).
-/
import Triage.Proofs.Labels
import Triage.Proofs.Run.Publication
import Triage.Proofs.Split.Partition

namespace Triage

open Storage (Path Tree)

variable {task : Task} {samples : List Sample} {table : Labels} {labels : List Nat} {i : Nat}
  {name : String}

/-- A class of the table is among the encoded labels if it is a topic, or if a sample has its
label. -/
theorem mem_encodeLabels (h : Trained.encodeLabels task samples = .ok (table, labels))
    (hname : table.name? i = some name) :
    i ∈ labels ↔ task = .topic ∨ ∃ sample ∈ samples, sample.label = name := by
  cases task with
  | ad =>
    obtain ⟨indices, hindices, h⟩ := ok_of_bind h
    cases h
    rw [Labels.mem_encode hindices hname, List.mem_map]
    simp
  | topic =>
    obtain ⟨topics, -, h⟩ := ok_of_bind h
    obtain ⟨observed, hobserved, h⟩ := ok_of_bind h
    obtain ⟨indices, hindices, h⟩ := ok_of_bind h
    cases h
    have hnames : name ∈ table.names := List.mem_of_getElem? hname
    have htopic := (Labels.mem_names_ofObserved hobserved).1 hnames
    simp [Labels.mem_encode hindices hname, htopic]

/-- If the labels of samples are split, every class of the table has two samples and one of them is
trained with, unless it is a class of the ad task that no sample has, which then has none. -/
theorem represented_of_split {fraction : Float} {seed : UInt64} {split : Split}
    (hencoded : Trained.encodeLabels task samples = .ok (table, labels))
    (hsplit : Split.stratified labels fraction seed = .ok split) :
    ∀ i < table.size, ∃ name, table.name? i = some name ∧
      ((task = .topic ∨ ∃ sample ∈ samples, sample.label = name) →
        2 ≤ labels.count i ∧ ∃ row ∈ split.train, labels[row]? = some i) ∧
      ((task = .ad ∧ ∀ sample ∈ samples, sample.label ≠ name) → labels.count i = 0) := by
  intro i hi
  obtain ⟨name, -, hname⟩ := Labels.exists_name? hi
  have hmem := mem_encodeLabels hencoded hname
  refine ⟨name, hname, ?_, ?_⟩
  · intro hseen
    have hoccurs := hmem.2 hseen
    obtain ⟨hsplittable, -⟩ := Split.stratified_eq_ok.1 hsplit
    obtain ⟨-, -, htrain, -⟩ := Split.stratified_partition hsplit
    exact ⟨hsplittable.pairs i hoccurs, htrain i hoccurs⟩
  · rintro ⟨rfl, hnone⟩
    refine List.count_eq_zero.2 ?_
    intro hoccurs
    rcases hmem.1 hoccurs with htopic | ⟨sample, hsample, rfl⟩
    · cases htopic
    · exact hnone sample hsample rfl

/-- Four messages of two topics. -/
def topicSamples : List Sample :=
  [⟨some "a", "ad", some "x"⟩, ⟨some "b", "ad", some "y"⟩, ⟨none, "ad", some "x"⟩,
    ⟨some "b", "ad", some "y"⟩]

theorem represented_topicSamples : ∃ table labels split,
    Trained.encodeLabels .topic topicSamples = .ok (table, labels) ∧
      Split.stratified labels 0.5 1 = .ok split ∧
      ∀ i < table.size, 2 ≤ labels.count i ∧ ∃ row ∈ split.train, labels[row]? = some i := by
  have hencoded : Trained.encodeLabels .topic topicSamples =
      .ok (⟨["x", "y"], by decide, by decide⟩, [0, 1, 0, 1]) := by decide +kernel
  have hok : (Split.stratified [0, 1, 0, 1] 0.5 1).isOk = true := by decide +kernel
  obtain ⟨split, hsplit⟩ := ok_of_isOk hok
  refine ⟨_, _, split, hencoded, hsplit, ?_⟩
  intro i hi
  obtain ⟨name, -, hseen, -⟩ := represented_of_split hencoded hsplit i hi
  exact hseen (.inl rfl)

/-- Four advertisements and no other message. -/
def oneSided : List Sample :=
  List.replicate 4 ⟨some "a", "ad", none⟩

set_option maxRecDepth 100000 in
/-- Advertisements alone are split, trained with and published, though the table has a second
class. -/
theorem oneSided_trained :
    Trained.encodeLabels .ad oneSided = .ok (.ad, [0, 0, 0, 0]) ∧ ¬Labels.ad.size < 2 ∧
      Split.stratified [0, 0, 0, 0] smallSettings.training.testFraction
        smallSettings.training.splitSeed = .ok ⟨[1, 2], [0, 3]⟩ ∧
      1 < Labels.ad.size ∧ [0, 0, 0, 0].count 1 = 0 ∧
      (run (m := StateM Tree) .ad smallSettings oneSided (Path.ofText ".")
        Tree.empty).1.result.isOk = true := by
  decide +kernel

end Triage
