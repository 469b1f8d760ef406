/-
What a run publishes serves. The predictor loaded from the files of a run that succeeded holds what
was trained: the same vectorizer and labels, and the model that was read back and tested in the run.
So the accuracy reported for the stored model is the share of the samples held out that the
predictor puts into their class.
-/
import Triage.Proofs.Bundle.Reading
import Triage.Proofs.Predictor
import Triage.Proofs.Run.Publication
import Triage.Proofs.Split.Partition
import Triage.Proofs.Training.Kept

namespace Triage

open Storage (Path Refusing Tree)

/-! ## Trainings -/

/-- How a training went that succeeded: what the labels were encoded as, how the samples were
divided, and the network that came out. -/
structure Trained.Steps (task : Task) (settings : Settings) (samples : List Sample) (t : Trained)
    (labels : List Nat) (split : Split) (network : Network) : Prop where
  asked : t.task = task
  encoded : encodeLabels task samples = .ok (t.bundle.labels, labels)
  classes : 2 ≤ t.bundle.labels.size
  divided : Split.stratified labels settings.training.testFraction settings.training.splitSeed =
    .ok split
  fitted : Vectorizer.checkedFit settings.vectorizer
    (split.select (samples.map fun s => Text.normalizeOption s.text).toArray).1 =
      .ok t.bundle.vectorizer
  trained : Training.fit settings.training
    ((split.select (samples.map fun s => Text.normalizeOption s.text).toArray).1.map
      t.bundle.vectorizer.transform)
    (split.select labels.toArray).1 t.bundle.labels.size = .ok network
  written : (Model.ofNetwork network settings.exporting.quantization).toBytes = .ok t.bundle.model
  tested : storedAccuracyOf settings.exporting.verify t.bundle.model
    ((split.select (samples.map fun s => Text.normalizeOption s.text).toArray).2.map
      t.bundle.vectorizer.transform)
    (split.select labels.toArray).2 = .ok t.storedAccuracy

theorem Trained.of_ok {task : Task} {settings : Settings} {samples : List Sample} {t : Trained}
    (h : Trained.of task settings samples = .ok t) :
    ∃ labels split network, Steps task settings samples t labels split network := by
  unfold Trained.of at h
  split at h
  · cases h
  · obtain ⟨⟨table, labels⟩, hencoded, h⟩ := ok_of_bind h
    obtain ⟨hclasses, h⟩ := ok_of_check h
    obtain ⟨split, hdivided, h⟩ := ok_of_bind h
    obtain ⟨vectorizer, hfitted, h⟩ := ok_of_bind h
    obtain ⟨⟨network, accuracy⟩, hnetwork, h⟩ := ok_of_bind h
    obtain ⟨model, hwritten, h⟩ := ok_of_bind h
    obtain ⟨stored, htested, h⟩ := ok_of_bind h
    obtain ⟨_, htrained, hnetwork⟩ := ok_of_bind hnetwork
    obtain ⟨_, -, hnetwork⟩ := ok_of_bind hnetwork
    cases hnetwork
    cases h
    exact ⟨labels, split, network, rfl, ok_of_mapError hencoded, Nat.le_of_not_lt hclasses,
      hdivided, hfitted, htrained, hwritten, htested⟩

theorem shapes_ofNetwork (n : Network) (q : Quantization) :
    (Model.ofNetwork n q).shapes = n.layers.map Layer.widths := by
  simp only [Model.shapes, Model.ofNetwork, List.map_map]
  rfl

theorem Model.inputs_eq (m : Model) : m.inputs = (m.shapes.head?.map Prod.fst).getD 0 := by
  unfold inputs shapes
  cases m.layers <;> rfl

theorem Model.classes_eq (m : Model) : m.classes = (m.shapes.getLast?.map Prod.snd).getD 0 := by
  unfold classes shapes
  rw [List.getLast?_map]
  cases m.layers.getLast? <;> rfl

/-- The ends of a chain of widths are the width of the inputs and the number of classes. -/
theorem chainWidths_ends (inputs : Nat) (hidden : List Nat) (classes : Nat) :
    (chainWidths inputs hidden classes).head?.map Prod.fst = some inputs ∧
      (chainWidths inputs hidden classes).getLast?.map Prod.snd = some classes := by
  induction hidden generalizing inputs with
  | nil => exact ⟨rfl, rfl⟩
  | cons width rest ih =>
    refine ⟨rfl, ?_⟩
    have hstep : chainWidths inputs (width :: rest) classes =
        (inputs, width) :: chainWidths width rest classes := rfl
    rw [hstep, List.getLast?_cons]
    cases hl : (chainWidths width rest classes).getLast? with
    | none => simpa [hl] using (ih width).2
    | some last => simpa [hl] using (ih width).2

namespace Trained.Steps

variable {task : Task} {settings : Settings} {samples : List Sample} {t : Trained}
  {labels : List Nat} {split : Split} {network : Network}

/-- The network has the widths asked for, from the number of terms to the number of labels. -/
theorem widths (h : Steps task settings samples t labels split network) :
    network.layers.map Layer.widths = chainWidths t.bundle.vectorizer.size settings.training.hidden
      t.bundle.labels.size ∧ ∀ l ∈ network.layers, l.Sized := by
  obtain ⟨width, hsuitable, houtlines, hsized⟩ := Training.fit_spec h.trained
  obtain ⟨x, hx⟩ := List.exists_mem_of_ne_nil _ hsuitable.nonempty
  obtain ⟨text, -, rfl⟩ := List.mem_map.1 hx
  obtain rfl := hsuitable.widths _ hx
  rw [Vectorizer.size_transform] at houtlines
  exact ⟨widths_of_outlines houtlines, hsized⟩

theorem layers_ne_nil (h : Steps task settings samples t labels split network) :
    network.layers ≠ [] := by
  intro hnil
  have hends := (chainWidths_ends t.bundle.vectorizer.size settings.training.hidden
    t.bundle.labels.size).1
  rw [← h.widths.1, hnil] at hends
  cases hends

/-- The labels of the ad task are the fixed ones. -/
theorem adLabels (h : Steps task settings samples t labels split network) (had : task = .ad) :
    t.bundle.labels = .ad := by
  subst had
  obtain ⟨_, -, he⟩ := ok_of_bind h.encoded
  exact (Prod.mk.inj (Except.ok.inj he)).1.symm

/-- Its model has an input for each term and an output for each label. -/
theorem fits (h : Steps task settings samples t labels split network) :
    Predictor.fault? task t.bundle.vectorizer
      (Model.ofNetwork network settings.exporting.quantization) t.bundle.labels = none := by
  obtain ⟨hfirst, hlast⟩ := chainWidths_ends t.bundle.vectorizer.size settings.training.hidden
    t.bundle.labels.size
  rw [← h.widths.1, ← shapes_ofNetwork _ settings.exporting.quantization] at hfirst hlast
  unfold Predictor.fault?
  rw [if_neg (by rw [Model.inputs_eq, hfirst]; simp),
    if_neg (by rw [Model.classes_eq, hlast]; simp), if_neg fun ⟨had, hne⟩ => hne (h.adLabels had)]

/-- If the stored model was tested, it is what was read back from the bytes. -/
theorem decoded (h : Steps task settings samples t labels split network)
    (hverify : settings.exporting.verify = true) :
    Model.ofBytes t.bundle.model =
      .ok (Model.ofNetwork network settings.exporting.quantization) ∧
    ∃ a, t.storedAccuracy = some a ∧
      (Model.ofNetwork network settings.exporting.quantization).scorer.accuracy
        ((split.select (samples.map fun s => Text.normalizeOption s.text).toArray).2.map
          t.bundle.vectorizer.transform)
        (split.select labels.toArray).2 = .ok a := by
  have htested := h.tested
  unfold storedAccuracyOf at htested
  rw [if_pos hverify] at htested
  obtain ⟨m, hm, ha⟩ := ok_of_bind htested
  have hdecoded := ok_of_mapError hm
  -- The test needed what the bytes are read as, and that is what was written.
  have hmodel := Model.ofBytes_ofNetwork h.layers_ne_nil h.widths.2 h.written hdecoded
  subst hmodel
  obtain ⟨a, ha, hstored⟩ := ok_of_map ha
  exact ⟨hdecoded, a, hstored.symm, ha⟩

end Trained.Steps

/-! ## Round trip -/

/-- A run that succeeded trained a classifier, reported on it, and left its files to be read. -/
theorem run_published {r : Storage.Refusals} {task : Task} {settings : Settings}
    {samples : List Sample} {dir : Path} {t : Tree} {report : Report}
    (hr : Bundle.CanTakeBack r dir task)
    (h : (Refusing.on t (run (m := Refusing r) task settings samples dir)).1.result = .ok report) :
    ∃ trained seconds, Trained.of task settings samples = .ok trained ∧
      report = trained.report seconds dir ∧ ∀ f : BundleFile,
        (Refusing.on t (run (m := Refusing r) task settings samples dir)).2.read (f.path dir task) =
          .ok (trained.bundle.content f) := by
  obtain ⟨v, hs, hswept⟩ := run_spec settings samples hr t
  rw [h] at hs
  generalize (Refusing.on t (run (m := Refusing r) task settings samples dir)).2 = u at hswept ⊢
  cases hs with
  | @published trained seconds _ training published =>
    obtain ⟨p, hp, hheld, -⟩ := published.held
    refine ⟨trained, seconds, training, rfl, fun f => ?_⟩
    exact Tree.read_of (BundleFile.locate_path (hp.mono hswept.directoriesIn) task f)
      (hswept.entry?_of (hheld f).1) (BundleFile.path_closed dir task f)

theorem run_ok {task : Task} {settings : Settings} {samples : List Sample} {dir : Path} {t : Tree}
    {report : Report}
    (h : (run (m := StateM Tree) task settings samples dir t).1.result = .ok report) :
    ∃ trained seconds, Trained.of task settings samples = .ok trained ∧
      report = trained.report seconds dir ∧
      ∀ f : BundleFile, Tree.read (run (m := StateM Tree) task settings samples dir t).2
        (f.path dir task) = .ok (trained.bundle.content f) :=
  run_published (r := .none) (Bundle.canTakeBack_none dir task) h

/-- The predictor of a training: what was trained, with the model that is read from its bytes. -/
def Trained.predictor (task : Task) (t : Trained) (model : Model) : Predictor :=
  ⟨task, t.bundle.vectorizer, model, t.bundle.labels, t.bundle.model.length,
    Predictor.standardThreshold⟩

theorem Trained.Steps.stored {task : Task} {settings : Settings} {samples : List Sample}
    {t : Trained} {labels : List Nat} {split : Split} {network : Network}
    (h : Steps task settings samples t labels split network)
    (hverify : settings.exporting.verify = true) (hwords : settings.vectorizer.InWords) :
    Predictor.Stored task t.bundle (Model.ofNetwork network settings.exporting.quantization) := by
  obtain ⟨hsettings, hmade, -⟩ := Vectorizer.fit_spec h.fitted
  exact ⟨hmade, hsettings ▸ hwords, Vectorizer.isLine_of_fit h.fitted, (h.decoded hverify).1,
    h.fits⟩

/-- After a run that succeeded the predictor is loaded whose parts were trained. -/
theorem load_of_steps {task : Task} {settings : Settings} {samples : List Sample} {dir : Path}
    {trained : Trained} {labels : List Nat} {split : Split} {network : Network} {u : Tree}
    (h : trained.Steps task settings samples labels split network)
    (hverify : settings.exporting.verify = true) (hwords : settings.vectorizer.InWords)
    (hread : ∀ f : BundleFile, u.read (f.path dir task) = .ok (trained.bundle.content f)) :
    Predictor.load (m := StateM Tree) dir task u =
      (.ok (trained.predictor task
        (Model.ofNetwork network settings.exporting.quantization)), u) := by
  obtain ⟨found, hfound, hload⟩ := Predictor.load_eq dir task u
  rw [hload, Predictor.ofFound_content (h.stored hverify hwords) dir fun f =>
    (hfound f).trans (hread f)]
  rfl

/-- After a run that succeeded the predictor is loaded from the files: its vectorizer is the one
that was fitted, its model is the one that is read from the bytes in the model's file, and what it
says of itself is what the report says. -/
theorem load_of_run {task : Task} {settings : Settings} {samples : List Sample} {dir : Path}
    {t : Tree} {report : Report} (hverify : settings.exporting.verify = true)
    (hwords : settings.vectorizer.InWords)
    (h : (run (m := StateM Tree) task settings samples dir t).1.result = .ok report) :
    ∃ trained p, Trained.of task settings samples = .ok trained ∧
      Predictor.load (m := StateM Tree) dir task
          (run (m := StateM Tree) task settings samples dir t).2 =
        (.ok p, (run (m := StateM Tree) task settings samples dir t).2) ∧
      p.vectorizer = trained.bundle.vectorizer ∧
      Tree.read (run (m := StateM Tree) task settings samples dir t).2
        (BundleFile.model.path dir task) = .ok trained.bundle.model ∧
      Model.ofBytes trained.bundle.model = .ok p.model ∧
      p.labels.names = report.labels ∧
      p.info =
        { task := task
          labels := report.labels
          vocabulary := report.vocabulary
          settings := settings.vectorizer
          quantization := settings.exporting.quantization
          shapes := (report.vocabulary :: settings.training.hidden).zip
            (settings.training.hidden ++ [report.labels.length])
          modelBytes := report.modelBytes } := by
  obtain ⟨trained, seconds, htrained, rfl, hread⟩ := run_ok h
  obtain ⟨labels, split, network, hsteps⟩ := Trained.of_ok htrained
  refine ⟨trained, _, htrained, load_of_steps hsteps hverify hwords hread, rfl, hread .model,
    (hsteps.decoded hverify).1, rfl, ?_⟩
  have hshapes := (shapes_ofNetwork network settings.exporting.quantization).trans hsteps.widths.1
  have hsettings := (Vectorizer.fit_spec hsteps.fitted).1
  simp only [Predictor.info, Trained.predictor, hshapes, hsettings]
  rfl

/-- The run with the least that can be trained with, where nothing was before. -/
def smallRun : Run × Tree :=
  run (m := StateM Tree) .ad smallSettings smallSamples (Path.ofText ".") Tree.empty

set_option maxRecDepth 100000 in
theorem isOk_smallRun : smallRun.1.result.isOk = true := by
  decide +kernel

theorem smallRun_ok : ∃ report, smallRun.1.result = .ok report :=
  ok_of_isOk isOk_smallRun

theorem inWords_smallSettings : smallSettings.vectorizer.InWords :=
  ⟨by decide, by decide, by decide⟩

theorem load_of_smallRun : smallSettings.exporting.verify = true ∧
    smallSettings.vectorizer.InWords ∧ ∃ report p, smallRun.1.result = .ok report ∧
      Predictor.load (m := StateM Tree) (Path.ofText ".") .ad smallRun.2 = (.ok p, smallRun.2) ∧
      p.labels.names = report.labels ∧ p.info.vocabulary = report.vocabulary := by
  have succeeding := smallRun_ok
  unfold smallRun at succeeding ⊢
  obtain ⟨report, h⟩ := succeeding
  obtain ⟨_, p, -, hload, -, -, -, hlabels, hinfo⟩ := load_of_run rfl inWords_smallSettings h
  exact ⟨rfl, inWords_smallSettings, report, p, h, hload, hlabels, by rw [hinfo]⟩

/-! ## Accuracy -/

theorem normalizeOption_eq (text : Option String) :
    Text.normalizeOption text = Text.normalize (text.getD "") := by
  cases text with
  | none => rfl
  | some s => rfl

theorem length_encodeFrom {t : Labels} {row : Nat} {labels : List String} {indices : List Nat}
    (h : t.encodeFrom row labels = .ok indices) : indices.length = labels.length := by
  induction labels generalizing row indices with
  | nil =>
    cases h
    rfl
  | cons label rest ih =>
    unfold Labels.encodeFrom at h
    split at h
    · cases h
    · obtain ⟨_, hrest, rfl⟩ := ok_of_map h
      rw [List.length_cons, List.length_cons, ih hrest]

theorem length_topicsFrom {row : Nat} {samples : List Sample} {topics : List String}
    (h : Trained.topicsFrom row samples = .ok topics) : topics.length = samples.length := by
  induction samples generalizing row topics with
  | nil =>
    cases h
    rfl
  | cons s rest ih =>
    unfold Trained.topicsFrom at h
    split at h
    · cases h
    · obtain ⟨_, hrest, rfl⟩ := ok_of_map h
      rw [List.length_cons, List.length_cons, ih hrest]

/-- There is a class for each sample. -/
theorem length_encodeLabels {task : Task} {samples : List Sample} {table : Labels}
    {labels : List Nat} (h : Trained.encodeLabels task samples = .ok (table, labels)) :
    labels.length = samples.length := by
  cases task with
  | ad =>
    obtain ⟨indices, hindices, h⟩ := ok_of_bind h
    cases h
    rw [length_encodeFrom hindices, List.length_map]
  | topic =>
    obtain ⟨topics, htopics, h⟩ := ok_of_bind h
    obtain ⟨_, -, h⟩ := ok_of_bind h
    obtain ⟨indices, hindices, h⟩ := ok_of_bind h
    cases h
    rw [length_encodeFrom hindices, length_topicsFrom htopics]

/-- The vectors of rows and their classes, row by row: those the model puts into the right class are
the rows the predictor hits. -/
theorem countP_hits {p : Predictor}
    (hf : Predictor.fault? p.task p.vectorizer p.model p.labels = none)
    (hl : p.model.layers ≠ []) (hc : 0 < p.labels.size) {samples : List Sample} {labels : List Nat}
    (hlength : labels.length = samples.length) {rows : List Nat}
    (hrows : ∀ row ∈ rows, row < labels.length) :
    ((rows.filterMap ((samples.map fun s => Text.normalizeOption s.text).toArray[·]?)).map
        p.vectorizer.transform).length = rows.length ∧
      ((((rows.filterMap ((samples.map fun s => Text.normalizeOption s.text).toArray[·]?)).map
        p.vectorizer.transform).zip (rows.filterMap (labels.toArray[·]?))).countP fun e =>
          (p.model.scorer.predict e.1).toOption == some e.2) =
        rows.countP (p.hits samples labels) := by
  induction rows with
  | nil => exact ⟨rfl, rfl⟩
  | cons row rest ih =>
    obtain ⟨ihlength, ihcount⟩ := ih fun r hr => hrows r (List.mem_cons_of_mem _ hr)
    have hlt : row < labels.length := hrows row List.mem_cons_self
    have hlt' : row < samples.length := hlength ▸ hlt
    -- Both sides have the vector of the row's text and its class; one prediction decides for both.
    have htext : (samples.map fun s => Text.normalizeOption s.text).toArray[row]? =
        some (Text.normalize (samples[row].text.getD "")) := by
      simp [hlt', normalizeOption_eq]
    have hlabel : labels.toArray[row]? = some labels[row] := by simp [hlt]
    obtain ⟨prediction, hpredict, hchoice, -⟩ :=
      Predictor.predict_ok hf hl hc (samples[row].text.getD "")
    rw [List.filterMap_cons_some htext, List.filterMap_cons_some hlabel]
    refine ⟨by simpa using ihlength, ?_⟩
    have hhit : p.hits samples labels row = (prediction.index == labels[row]) := by
      unfold Predictor.hits
      simp only [List.getElem?_eq_getElem hlt, List.getElem?_eq_getElem hlt', hpredict]
    rw [List.map_cons, List.zip_cons_cons, List.countP_cons, List.countP_cons, ihcount, hchoice,
      hhit]
    simp [Except.toOption]

/-- The accuracy a run reports for the stored model is the share of the samples held out which the
predictor loaded afterwards puts into their class. -/
theorem storedAccuracy_of_run {task : Task} {settings : Settings} {samples : List Sample}
    {dir : Path} {t : Tree} {report : Report} (hverify : settings.exporting.verify = true)
    (hwords : settings.vectorizer.InWords)
    (h : (run (m := StateM Tree) task settings samples dir t).1.result = .ok report) :
    ∃ table labels split p, Trained.encodeLabels task samples = .ok (table, labels) ∧
      Split.stratified labels settings.training.testFraction settings.training.splitSeed =
        .ok split ∧
      Predictor.load (m := StateM Tree) dir task
          (run (m := StateM Tree) task settings samples dir t).2 =
        (.ok p, (run (m := StateM Tree) task settings samples dir t).2) ∧
      split.test ≠ [] ∧ (∀ row ∈ split.test, row < samples.length ∧ row < labels.length) ∧
      (∀ text, ∃ prediction, p.predict text = .ok prediction) ∧
      report.storedAccuracy = some (Float.ofNat (split.test.countP (p.hits samples labels)) /
        Float.ofNat split.test.length) := by
  obtain ⟨trained, seconds, htrained, rfl, hread⟩ := run_ok h
  obtain ⟨labels, split, network, hsteps⟩ := Trained.of_ok htrained
  have hload := load_of_steps hsteps hverify hwords hread
  obtain ⟨-, a, hstored, haccuracy⟩ := hsteps.decoded hverify
  have hrows := Split.lt_of_mem_test hsteps.divided
  have hlength := length_encodeLabels hsteps.encoded
  have hlayers : (Model.ofNetwork network settings.exporting.quantization).layers ≠ [] := by
    simpa [Model.ofNetwork] using hsteps.layers_ne_nil
  have hclasses : 0 < trained.bundle.labels.size := Nat.lt_of_lt_of_le Nat.two_pos hsteps.classes
  obtain ⟨hsize, hcount⟩ := countP_hits
    (p := trained.predictor task (Model.ofNetwork network settings.exporting.quantization))
    hsteps.fits hlayers hclasses hlength hrows
  obtain ⟨hne, rfl⟩ := Scorer.accuracy_ok haccuracy
  refine ⟨_, labels, split, _, hsteps.encoded, hsteps.divided, hload, ?_,
    fun row hrow => ⟨hlength ▸ hrows row hrow, hrows row hrow⟩, fun text => ?_, ?_⟩
  · intro hnil
    refine hne ?_
    simp only [Split.select, hnil, List.filterMap_nil, List.map_nil]
  · obtain ⟨prediction, hpredict, -⟩ := Predictor.predict_ok
      (p := trained.predictor task (Model.ofNetwork network settings.exporting.quantization))
      hsteps.fits hlayers hclasses text
    exact ⟨prediction, hpredict⟩
  · rw [← hcount, ← hsize]
    exact hstored

theorem storedAccuracy_of_smallRun : smallSettings.exporting.verify = true ∧
    smallSettings.vectorizer.InWords ∧ ∃ report table labels, ∃ split : Split, ∃ p,
      smallRun.1.result = .ok report ∧
      Trained.encodeLabels .ad smallSamples = .ok (table, labels) ∧
      Predictor.load (m := StateM Tree) (Path.ofText ".") .ad smallRun.2 = (.ok p, smallRun.2) ∧
      report.storedAccuracy = some (Float.ofNat (split.test.countP (p.hits smallSamples labels)) /
        Float.ofNat split.test.length) := by
  have succeeding := smallRun_ok
  unfold smallRun at succeeding ⊢
  obtain ⟨report, h⟩ := succeeding
  obtain ⟨table, labels, split, p, hlabels, -, hload, -, -, -, haccuracy⟩ :=
    storedAccuracy_of_run rfl inWords_smallSettings h
  exact ⟨rfl, inWords_smallSettings, report, table, labels, split, p, h, hlabels, hload, haccuracy⟩

end Triage
