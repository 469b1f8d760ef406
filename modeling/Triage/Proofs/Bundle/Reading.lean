/-
A bundle is read back from its files. The terms and labels are single lines, the weights are written
with the digits that read back, and the record says how many there are; so what was stored passes
every check again. Whatever the files hold and whoever wrote them, a predictor that is made of them
classifies every message: the checks on the way are all it takes.
-/
import Triage.Predictor
import Triage.Proofs.Decimal.Text
import Triage.Proofs.Json.Record
import Triage.Proofs.Labels.Files
import Triage.Proofs.Predictor
import Triage.Proofs.Text.Lines
import Triage.Proofs.Vectorizer.Fit

namespace Triage

open Storage (Path Tree)

/-! ## Vectorizers -/

/-- Whether the numbers in settings have at most 64 bits, as those have that are read from a
text. -/
structure VectorizerSettings.InWords (s : VectorizerSettings) : Prop where
  maxFeatures : s.maxFeatures < UInt64.size
  least : s.ngrams.least < UInt64.size
  most : s.ngrams.most < UInt64.size

namespace Vectorizer

variable {v : Vectorizer}

theorem weightsFrom_text (path : Path) (line : Nat) {ws : List Float}
    (h : ∀ w ∈ ws, w.isFinite = true) :
    weightsFrom path line (ws.map weightLayout.double) = .ok ws := by
  induction ws generalizing line with
  | nil => rfl
  | cons w rest ih =>
    have hread : Decimal.readDouble (Text.trim (weightLayout.double w)) = .ok w := by
      rw [Text.trim_of_isBlank (weightLayout.isBlank_double w),
        Decimal.readDouble_double _ (h w List.mem_cons_self)]
    simp only [List.map_cons, weightsFrom, hread]
    rw [ih _ fun x hx => h x (List.mem_cons_of_mem _ hx)]
    rfl

/-- What the files of a vectorizer hold is read back, the terms as the lines they make. -/
theorem ofFound_lines (hmade : v.Made) (hw : v.settings.InWords) (dir : Path) (start : String)
    {found : Found} (hf : ∀ f, found f = .ok (Storage.bytesOf (v.fileText f))) :
    ofFound dir start found =
      (ofLines (.of v) (Text.lines (Text.unlines v.terms.toList)) v.weights.toList).mapError
        .corrupt := by
  have htext (f : VectorizerFile) : Storage.textFound (found f) = .ok (v.fileText f) := by
    rw [hf, Storage.textFound_bytesOf]
  have hfits : (VectorizerRecord.of v).Fits :=
    ⟨hw.maxFeatures, hw.least, hw.most, Nat.lt_of_le_of_lt hmade.few hw.maxFeatures⟩
  have hrecord : VectorizerRecord.ofText (v.fileText .config) = .ok (.of v) :=
    VectorizerRecord.ofText_pretty hfits
  have hweights : Text.lines (v.fileText .weights) = v.weights.toList.map weightLayout.double := by
    refine Text.lines_unlines fun s hs => ?_
    obtain ⟨w, -, rfl⟩ := List.mem_map.1 hs
    exact Text.isLine_of_isBlank fun c hc => .inr (weightLayout.isBlank_double w c hc)
  have hread := weightsFrom_text (VectorizerFile.weights.path dir start) 1
    fun w hw => hmade.finite w (Array.mem_toList_iff.1 hw)
  unfold ofFound
  simp only [htext, ok_bind, hrecord, mapError_ok, hweights, hread]
  rfl

/-- As many terms as there are weights are put together with them. -/
theorem ofLines_of_length (hmade : v.Made) {terms : List String} (h : terms.length = v.size) :
    ofLines (.of v) terms v.weights.toList = ofParts v.settings terms.toArray v.weights := by
  have hsize := hmade.size
  unfold ofLines
  rw [if_neg (by simp [VectorizerRecord.of, h, size, hsize]), Array.toArray_toList]
  rfl

/-- A vectorizer that was made of parts is made again of what its files hold. -/
theorem ofFound_fileText (hmade : v.Made) (hw : v.settings.InWords)
    (hl : ∀ term ∈ v.terms, Text.IsLine term.toList) (dir : Path) (start : String) {found : Found}
    (hf : ∀ f, found f = .ok (Storage.bytesOf (v.fileText f))) :
    ofFound dir start found = .ok v := by
  rw [ofFound_lines hmade hw dir start hf,
    Text.lines_unlines fun s hs => hl s (Array.mem_toList_iff.1 hs),
    ofLines_of_length hmade v.terms.length_toList, Array.toArray_toList, hmade.again]
  rfl

end Vectorizer

/-! ## Predictors -/

namespace Predictor

/-- What a bundle must be for a predictor to be made of its files: the vectorizer was made of parts,
its terms are lines, and it fits the model that is read from the bytes. -/
structure Stored (task : Task) (b : Bundle) (model : Model) : Prop where
  made : b.vectorizer.Made
  inWords : b.vectorizer.settings.InWords
  lines : ∀ term ∈ b.vectorizer.terms, Text.IsLine term.toList
  decoded : Model.ofBytes b.model = .ok model
  fits : fault? task b.vectorizer model b.labels = none

/-- A predictor is made of the files of a bundle. -/
theorem ofFound_content {task : Task} {b : Bundle} {model : Model} (h : Stored task b model)
    (dir : Path) {found : Bundle.Found} (hf : ∀ f, found f = .ok (b.content f)) :
    ofFound dir task found =
      .ok ⟨task, b.vectorizer, model, b.labels, b.model.length, standardThreshold⟩ := by
  have hv : Vectorizer.ofFound dir task.name (fun f => found (.vectorizer f)) =
      .ok b.vectorizer :=
    Vectorizer.ofFound_fileText h.made h.inWords h.lines dir task.name fun f => hf (.vectorizer f)
  have hbytes : found .model = .ok b.model := hf .model
  have hlabels : Labels.ofFound (BundleFile.labels.path dir task) (found .labels) =
      .ok b.labels := by
    rw [hf .labels]
    exact b.labels.ofFound_toText _
  unfold ofFound
  simp only [hv, ok_bind, hbytes, mapError_ok, h.decoded, hlabels, h.fits]
  rfl

/-- A predictor is loaded from the files as they are, which are not changed. -/
theorem load_eq (dir : Path) (task : Task) (u : Tree) :
    ∃ found : Bundle.Found, (∀ f : BundleFile, found f = u.read (f.path dir task)) ∧
      load (m := StateM Tree) dir task u = (ofFound dir task found, u) := by
  refine ⟨_, ?_, rfl⟩
  rintro ((_ | _ | _) | _ | _) <;> rfl

/-! ## Answers -/

/-- What the checks on the way leave of a predictor: its parts fit, and its model can be read. -/
theorem ofFound_ok {dir : Path} {task : Task} {found : Bundle.Found} {p : Predictor}
    (h : ofFound dir task found = .ok p) :
    p.task = task ∧ fault? task p.vectorizer p.model p.labels = none ∧ p.model.WellFormed := by
  obtain ⟨v, -, h⟩ := ok_of_bind h
  obtain ⟨bytes, -, h⟩ := ok_of_bind h
  obtain ⟨model, hmodel, h⟩ := ok_of_bind h
  obtain ⟨labels, -, h⟩ := ok_of_bind h
  split at h
  · cases h
  · rename_i hfault
    cases h
    exact ⟨rfl, hfault, (Model.ofBytes_ok (ok_of_mapError hmodel)).1⟩

/-- A predictor whose parts fit answers every message, whatever its threshold. -/
theorem answers_of_fits {p : Predictor} (hf : fault? p.task p.vectorizer p.model p.labels = none)
    (hm : p.model.WellFormed) (text : String) : ∃ r, p.predict text = .ok r ∧ p.Answers text r := by
  obtain ⟨last, hlast, -, htwo⟩ := hm.chained.last
  have hclasses : 0 < p.labels.size := by
    rw [← (fits_of_fault? hf).2, Model.classes, hlast]
    exact Nat.lt_of_lt_of_le Nat.two_pos htwo
  obtain ⟨r, hr, -, hanswers⟩ := predict_ok hf hm.chained.ne_nil hclasses text
  exact ⟨r, hr, hanswers⟩

/-- A predictor that is loaded, from whatever the files hold, answers every message, and does so
with every threshold. -/
theorem answers_of_load {dir : Path} {task : Task} {u : Tree} {p : Predictor}
    (h : (load (m := StateM Tree) dir task u).1 = .ok p) : p.task = task ∧ ∀ text,
      (∃ r, p.predict text = .ok r ∧ p.Answers text r) ∧
      ∀ x, ∃ r, (p.withThreshold x).predict text = .ok r ∧ (p.withThreshold x).Answers text r := by
  obtain ⟨found, -, hload⟩ := load_eq dir task u
  rw [hload] at h
  obtain ⟨rfl, hfits, hformed⟩ := ofFound_ok h
  exact ⟨rfl, fun text => ⟨answers_of_fits hfits hformed text,
    fun x => answers_of_fits (p := p.withThreshold x) hfits hformed text⟩⟩

/-- A bundle put together by hand, with a vocabulary of one term. -/
def handmade : Tree where
  entries := Std.TreeMap.ofList [
    (["ad_config.json"], Storage.Entry.file (Storage.bytesOf
      "\x7b\"ngram_range\": [1, 1], \"max_features\": 5, \"vocab_size\": 1\x7d")),
    (["ad_vocabulary.txt"], Storage.Entry.file (Storage.bytesOf "gratis")),
    (["ad_idf.txt"], Storage.Entry.file (Storage.bytesOf " 1.5\r\n")),
    (["ad_model.bin"], Storage.Entry.file Model.mixedBytes),
    (["ad_labels.txt"], Storage.Entry.file (Storage.bytesOf "ad\nnormal\n"))]

theorem answers_of_handmade : ∃ p,
    (load (m := StateM Tree) (Path.ofText ".") .ad handmade).1 = .ok p ∧ p.task = .ad ∧
      ∃ r, p.predict "gratis" = .ok r ∧ p.Answers "gratis" r := by
  have hok : (load (m := StateM Tree) (Path.ofText ".") .ad handmade).1.isOk = true := by
    decide +kernel
  obtain ⟨p, hload⟩ := ok_of_isOk hok
  obtain ⟨htask, hanswers⟩ := answers_of_load hload
  exact ⟨p, hload, htask, (hanswers "gratis").1⟩

end Predictor

end Triage
