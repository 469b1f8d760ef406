/-
A predictor whose parts fit classifies every message: its model takes vectors as long as the
vectorizer makes them, and there is a label for each class the model can choose.
-/
import Triage.Dataset
import Triage.Predictor
import Triage.Proofs.Model.Forward

namespace Triage

/-! ## Vectors -/

namespace Vectorizer

theorem size_countTerm (v : Vectorizer) (counts : Array Nat) (ngram : String) :
    (v.countTerm counts ngram).size = counts.size := by
  unfold countTerm
  split
  · exact Array.size_modify
  · rfl

theorem size_foldl_countTerm (v : Vectorizer) (ngrams : List String) (counts : Array Nat) :
    (ngrams.foldl v.countTerm counts).size = counts.size := by
  induction ngrams generalizing counts with
  | nil => rfl
  | cons g rest ih => rw [List.foldl_cons, ih, size_countTerm]

theorem size_counts (v : Vectorizer) (text : String) : (v.counts text).size = v.size := by
  unfold counts
  rw [size_foldl_countTerm, Array.size_replicate]

/-- The vector of a text has an entry for each term. -/
theorem size_transform (v : Vectorizer) (text : String) : (v.transform text).size = v.size := by
  unfold transform
  rw [Array.size_mapIdx, size_counts]

end Vectorizer

/-! ## Predictions -/

theorem getElem?_getD {xs : Singles} {i : Nat} (h : i < xs.size) (x : Float32) :
    xs[i]? = some (xs.getD i x) := by
  rw [Array.getD_eq_getD_getElem?, Array.getElem?_eq_getElem h, Option.getD_some]

namespace Predictor

theorem fits_of_fault? {task : Task} {v : Vectorizer} {model : Model} {labels : Labels}
    (h : fault? task v model labels = none) :
    model.inputs = v.size ∧ model.classes = labels.size := by
  unfold fault? at h
  split at h
  · cases h
  · split at h
    · cases h
    · exact ⟨Decidable.not_not.1 ‹_›, Decidable.not_not.1 ‹_›⟩

theorem labels_of_fault? {v : Vectorizer} {model : Model} {labels : Labels}
    (h : fault? .ad v model labels = none) : labels = .ad := by
  obtain ⟨hinputs, hclasses⟩ := fits_of_fault? h
  unfold fault? at h
  rw [if_neg (not_not.2 hinputs), if_neg (not_not.2 hclasses)] at h
  by_contra hne
  rw [if_pos ⟨rfl, hne⟩] at h
  cases h

/-- What is said of a message hangs together: there is a probability for each label, the class is
one of them, and whoever looks up its label and its probability finds what is given. The ad task
flags the message by its first probability, the topic task never does. -/
structure Answers (p : Predictor) (text : String) (r : Prediction) : Prop where
  probabilities : r.probabilities.size = p.labels.size
  index : r.index < p.labels.size
  label : p.labels.names[r.index]? = some r.label
  confidence : r.probabilities[r.index]? = some r.confidence
  matched : r.matched ≤ (p.vectorizer.ngrams (Text.normalize text)).length
  flagged : p.task = .ad →
    ∃ x, r.probabilities[0]? = some x ∧ r.isAd = some (decide (p.threshold ≤ x))
  unflagged : p.task = .topic → r.isAd = none

/-- Every message is classified, and its class is what the model chooses for its vector. -/
theorem predict_ok {p : Predictor} (hf : fault? p.task p.vectorizer p.model p.labels = none)
    (hl : p.model.layers ≠ []) (hc : 0 < p.labels.size) (text : String) :
    ∃ prediction, p.predict text = .ok prediction ∧
      p.model.scorer.predict (p.vectorizer.transform (Text.normalize text)) =
        .ok prediction.index ∧ p.Answers text prediction := by
  obtain ⟨hinputs, hclasses⟩ := fits_of_fault? hf
  have hscore : p.model.scorer.score (p.vectorizer.transform (Text.normalize text)) =
      .ok (p.model.forward (p.vectorizer.transform (Text.normalize text))) :=
    if_pos ((p.vectorizer.size_transform _).trans hinputs.symm)
  have hsize := Model.size_forward hl (p.vectorizer.transform (Text.normalize text))
  rw [hclasses] at hsize
  have hlt := argmax_lt (by rw [hsize]; exact hc)
  rw [hsize] at hlt
  obtain ⟨label, hname⟩ : ∃ label, p.labels.name? (argmax (p.model.forward
      (p.vectorizer.transform (Text.normalize text)))) = some label :=
    ⟨_, List.getElem?_eq_getElem hlt⟩
  unfold predict Scorer.predict
  simp only [hscore, ok_bind, hname]
  refine ⟨_, rfl, rfl, hsize, hlt, hname, ?_, List.countP_le_length, fun htask => ?_,
    fun htask => ?_⟩
  · exact getElem?_getD (by rw [hsize]; exact hlt) 0
  · have hlabels : p.labels = .ad := by
      rw [htask] at hf
      exact labels_of_fault? hf
    refine ⟨_, getElem?_getD (by rw [hsize]; exact hc) 0, ?_⟩
    unfold flag
    rw [htask, hlabels]
    rfl
  · unfold flag
    rw [htask]

/-- Whether a sample is put into the class given with it. A text that is absent counts as empty. -/
def hits (p : Predictor) (samples : List Sample) (labels : List Nat) (row : Nat) : Bool :=
  match samples[row]?, labels[row]? with
  | some s, some label =>
    match p.predict (s.text.getD "") with
    | .ok prediction => prediction.index == label
    | .error _ => false
  | _, _ => false

end Predictor

end Triage
