/-
What is accepted as a vectorizer, and what every vectorizer is. Parts are accepted just if they are
sound, and files just if they hold sound parts with as many lines as the record says; and however a
vectorizer came about, its terms and its index say the same.
-/
import Triage.Proofs.Vectorizer.Files

namespace Triage.Vectorizer

open Storage (Path Tree)

variable {v : Vectorizer} {dir : Path} {start : String} {t : Tree}

/-! ## Terms and index -/

theorem Made.index?_eq_some (h : v.Made) {term : String} {i : Nat} :
    v.index? term = some i ↔ ∃ hi : i < v.size, v.terms[i] = term := by
  unfold index?
  rw [h.indexes term i, Array.getElem?_toList, Array.getElem?_eq_some_iff]
  exact Iff.rfl

/-! ## Files -/

/-- Whether weights are written on lines, one to a line and perhaps with blanks around it. -/
def Written (lines : List String) (weights : List Float) : Prop :=
  List.Forall₂ (fun line w => Decimal.readDouble (Text.trim line) = .ok w) lines weights

/-- Weights are read just if they are written. -/
theorem weightsFrom_eq_ok {path : Path} {line : Nat} {lines : List String} {ws : List Float} :
    weightsFrom path line lines = .ok ws ↔ Written lines ws := by
  induction lines generalizing line ws with
  | nil =>
    constructor
    · intro h
      cases h
      exact .nil
    · intro h
      cases h
      rfl
  | cons s rest ih =>
    unfold weightsFrom
    constructor
    · intro h
      split at h
      · cases h
      · rename_i w hw
        obtain ⟨more, hmore, rfl⟩ := ok_of_map h
        exact .cons hw (ih.1 hmore)
    · intro h
      cases h with
      | cons hw hrest =>
        rw [hw, ih.2 hrest]
        rfl

/-- What the files of a vectorizer must hold: a record with a range that is valid, as many terms and
as many weights as it says, one to a line, and the whole sound. -/
structure Holds (texts : VectorizerFile → String) (r : VectorizerRecord) (weights : List Float) :
    Prop where
  record : VectorizerRecord.ofText (texts .config) = .ok r
  range : 0 < r.settings.ngrams.least ∧ r.settings.ngrams.least ≤ r.settings.ngrams.most
  termLines : (Text.lines (texts .vocabulary)).length = r.size
  weightLines : (Text.lines (texts .weights)).length = r.size
  written : Written (Text.lines (texts .weights)) weights
  sound : Sound r.settings (Text.lines (texts .vocabulary)).toArray weights.toArray

/-- Terms and weights are put together just if there are as many of each as the record says. -/
theorem ofLines_eq_ok {r : VectorizerRecord} {terms : List String} {weights : List Float} :
    ofLines r terms weights = .ok v ↔ terms.length = r.size ∧ weights.length = r.size ∧
      ofParts r.settings terms.toArray weights.toArray = .ok v := by
  unfold ofLines
  split
  · rename_i h
    constructor
    · intro hok
      cases hok
    · rintro ⟨hterms, hweights, -⟩
      exact absurd h (by simp [hterms, hweights])
  · rename_i h
    rw [not_or, not_ne_iff, not_ne_iff] at h
    exact ⟨fun hok => ⟨h.1, h.2, hok⟩, fun hok => hok.2.2⟩

/-- The files of a vectorizer that is loaded hold its parts. -/
theorem holds_of_ofFound {found : Found} (h : ofFound dir start found = .ok v) :
    ∃ texts r weights, (∀ f, Storage.textFound (found f) = .ok (texts f)) ∧
      Holds texts r weights ∧ v.settings = r.settings ∧
      v.terms = (Text.lines (texts .vocabulary)).toArray ∧ v.weights = weights.toArray := by
  obtain ⟨config, hconfig, h⟩ := ok_of_bind h
  obtain ⟨r, hrecord, h⟩ := ok_of_bind h
  obtain ⟨vocabulary, hvocabulary, h⟩ := ok_of_bind h
  obtain ⟨weightText, hweightText, h⟩ := ok_of_bind h
  obtain ⟨weights, hweights, h⟩ := ok_of_bind h
  obtain ⟨hterms, hcount, hparts⟩ := ofLines_eq_ok.1 (ok_of_mapError h)
  obtain ⟨hv, hvterms, hvweights, hsound, -⟩ := parts_of_ofParts hparts
  have hwritten := weightsFrom_eq_ok.1 hweights
  have hrange := r.settings.ngrams.least_le_most
  have htexts (f : VectorizerFile) : ∃ text, Storage.textFound (found f) = .ok text := by
    cases f
    · exact ⟨_, hvocabulary⟩
    · exact ⟨_, hweightText⟩
    · exact ⟨_, hconfig⟩
  choose texts htexts using htexts
  cases Except.ok.inj ((htexts .config).symm.trans hconfig)
  cases Except.ok.inj ((htexts .vocabulary).symm.trans hvocabulary)
  cases Except.ok.inj ((htexts .weights).symm.trans hweightText)
  exact ⟨texts, r, weights, htexts, ⟨ok_of_mapError hrecord, ⟨r.settings.ngrams.least_pos, hrange⟩,
    hterms, hwritten.length_eq.trans hcount, hwritten, hsound⟩, hv, hvterms, hvweights⟩

/-- Files that hold what they must are loaded. -/
theorem ofFound_of_holds {found : Found} {texts : VectorizerFile → String} {r : VectorizerRecord}
    {weights : List Float} (hfiles : ∀ f, Storage.textFound (found f) = .ok (texts f))
    (h : Holds texts r weights) : ∃ v, ofFound dir start found = .ok v := by
  obtain ⟨v, hv⟩ := ofParts_of_sound h.sound
  have hlines := ofLines_eq_ok.2 ⟨h.termLines, h.written.length_eq.symm.trans h.weightLines, hv⟩
  refine ⟨v, ?_⟩
  unfold ofFound
  simp only [hfiles, ok_bind, h.record, mapError_ok, weightsFrom_eq_ok.2 h.written, hlines]

/-! ## Main statement -/

/-- Parts make a vectorizer just if they are sound, and are corrupt otherwise. However a vectorizer
came about, its index gives the places of its terms, and there is a weight for each term and an entry
for it in every vector. Files are loaded just if they hold a record with a valid range, as many lines
of terms and weights as it says, and sound parts. -/
theorem vocabulary_indexed :
    (∀ (settings : VectorizerSettings) (terms : Array String) (weights : Array Float),
      ((∃ v, ofParts settings terms weights = .ok v) ↔ Sound settings terms weights) ∧
      (¬Sound settings terms weights → ∃ f, Refused settings terms weights f ∧
        (ofParts settings terms weights).mapError Error.corrupt = .error (.corrupt f))) ∧
    (∀ v : Vectorizer, v.Produced →
      (∀ (term : String) (i : Nat),
        v.index? term = some i ↔ ∃ hi : i < v.size, v.terms[i] = term) ∧
      v.weights.size = v.size ∧ ∀ text, (v.transform text).size = v.size) ∧
    ∀ (dir : Path) (start : String) (t : Tree),
      (∀ v, (load (m := StateM Tree) dir start t).1 = .ok v → ∃ texts r weights,
        (∀ f : VectorizerFile, Storage.textFound (t.read (f.path dir start)) = .ok (texts f)) ∧
          Holds texts r weights ∧ v.settings = r.settings ∧
          v.terms = (Text.lines (texts .vocabulary)).toArray ∧ v.weights = weights.toArray) ∧
      ∀ texts r weights,
        (∀ f : VectorizerFile, Storage.textFound (t.read (f.path dir start)) = .ok (texts f)) →
          Holds texts r weights → ∃ v, (load (m := StateM Tree) dir start t).1 = .ok v := by
  refine ⟨fun settings terms weights => ⟨⟨?_, ofParts_of_sound⟩, fun hnot => ?_⟩, fun v hv => ?_,
    fun dir start t => ?_⟩
  · rintro ⟨v, hv⟩
    obtain ⟨-, -, -, hsound, -⟩ := parts_of_ofParts hv
    exact hsound
  · rcases ofParts_cases settings terms weights with ⟨-, -, hsound, -⟩ | ⟨f, hf, hrefused⟩
    · exact absurd hsound hnot
    · exact ⟨f, hrefused, by rw [hf]; rfl⟩
  · obtain ⟨hmade, -⟩ := hv.made
    exact ⟨fun term i => hmade.index?_eq_some, hmade.size.symm, v.size_transform⟩
  · obtain ⟨found, hfound, hload⟩ := load_eq dir start t
    rw [hload]
    constructor
    · intro v hv
      obtain ⟨texts, r, weights, hfiles, hholds⟩ := holds_of_ofFound hv
      exact ⟨texts, r, weights, fun f => by rw [← hfound, hfiles], hholds⟩
    · intro texts r weights hfiles hholds
      exact ofFound_of_holds (fun f => by rw [hfound, hfiles]) hholds

/-- The files of a vectorizer with two terms. -/
def twoTermsSaved : Tree :=
  (save (m := StateM Tree) twoTerms (Path.ofText ".") "ad" Tree.empty).2

/-- A vectorizer with two terms gives their places, its files hold what they must, and a term that
is given twice is refused where it stands again. -/
theorem vocabulary_indexed_twoTerms :
    Produced twoTerms ∧ twoTerms.index? "vx 8" = some 1 ∧
    (∃ v texts r weights, (load (m := StateM Tree) (Path.ofText ".") "ad" twoTermsSaved).1 = .ok v ∧
      Holds texts r weights ∧ v.terms = (Text.lines (texts .vocabulary)).toArray) ∧
    ¬Sound twoTerms.settings #["a", "a"] #[1, 1] ∧
      ∃ f, Refused twoTerms.settings #["a", "a"] #[1, 1] f := by
  obtain ⟨hparts, hproduced, hfiles⟩ := vocabulary_indexed
  have hwords : twoTerms.settings.InWords := by constructor <;> decide
  have hown : ofParts twoTerms.settings twoTerms.terms twoTerms.weights = .ok twoTerms := rfl
  have hmade : Produced twoTerms := .assembled hwords hown
  have htwice : ¬Sound twoTerms.settings #["a", "a"] #[1, 1] := fun h => by
    have hdistinct := h.distinct
    simp at hdistinct
  obtain ⟨v, hv⟩ := ok_of_isOk
    (show (load (m := StateM Tree) (Path.ofText ".") "ad" twoTermsSaved).1.isOk = true by
      decide +kernel)
  obtain ⟨texts, r, weights, -, hholds, -, hterms, -⟩ := (hfiles _ _ _).1 v hv
  obtain ⟨f, hrefused, -⟩ := (hparts twoTerms.settings #["a", "a"] #[1, 1]).2 htwice
  exact ⟨hmade, ((hproduced _ hmade).1 _ _).2 ⟨by decide, rfl⟩,
    ⟨v, texts, r, weights, hv, hholds, hterms⟩, htwice, f, hrefused⟩

end Triage.Vectorizer
