/-
What a vectorizer fitted to documents keeps. Counting adds no n-gram that is not in a document, and
choosing adds none that was not counted; so every term is an n-gram of some document, and what is
known of n-grams is known of terms.
-/
import Triage.Proofs.Text.Token
import Triage.Proofs.Vectorizer.Index
import Triage.Vectorizer.Fit

namespace Triage.Vectorizer

open Std (TransCmp LawfulEqCmp TreeMap TreeSet)

/-! ## Counting -/

/-- What is in a map after some items were taken in was there before, or came with one of them. -/
theorem mem_of_foldl {β γ : Type} {f : TreeMap String β → γ → TreeMap String β}
    {gives : γ → String → Prop} (hf : ∀ m c g, g ∈ f m c → gives c g ∨ g ∈ m) {items : List γ}
    {m : TreeMap String β} {g : String} (h : g ∈ items.foldl f m) :
    (∃ c ∈ items, gives c g) ∨ g ∈ m := by
  induction items generalizing m with
  | nil => exact .inr h
  | cons c rest ih =>
    rcases ih h with ⟨d, hd, hg⟩ | h
    · exact .inl ⟨d, List.mem_cons_of_mem _ hd, hg⟩
    · exact (hf m c g h).imp (fun hg => ⟨c, List.mem_cons_self, hg⟩) id

theorem mem_of_insert {β : Type} {m : TreeMap String β} {g k : String} {b : β}
    (h : g ∈ m.insert k b) : k = g ∨ g ∈ m :=
  (TreeMap.mem_insert.1 h).imp LawfulEqCmp.eq_of_compare id

theorem mem_of_mem_toList {β : Type} {m : TreeMap String β} {c : String × β}
    (h : c ∈ m.toList) : c.1 ∈ m := by
  have hkey : c.1 ∈ m.toList.map Prod.fst := List.mem_map_of_mem h
  rw [TreeMap.map_fst_toList_eq_keys] at hkey
  exact TreeMap.mem_keys.1 hkey

theorem mem_of_tally {ngrams : List String} {g : String} (h : g ∈ tally ngrams) : g ∈ ngrams := by
  have hstep : ∀ (m : TreeMap String Nat) (c g : String),
      g ∈ m.insert c (m.getD c 0 + 1) → c = g ∨ g ∈ m := fun _ _ _ => mem_of_insert
  rcases mem_of_foldl hstep h with ⟨c, hc, rfl⟩ | h
  · exact hc
  · exact absurd h TreeMap.not_mem_emptyc

/-- Every n-gram counted is in one of the documents. -/
theorem mem_of_frequencies {range : Text.NGramRange} {documents : List String} {g : String}
    (h : g ∈ frequencies range documents) :
    ∃ d ∈ documents, g ∈ range.extract (Text.tokenize d) := by
  have hstep : ∀ (m : TreeMap String Frequency) (d g : String),
      g ∈ (tally (range.extract (Text.tokenize d))).foldl addCount m →
        g ∈ range.extract (Text.tokenize d) ∨ g ∈ m := by
    intro m d g h
    -- Of each document the n-grams are added that were counted in it alone.
    rw [TreeMap.foldl_eq_foldl_toList] at h
    have hadd : ∀ (m : TreeMap String Frequency) (c : String × Nat) (g : String),
        g ∈ addCount m c.1 c.2 → c.1 = g ∨ g ∈ m := fun _ _ _ => mem_of_insert
    rcases mem_of_foldl hadd h with ⟨c, hc, rfl⟩ | h
    · exact .inl (mem_of_tally (mem_of_mem_toList hc))
    · exact .inr h
  rcases mem_of_foldl hstep h with h | h
  · exact h
  · exact absurd h TreeMap.not_mem_emptyc

/-! ## Choosing -/

instance : TransCmp rank :=
  have : TransCmp fun a b : Candidate => compare b.2.documents a.2.documents :=
    @TransCmp.opposite _ (compareOn fun c : Candidate => c.2.documents) _
  have : TransCmp fun a b : Candidate => compare b.2.occurrences a.2.occurrences :=
    @TransCmp.opposite _ (compareOn fun c : Candidate => c.2.occurrences) _
  inferInstanceAs (TransCmp (compareLex (fun a b : Candidate => compare b.2.documents a.2.documents)
    (compareLex (fun a b : Candidate => compare b.2.occurrences a.2.occurrences)
      (compareOn Prod.fst))))

instance : LawfulEqCmp rank where
  eq_of_compare := by
    rintro ⟨s, d, n⟩ ⟨t, e, k⟩ h
    simp only [rank, Ordering.then_eq_eq, LawfulEqCmp.compare_eq_iff_eq] at h
    obtain ⟨rfl, rfl, rfl⟩ := h
    rfl

theorem mem_of_best {n : Nat} {candidates : List Candidate} {c : Candidate}
    (h : c ∈ best n candidates) : c ∈ candidates := by
  have hset := TreeSet.mem_toList.1 (List.mem_of_mem_take h)
  rw [TreeSet.mem_ofList] at hset
  simpa using hset

theorem mem_of_byTerm {candidates : List Candidate} {g : String}
    (h : g ∈ (byTerm candidates).map Prod.fst) : g ∈ candidates.map Prod.fst := by
  rw [byTerm, TreeMap.map_fst_toList_eq_keys, TreeMap.mem_keys, TreeMap.mem_ofList] at h
  simpa using h

/-! ## Terms -/

/-- What is known of a vectorizer that was made of parts. -/
structure Made (v : Vectorizer) : Prop where
  size : v.terms.size = v.weights.size
  few : v.terms.size ≤ v.settings.maxFeatures
  finite : ∀ w ∈ v.weights, w.isFinite = true
  again : ofParts v.settings v.terms v.weights = .ok v

theorem made_of_ofParts {settings : VectorizerSettings} {terms : Array String}
    {weights : Array Float} {v : Vectorizer} (h : ofParts settings terms weights = .ok v) :
    v.settings = settings ∧ v.terms = terms ∧ v.weights = weights ∧ v.Made := by
  obtain ⟨rfl, rfl, rfl, hsound, -⟩ := parts_of_ofParts h
  exact ⟨rfl, rfl, rfl, hsound.aligned, hsound.few, hsound.finite, h⟩

theorem Made.sound {v : Vectorizer} (h : v.Made) : Sound v.settings v.terms v.weights :=
  (parts_of_ofParts h.again).2.2.2.1

theorem Made.indexes {v : Vectorizer} (h : v.Made) : Indexes v.terms.toList v.index :=
  (parts_of_ofParts h.again).2.2.2.2

theorem Made.isTerm_iff {v : Vectorizer} (h : v.Made) {g : String} :
    v.isTerm g = true ↔ g ∈ v.terms := by
  rw [← Array.mem_toList_iff, ← h.indexes.mem_iff]
  exact Iff.rfl

/-- The terms of a fitted vectorizer are n-grams of the documents. -/
theorem fit_spec {settings : VectorizerSettings} {documents : List String} {v : Vectorizer}
    (h : checkedFit settings documents = .ok v) :
    v.settings = settings ∧ v.Made ∧
      ∀ term ∈ v.terms, ∃ d ∈ documents, term ∈ settings.ngrams.extract (Text.tokenize d) := by
  unfold checkedFit fit at h
  split at h
  · cases h
  · split at h
    · cases h
    · simp only at h
      split at h
      · cases h
      · obtain ⟨hsettings, hterms, -, hmade⟩ := made_of_ofParts (ok_of_mapError h)
        refine ⟨hsettings, hmade, fun term hterm => ?_⟩
        rw [hterms, List.mem_toArray] at hterm
        obtain ⟨c, hc, rfl⟩ := List.mem_map.1 (mem_of_byTerm hterm)
        exact mem_of_frequencies (mem_of_mem_toList (mem_of_best hc))

/-- The terms of a fitted vectorizer are lines. -/
theorem isLine_of_fit {settings : VectorizerSettings} {documents : List String}
    {v : Vectorizer} (h : checkedFit settings documents = .ok v) :
    ∀ term ∈ v.terms, Text.IsLine term.toList := by
  intro term hterm
  obtain ⟨-, -, hngrams⟩ := fit_spec h
  obtain ⟨d, -, hd⟩ := hngrams term hterm
  exact Text.isLine_extract hd

end Triage.Vectorizer
