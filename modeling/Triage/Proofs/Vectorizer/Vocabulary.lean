/-
Which vocabulary is fitted to documents. What is counted of an n-gram is said of the documents
alone, and the order of candidates never leaves two of them equal; so the terms kept, their weights
and every failure follow from the documents as they are, and neither the order of the documents nor
the order in which counts are gone through has a part in it.
-/
import Triage.Proofs.Number.Logarithm
import Triage.Proofs.Vectorizer.Fit

namespace Triage.Vectorizer

open Std (TransCmp LawfulEqCmp TreeMap TreeSet)
open Text (NGramRange)

/-! ## Weights -/

theorem between_onePlus {n : Nat} (hn : n < UInt64.size) :
    Number.Between 0 65 (1 + Float.ofNat n) := by
  rcases Nat.eq_zero_or_pos n with rfl | hpos
  · exact Number.between_of_partsOfNat (n := 1) (by decide +kernel) (by norm_num) (by norm_num)
  · exact (Number.between_one.mono (le_refl 0) (by norm_num)).add
      (Number.between_ofNat (j := 64) hpos hn.le (le_refl 64)) (by norm_num) (by norm_num)

/-- The weight of a term is far from the range of the doubles, whatever the counts. -/
theorem within_smoothedWeight {n d : Nat} (hn : n < UInt64.size) (hd : d < UInt64.size) :
    Number.Within 101 (smoothedWeight n d) :=
  have hquotient := (between_onePlus hn).div (between_onePlus hd) (by norm_num) (by norm_num)
  (Number.within_ln hquotient).add Number.between_one.within

theorem isFinite_smoothedWeight {n d : Nat} (hn : n < UInt64.size) (hd : d < UInt64.size) :
    (smoothedWeight n d).isFinite = true :=
  (within_smoothedWeight hn hd).isFinite

/-! ## Counting -/

/-- The n-grams of a document. -/
abbrev gramsOf (range : NGramRange) (document : String) : List String :=
  range.extract (Text.tokenize document)

/-- What is counted of an n-gram: the documents it is found in, and its occurrences in all. -/
def frequencyOf (range : NGramRange) (documents : List String) (g : String) : Frequency where
  documents := documents.countP fun d => g ∈ gramsOf range d
  occurrences := (documents.map fun d => (gramsOf range d).count g).sum

/-- An item that is counted under another key leaves the count of a key as it is. -/
theorem getD_insert_of_ne {β : Type} {m : TreeMap String β} {k g : String} {b z : β} (h : k ≠ g) :
    (m.insert k b).getD g z = m.getD g z := by
  rw [TreeMap.getD_insert, if_neg fun heq => h (LawfulEqCmp.eq_of_compare heq)]

theorem mem_insert_iff {β : Type} {m : TreeMap String β} {k g : String} {b : β} :
    g ∈ m.insert k b ↔ k = g ∨ g ∈ m := by
  rw [TreeMap.mem_insert, LawfulEqCmp.compare_eq_iff_eq]

theorem getD_foldl_tally (ngrams : List String) (m : TreeMap String Nat) (g : String) :
    (ngrams.foldl (fun m g => m.insert g (m.getD g 0 + 1)) m).getD g 0 =
      m.getD g 0 + ngrams.count g := by
  induction ngrams generalizing m with
  | nil => rfl
  | cons a rest ih =>
    rw [List.foldl_cons, ih]
    by_cases h : a = g
    · subst h
      rw [TreeMap.getD_insert_self, List.count_cons_self]
      omega
    · rw [getD_insert_of_ne h, List.count_cons_of_ne h]

theorem mem_foldl_tally (ngrams : List String) (m : TreeMap String Nat) (g : String) :
    g ∈ ngrams.foldl (fun m g => m.insert g (m.getD g 0 + 1)) m ↔ g ∈ ngrams ∨ g ∈ m := by
  induction ngrams generalizing m with
  | nil => simp
  | cons a rest ih =>
    rw [List.foldl_cons, ih, mem_insert_iff, List.mem_cons]
    tauto

/-- What a map holds, given which keys are in it and what it gives for them. -/
theorem mem_toList_iff_getD {β : Type} {m : TreeMap String β} {c : String × β} {z : β} :
    c ∈ m.toList ↔ c.1 ∈ m ∧ m.getD c.1 z = c.2 := by
  obtain ⟨g, b⟩ := c
  rw [TreeMap.mem_toList_iff_getElem?_eq_some, TreeMap.getD_eq_getD_getElem?]
  refine ⟨fun h => ⟨?_, by rw [h]; rfl⟩, fun ⟨hmem, hget⟩ => ?_⟩
  · exact TreeMap.mem_iff_isSome_getElem?.2 (by rw [h]; rfl)
  · obtain ⟨b', hb'⟩ := Option.isSome_iff_exists.1 (TreeMap.mem_iff_isSome_getElem?.1 hmem)
    rw [hb', Option.getD_some] at hget
    rw [hb', hget]

/-- In a document its n-grams are counted. -/
theorem mem_toList_tally {ngrams : List String} {c : String × Nat} :
    c ∈ (tally ngrams).toList ↔ c.1 ∈ ngrams ∧ ngrams.count c.1 = c.2 := by
  unfold tally
  rw [mem_toList_iff_getD (z := 0), mem_foldl_tally, getD_foldl_tally]
  simp

/-! ## Adding up -/

theorem nodup_keys {β : Type} (m : TreeMap String β) : (m.toList.map Prod.fst).Nodup := by
  rw [TreeMap.map_fst_toList_eq_keys]
  refine TreeMap.ordered_keys.imp fun {a b} h => ?_
  rintro rfl
  exact absurd h (by simp)

/-- What is counted of an n-gram that is not among the counts of a document stays as it was. -/
theorem getD_foldl_addCount_of_not_mem {entries : List (String × Nat)} {g : String}
    (h : g ∉ entries.map Prod.fst) (m : TreeMap String Frequency) (z : Frequency) :
    (entries.foldl (fun m c => addCount m c.1 c.2) m).getD g z = m.getD g z := by
  induction entries generalizing m with
  | nil => rfl
  | cons c rest ih =>
    rw [List.map_cons, List.mem_cons, not_or] at h
    rw [List.foldl_cons, ih h.2]
    exact getD_insert_of_ne fun heq => h.1 heq.symm

/-- The count of an n-gram is added, and the document is counted once. -/
theorem getD_foldl_addCount_of_mem {entries : List (String × Nat)} {c : String × Nat}
    (hn : (entries.map Prod.fst).Nodup) (h : c ∈ entries) (m : TreeMap String Frequency) :
    (entries.foldl (fun m c => addCount m c.1 c.2) m).getD c.1 ⟨0, 0⟩ =
      ⟨(m.getD c.1 ⟨0, 0⟩).documents + 1, (m.getD c.1 ⟨0, 0⟩).occurrences + c.2⟩ := by
  induction entries generalizing m with
  | nil => cases h
  | cons d rest ih =>
    rw [List.map_cons, List.nodup_cons] at hn
    rw [List.foldl_cons]
    rcases List.mem_cons.1 h with rfl | h
    · rw [getD_foldl_addCount_of_not_mem hn.1]
      exact TreeMap.getD_insert_self
    · have hne : d.1 ≠ c.1 := fun heq => hn.1 (heq ▸ List.mem_map_of_mem h)
      rw [ih hn.2 h]
      unfold addCount
      rw [getD_insert_of_ne hne]

theorem mem_foldl_addCount (entries : List (String × Nat)) (m : TreeMap String Frequency)
    (g : String) :
    g ∈ entries.foldl (fun m c => addCount m c.1 c.2) m ↔ g ∈ entries.map Prod.fst ∨ g ∈ m := by
  induction entries generalizing m with
  | nil => simp
  | cons c rest ih =>
    rw [List.foldl_cons, ih, addCount, mem_insert_iff, List.map_cons, List.mem_cons]
    tauto

/-- The counts of a document in some order. -/
abbrev Counts (ngrams : List String) (entries : List (String × Nat)) : Prop :=
  entries.Perm (tally ngrams).toList

theorem Counts.mem_keys {ngrams : List String} {entries : List (String × Nat)}
    (h : Counts ngrams entries) {g : String} : g ∈ entries.map Prod.fst ↔ g ∈ ngrams := by
  refine ⟨fun hg => ?_, fun hg => ?_⟩
  · obtain ⟨c, hc, rfl⟩ := List.mem_map.1 hg
    exact (mem_toList_tally.1 (h.mem_iff.1 hc)).1
  · have hc : (g, ngrams.count g) ∈ (tally ngrams).toList := mem_toList_tally.2 ⟨hg, rfl⟩
    exact List.mem_map_of_mem (h.mem_iff.2 hc)

/-- What the counts of one document add, in whatever order they are gone through. -/
theorem Counts.getD {ngrams : List String} {entries : List (String × Nat)}
    (h : Counts ngrams entries) (m : TreeMap String Frequency) (g : String) :
    (entries.foldl (fun m c => addCount m c.1 c.2) m).getD g ⟨0, 0⟩ =
      ⟨(m.getD g ⟨0, 0⟩).documents + if g ∈ ngrams then 1 else 0,
        (m.getD g ⟨0, 0⟩).occurrences + ngrams.count g⟩ := by
  by_cases hg : g ∈ ngrams
  · have hc : (g, ngrams.count g) ∈ entries :=
      h.mem_iff.2 (mem_toList_tally.2 ⟨hg, rfl⟩)
    have hnodup : (entries.map Prod.fst).Nodup := (h.map Prod.fst).nodup_iff.2 (nodup_keys _)
    rw [getD_foldl_addCount_of_mem hnodup hc, if_pos hg]
  · rw [getD_foldl_addCount_of_not_mem (mt h.mem_keys.1 hg), if_neg hg,
      List.count_eq_zero_of_not_mem hg]
    rfl

/-- The frequencies added up document by document, the counts of each in its own order. -/
def addedUp (documents : List String) (entries : String → List (String × Nat)) :
    TreeMap String Frequency :=
  documents.foldl (fun m d => (entries d).foldl (fun m c => addCount m c.1 c.2) m) ∅

theorem frequencies_eq (range : NGramRange) (documents : List String) :
    frequencies range documents =
      addedUp documents fun d => (tally (gramsOf range d)).toList := by
  unfold frequencies addedUp
  congr 1
  funext m d
  exact TreeMap.foldl_eq_foldl_toList

section

variable {range : NGramRange} {documents : List String} {entries : String → List (String × Nat)}

theorem getD_foldl_documents (h : ∀ d ∈ documents, Counts (gramsOf range d) (entries d))
    (m : TreeMap String Frequency) (g : String) :
    (documents.foldl (fun m d => (entries d).foldl (fun m c => addCount m c.1 c.2) m) m).getD g
        ⟨0, 0⟩ =
      ⟨(m.getD g ⟨0, 0⟩).documents + (frequencyOf range documents g).documents,
        (m.getD g ⟨0, 0⟩).occurrences + (frequencyOf range documents g).occurrences⟩ := by
  induction documents generalizing m with
  | nil => rfl
  | cons d rest ih =>
    rw [List.foldl_cons, ih fun d hd => h d (List.mem_cons_of_mem _ hd),
      (h d List.mem_cons_self).getD]
    simp only [frequencyOf, List.countP_cons, List.map_cons, List.sum_cons, decide_eq_true_eq,
      Frequency.mk.injEq]
    omega

theorem mem_foldl_documents (h : ∀ d ∈ documents, Counts (gramsOf range d) (entries d))
    (m : TreeMap String Frequency) (g : String) :
    g ∈ documents.foldl (fun m d => (entries d).foldl (fun m c => addCount m c.1 c.2) m) m ↔
      (∃ d ∈ documents, g ∈ gramsOf range d) ∨ g ∈ m := by
  induction documents generalizing m with
  | nil => simp
  | cons d rest ih =>
    rw [List.foldl_cons, ih fun d hd => h d (List.mem_cons_of_mem _ hd), mem_foldl_addCount,
      (h d List.mem_cons_self).mem_keys, List.exists_mem_cons_iff, or_left_comm, or_assoc]

/-- The candidates are the n-grams of the documents, each with what is counted of it. -/
theorem mem_toList_addedUp (h : ∀ d ∈ documents, Counts (gramsOf range d) (entries d))
    {c : Candidate} : c ∈ (addedUp documents entries).toList ↔
      c.1 ∈ documents.flatMap (gramsOf range) ∧ frequencyOf range documents c.1 = c.2 := by
  unfold addedUp
  rw [mem_toList_iff_getD (z := ⟨0, 0⟩), mem_foldl_documents h, getD_foldl_documents h,
    List.mem_flatMap]
  simp [frequencyOf]

end

/-- So are those of the frequencies as they are counted. -/
theorem mem_toList_frequencies {range : NGramRange} {documents : List String} {c : Candidate} :
    c ∈ (frequencies range documents).toList ↔
      c.1 ∈ documents.flatMap (gramsOf range) ∧ frequencyOf range documents c.1 = c.2 := by
  rw [frequencies_eq, mem_toList_addedUp fun d _ => .refl _]

theorem frequencyOf_perm {range : NGramRange} {documents other : List String}
    (h : other.Perm documents) (g : String) :
    frequencyOf range other g = frequencyOf range documents g := by
  unfold frequencyOf
  rw [h.countP_eq, (h.map _).sum_eq]

/-! ## Choosing -/

/-- The order of candidates, written out: what is found in more documents comes first, then what
occurs more often, then what is smaller. -/
theorem rank_eq_lt {a b : Candidate} :
    rank a b = .lt ↔ b.2.documents < a.2.documents ∨ b.2.documents = a.2.documents ∧
      (b.2.occurrences < a.2.occurrences ∨
        b.2.occurrences = a.2.occurrences ∧ a.1.toList < b.1.toList) := by
  unfold rank
  rw [Ordering.then_eq_lt, Ordering.then_eq_lt, Nat.compare_eq_lt, Nat.compare_eq_lt,
    Nat.compare_eq_eq, Nat.compare_eq_eq, compare_lt_iff_lt, String.lt_iff_toList_lt]

/-- Candidates in order; only which ones there are matters. -/
theorem ranked_congr {l l' : List Candidate} (h : ∀ c, c ∈ l ↔ c ∈ l') :
    (TreeSet.ofList l rank).toList = (TreeSet.ofList l' rank).toList := by
  refine TreeSet.Equiv.toList_eq (TreeSet.equiv_iff_forall_mem_iff.2 fun c => ?_)
  rw [TreeSet.mem_ofList, TreeSet.mem_ofList]
  simpa using h c

theorem best_congr {l l' : List Candidate} (n : Nat) (h : ∀ c, c ∈ l ↔ c ∈ l') :
    best n l = best n l' := by
  unfold best
  rw [ranked_congr h]

theorem mem_ranked {l : List Candidate} {c : Candidate} :
    c ∈ (TreeSet.ofList l rank).toList ↔ c ∈ l := by
  rw [TreeSet.mem_toList, TreeSet.mem_ofList]
  simp

theorem pairwise_ranked (l : List Candidate) :
    (TreeSet.ofList l rank).toList.Pairwise fun a b => rank a b = .lt :=
  TreeSet.ordered_toList

/-- What is kept comes before what is not. -/
theorem rank_of_best {l : List Candidate} {n : Nat} {a b : Candidate} (ha : a ∈ best n l)
    (hb : b ∈ l) (hnot : b ∉ best n l) : rank a b = .lt := by
  have hsplit := List.take_append_drop n (TreeSet.ofList l rank).toList
  have hpairs := pairwise_ranked l
  rw [← hsplit, List.pairwise_append] at hpairs
  refine hpairs.2.2 a ha b ?_
  have hmem := mem_ranked.2 hb
  rw [← hsplit, List.mem_append] at hmem
  exact hmem.resolve_left hnot

theorem nodup_ranked (l : List Candidate) : (TreeSet.ofList l rank).toList.Nodup := by
  refine (pairwise_ranked l).imp fun {a b} h heq => ?_
  subst heq
  have hsame : rank a a = .eq := Std.ReflCmp.compare_self
  rw [hsame] at h
  cases h

/-- Candidates sorted in any way that respects their order and cut off are the best. -/
theorem take_of_sorted {l sorted : List Candidate} (hp : sorted.Perm l) (hl : l.Nodup)
    (hs : sorted.Pairwise fun a b => rank a b ≠ .gt) (n : Nat) : sorted.take n = best n l := by
  have hsame : sorted = (TreeSet.ofList l rank).toList := by
    refine List.Perm.eq_of_pairwise (fun a b _ _ hab hba => ?_) hs
      ((pairwise_ranked l).imp fun h => by rw [h]; decide)
      (hp.trans ((List.perm_ext_iff_of_nodup hl (nodup_ranked l)).2 fun c => mem_ranked.symm))
    -- Two candidates neither of which comes after the other are the same.
    cases h : rank a b with
    | lt => exact absurd (Std.OrientedCmp.gt_of_lt h) hba
    | eq => exact LawfulEqCmp.eq_of_compare h
    | gt => exact absurd h hab
  rw [hsame]
  rfl

/-- Bringing candidates of different terms into the order of their terms changes nothing else. -/
theorem byTerm_perm {l : List Candidate} (hl : (l.map Prod.fst).Nodup) : (byTerm l).Perm l := by
  have hdistinct : l.Pairwise fun a b => ¬compare a.1 b.1 = .eq :=
    (List.pairwise_map.1 hl).imp fun h heq => h (LawfulEqCmp.eq_of_compare heq)
  refine (List.perm_ext_iff_of_nodup (List.Nodup.of_map Prod.fst (nodup_keys _))
    (List.Nodup.of_map Prod.fst hl)).2 fun c => ?_
  obtain ⟨g, f⟩ := c
  have hget (f' : Frequency) (hmem : (g, f') ∈ l) : (TreeMap.ofList l)[g]? = some f' :=
    TreeMap.getElem?_ofList_of_mem (Std.ReflCmp.compare_self) hdistinct hmem
  refine ⟨fun h => ?_, fun h => TreeMap.mem_toList_iff_getElem?_eq_some.2 (hget f h)⟩
  obtain ⟨c, hc, rfl⟩ := List.mem_map.1 (mem_of_byTerm (List.mem_map_of_mem h))
  have hsome := TreeMap.mem_toList_iff_getElem?_eq_some.1 h
  rw [hget c.2 hc] at hsome
  exact Option.some.inj hsome ▸ hc

/-- So does any other way to sort them by their terms. -/
theorem eq_byTerm_of_sorted {l sorted : List Candidate} (hp : sorted.Perm l)
    (hl : (l.map Prod.fst).Nodup) (hs : sorted.Pairwise fun a b => compare a.1 b.1 ≠ .gt) :
    sorted = byTerm l := by
  refine List.Perm.eq_of_pairwise (fun a b ha hb hab hba => ?_) hs
    (TreeMap.ordered_keys_toList.imp fun h => by rw [h]; decide) (hp.trans (byTerm_perm hl).symm)
  have hterm : a.1 = b.1 := by
    cases h : compare a.1 b.1 with
    | lt => exact absurd (Std.OrientedCmp.gt_of_lt h) hba
    | eq => exact LawfulEqCmp.eq_of_compare h
    | gt => exact absurd h hab
  exact List.inj_on_of_nodup_map hl (hp.mem_iff.1 ha) ((byTerm_perm hl).mem_iff.1 hb) hterm

theorem pairwise_byTerm (l : List Candidate) :
    ((byTerm l).map Prod.fst).Pairwise fun a b => a.toList < b.toList := by
  rw [List.pairwise_map]
  refine TreeMap.ordered_keys_toList.imp fun {a b} h => ?_
  rwa [compare_lt_iff_lt, String.lt_iff_toList_lt] at h

/-! ## Vocabularies -/

/-- What is fitted to documents: of their n-grams, as many as are allowed, namely the first in the
order of the frequencies, in ascending order and each with its weight. -/
structure FittedTo (settings : VectorizerSettings) (documents : List String) (v : Vectorizer) :
    Prop where
  given : v.settings = settings
  ascending : v.terms.toList.Pairwise fun a b => a.toList < b.toList
  found : ∀ t ∈ v.terms, t ∈ documents.flatMap (gramsOf settings.ngrams)
  size : v.terms.size =
    min settings.maxFeatures (documents.flatMap (gramsOf settings.ngrams)).toFinset.card
  first : ∀ t ∈ v.terms, ∀ g ∈ documents.flatMap (gramsOf settings.ngrams), g ∉ v.terms →
    let kept := frequencyOf settings.ngrams documents t
    let dropped := frequencyOf settings.ngrams documents g
    dropped.documents < kept.documents ∨ dropped.documents = kept.documents ∧
      (dropped.occurrences < kept.occurrences ∨
        dropped.occurrences = kept.occurrences ∧ t.toList < g.toList)
  weights : v.weights = v.terms.map fun t =>
    Number.ln ((1 + Float.ofNat documents.length) /
      (1 + Float.ofNat (documents.countP fun d => t ∈ gramsOf settings.ngrams d))) + 1

section

variable {range : NGramRange} {documents : List String} {l : List Candidate}

/-- A term has but one frequency. -/
theorem nodup_terms_ranked
    (hl : ∀ c, c ∈ l ↔ c.1 ∈ documents.flatMap (gramsOf range) ∧
      frequencyOf range documents c.1 = c.2) :
    ((TreeSet.ofList l rank).toList.map Prod.fst).Nodup := by
  refine (nodup_ranked l).map_on fun c hc d hd heq => ?_
  have hcf := ((hl c).1 (mem_ranked.1 hc)).2
  have hdf := ((hl d).1 (mem_ranked.1 hd)).2
  exact Prod.ext heq (by rw [← hcf, ← hdf, heq])

theorem length_best
    (hl : ∀ c, c ∈ l ↔ c.1 ∈ documents.flatMap (gramsOf range) ∧
      frequencyOf range documents c.1 = c.2) (n : Nat) :
    (best n l).length = min n (documents.flatMap (gramsOf range)).toFinset.card := by
  have hsame : ((TreeSet.ofList l rank).toList.map Prod.fst).toFinset =
      (documents.flatMap (gramsOf range)).toFinset := by
    ext g
    rw [List.mem_toFinset, List.mem_toFinset, List.mem_map]
    refine ⟨?_, fun hg =>
      ⟨(g, frequencyOf range documents g), mem_ranked.2 ((hl _).2 ⟨hg, rfl⟩), rfl⟩⟩
    rintro ⟨c, hc, rfl⟩
    exact ((hl c).1 (mem_ranked.1 hc)).1
  rw [best, List.length_take, ← hsame, List.toFinset_card_of_nodup (nodup_terms_ranked hl),
    List.length_map]

theorem isEmpty_frequencies :
    (frequencies range documents).isEmpty = true ↔ documents.flatMap (gramsOf range) = [] := by
  rw [← TreeMap.isEmpty_toList, List.isEmpty_iff, List.eq_nil_iff_forall_not_mem,
    List.eq_nil_iff_forall_not_mem]
  refine ⟨fun h g hg => ?_, fun h c hc => h c.1 (mem_toList_frequencies.1 hc).1⟩
  exact h (g, frequencyOf range documents g) (mem_toList_frequencies.2 ⟨hg, rfl⟩)

end

section

variable {settings : VectorizerSettings} {documents : List String}

/-- The candidates of documents that are kept, in ascending order of their terms. -/
def chosen (settings : VectorizerSettings) (documents : List String) : List Candidate :=
  byTerm (best settings.maxFeatures (frequencies settings.ngrams documents).toList)

/-- Documents with n-grams are fitted with the candidates chosen. -/
theorem fit_of_chosen (hgrams : documents.flatMap (gramsOf settings.ngrams) ≠ []) :
    fit settings documents = (ofParts settings ((chosen settings documents).map Prod.fst).toArray
      ((chosen settings documents).map fun c =>
        smoothedWeight documents.length c.2.documents).toArray).mapError .corrupt := by
  have hne : documents ≠ [] := by
    rintro rfl
    exact hgrams rfl
  unfold fit
  rw [if_neg (by simpa using hne)]
  simp only
  rw [if_neg fun h => hgrams (isEmpty_frequencies.1 h)]
  rfl

theorem nodup_terms_best : ((best settings.maxFeatures
    (frequencies settings.ngrams documents).toList).map Prod.fst).Nodup :=
  (nodup_terms_ranked fun c => mem_toList_frequencies (c := c)).sublist
    ((List.take_sublist _ _).map _)

theorem chosen_perm : (chosen settings documents).Perm
    (best settings.maxFeatures (frequencies settings.ngrams documents).toList) :=
  byTerm_perm nodup_terms_best

theorem found_of_chosen {c : Candidate} (hc : c ∈ chosen settings documents) :
    c.1 ∈ documents.flatMap (gramsOf settings.ngrams) ∧
      frequencyOf settings.ngrams documents c.1 = c.2 :=
  mem_toList_frequencies.1 (mem_of_best (chosen_perm.mem_iff.1 hc))

/-- The parts of a vectorizer made of the candidates chosen are in order. -/
theorem ofParts_chosen (hsize : documents.length < UInt64.size) :
    ∃ v, ofParts settings ((chosen settings documents).map Prod.fst).toArray
      ((chosen settings documents).map fun c =>
        smoothedWeight documents.length c.2.documents).toArray = .ok v := by
  refine ofParts_of_sound ⟨?aligned, ?few, ?finite, ?named, ?distinct⟩
  case aligned =>
    rw [List.size_toArray, List.size_toArray, List.length_map, List.length_map]
  case few =>
    rw [List.size_toArray, List.length_map, chosen_perm.length_eq]
    exact List.length_take_le _ _
  case finite =>
    intro w hw
    obtain ⟨c, hc, rfl⟩ := List.mem_map.1 (List.mem_toArray.1 hw)
    refine isFinite_smoothedWeight hsize (Nat.lt_of_le_of_lt ?_ hsize)
    rw [← (found_of_chosen hc).2]
    exact List.countP_le_length
  case named =>
    intro hempty
    obtain ⟨c, hc, hc0⟩ := List.mem_map.1 (List.mem_toArray.1 hempty)
    obtain ⟨d, -, hd⟩ := List.mem_flatMap.1 (found_of_chosen hc).1
    exact Text.empty_not_mem_extract _ d (hc0 ▸ hd)
  case distinct =>
    exact (chosen_perm.map Prod.fst).nodup_iff.2 nodup_terms_best

/-- A vectorizer made of them is what the documents ask for. -/
theorem fittedTo_of_chosen {v : Vectorizer}
    (hv : ofParts settings ((chosen settings documents).map Prod.fst).toArray
      ((chosen settings documents).map fun c =>
        smoothedWeight documents.length c.2.documents).toArray = .ok v) :
    FittedTo settings documents v := by
  obtain ⟨hgiven, hterms, hweights, -⟩ := made_of_ofParts hv
  have hmem (t : String) : t ∈ v.terms ↔ t ∈ (chosen settings documents).map Prod.fst := by
    rw [hterms, List.mem_toArray]
  refine ⟨hgiven, ?ascending, fun t ht => ?found, ?size, fun t ht g hg hnot => ?first, ?weights⟩
  case ascending =>
    rw [hterms]
    exact pairwise_byTerm _
  case found =>
    obtain ⟨c, hc, rfl⟩ := List.mem_map.1 ((hmem t).1 ht)
    exact (found_of_chosen hc).1
  case size =>
    rw [hterms, List.size_toArray, List.length_map, chosen_perm.length_eq,
      length_best fun c => mem_toList_frequencies (c := c)]
  case first =>
    obtain ⟨c, hc, rfl⟩ := List.mem_map.1 ((hmem t).1 ht)
    have hdropped : (g, frequencyOf settings.ngrams documents g) ∉ best settings.maxFeatures
        (frequencies settings.ngrams documents).toList := fun h =>
      hnot ((hmem g).2 (List.mem_map_of_mem (f := Prod.fst) (chosen_perm.mem_iff.2 h)))
    have hrank := rank_of_best (chosen_perm.mem_iff.1 hc)
      (mem_toList_frequencies.2 ⟨hg, rfl⟩) hdropped
    rw [rank_eq_lt, ← (found_of_chosen hc).2] at hrank
    exact hrank
  case weights =>
    rw [hterms, hweights, List.map_toArray, List.map_map]
    refine congrArg _ (List.map_congr_left fun c hc => ?_)
    rw [← (found_of_chosen hc).2]
    rfl

/-- Where there are n-grams, a vectorizer is fitted. -/
theorem fit_ok (hsize : documents.length < UInt64.size)
    (hgrams : documents.flatMap (gramsOf settings.ngrams) ≠ []) :
    ∃ v, fit settings documents = .ok v ∧ FittedTo settings documents v := by
  obtain ⟨v, hv⟩ := ofParts_chosen hsize
  exact ⟨v, by rw [fit_of_chosen hgrams, hv]; rfl, fittedTo_of_chosen hv⟩

end

/-- One way through the counts: the n-grams of each document in some order, the candidates in some
order, sorted, cut off and sorted again by their terms. -/
structure Passage (settings : VectorizerSettings) (documents : List String)
    (entries : String → List (String × Nat)) (ranked kept : List Candidate) : Prop where
  counted : ∀ d ∈ documents, Counts (gramsOf settings.ngrams d) (entries d)
  collected : ranked.Perm (addedUp documents entries).toList
  ordered : ranked.Pairwise fun a b => rank a b ≠ .gt
  cut : kept.Perm (ranked.take settings.maxFeatures)
  sorted : kept.Pairwise fun a b => compare a.1 b.1 ≠ .gt

/-- All ways through the counts keep the same. -/
theorem Passage.kept_eq {settings : VectorizerSettings} {documents : List String}
    {entries : String → List (String × Nat)} {ranked kept : List Candidate}
    (h : Passage settings documents entries ranked kept) : kept = chosen settings documents := by
  have hl : ∀ c, c ∈ (addedUp documents entries).toList ↔ _ :=
    fun c => mem_toList_addedUp (c := c) h.counted
  have hbest : ranked.take settings.maxFeatures =
      best settings.maxFeatures (frequencies settings.ngrams documents).toList := by
    rw [take_of_sorted h.collected (List.Nodup.of_map Prod.fst (nodup_keys _)) h.ordered]
    exact best_congr _ fun c => (hl c).trans mem_toList_frequencies.symm
  exact eq_byTerm_of_sorted (hbest ▸ h.cut) nodup_terms_best h.sorted

theorem fit_of_no_ngram {settings : VectorizerSettings} {documents : List String}
    (hne : documents ≠ []) (hnone : documents.flatMap (gramsOf settings.ngrams) = []) :
    fit settings documents = .error (.emptyVocabulary documents.length) := by
  unfold fit
  rw [if_neg (by simpa using hne)]
  simp only
  rw [if_pos (isEmpty_frequencies.2 hnone)]

/-- The order of the documents does not matter. -/
theorem fit_perm {settings : VectorizerSettings} {documents other : List String}
    (h : other.Perm documents) : fit settings other = fit settings documents := by
  rcases eq_or_ne documents [] with rfl | hne
  · rw [h.eq_nil]
  · have hgrams := h.flatMap_right (gramsOf settings.ngrams)
    by_cases hnone : documents.flatMap (gramsOf settings.ngrams) = []
    · have hother : other ≠ [] := fun heq => hne (by rw [heq] at h; exact h.symm.eq_nil)
      rw [hnone] at hgrams
      rw [fit_of_no_ngram hne hnone, fit_of_no_ngram hother hgrams.eq_nil, h.length_eq]
    · have hsome : other.flatMap (gramsOf settings.ngrams) ≠ [] := fun heq =>
        hnone (by rw [heq] at hgrams; exact hgrams.symm.eq_nil)
      have hbest : best settings.maxFeatures (frequencies settings.ngrams other).toList =
          best settings.maxFeatures (frequencies settings.ngrams documents).toList :=
        best_congr _ fun c => by
          rw [mem_toList_frequencies, mem_toList_frequencies, hgrams.mem_iff, frequencyOf_perm h]
      have hchosen : chosen settings other = chosen settings documents := congrArg byTerm hbest
      rw [fit_of_chosen hnone, fit_of_chosen hsome, hchosen, h.length_eq]

/-- What fitting gives for documents. It fails if there are none, or none of them has an n-gram; all
else is fitted as the documents ask for. The order of the documents does not matter, and neither
does the way in which the counts are gone through. -/
theorem fit_vocabulary {settings : VectorizerSettings} (hpos : 0 < settings.maxFeatures)
    {documents : List String} (hsize : documents.length < UInt64.size) :
    (fit settings documents = .error .emptyCorpus ↔ documents = []) ∧
    (fit settings documents = .error (.emptyVocabulary documents.length) ↔
      documents ≠ [] ∧ ∀ d ∈ documents, gramsOf settings.ngrams d = []) ∧
    ((∃ d ∈ documents, gramsOf settings.ngrams d ≠ []) →
      ∃ v, fit settings documents = .ok v ∧ v.terms ≠ #[] ∧ FittedTo settings documents v) ∧
    (∀ other : List String, other.Perm documents →
      fit settings other = fit settings documents) ∧
    ∀ entries ranked kept, Passage settings documents entries ranked kept →
      (∃ d ∈ documents, gramsOf settings.ngrams d ≠ []) →
      fit settings documents = (ofParts settings (kept.map Prod.fst).toArray
        (kept.map fun c => smoothedWeight documents.length c.2.documents).toArray).mapError
        .corrupt := by
  have hgrams : (∃ d ∈ documents, gramsOf settings.ngrams d ≠ []) ↔
      documents.flatMap (gramsOf settings.ngrams) ≠ [] := by
    simp [List.flatMap_eq_nil_iff]
  have hnone : (∀ d ∈ documents, gramsOf settings.ngrams d = []) ↔
      documents.flatMap (gramsOf settings.ngrams) = [] := List.flatMap_eq_nil_iff.symm
  refine ⟨⟨fun h => ?_, fun h => by rw [h]; rfl⟩, ⟨fun h => ?_, fun h => ?_⟩, fun h => ?_,
    fun other => fit_perm, fun entries ranked kept hpassage h => ?_⟩
  · by_contra hne
    by_cases hempty : documents.flatMap (gramsOf settings.ngrams) = []
    · rw [fit_of_no_ngram hne hempty] at h
      cases h
    · obtain ⟨v, hv, -⟩ := fit_ok hsize hempty
      rw [hv] at h
      cases h
  · refine ⟨?_, hnone.2 ?_⟩
    · rintro rfl
      cases h
    · by_contra hsome
      obtain ⟨v, hv, -⟩ := fit_ok hsize hsome
      rw [hv] at h
      cases h
  · exact fit_of_no_ngram h.1 (hnone.1 h.2)
  · obtain ⟨v, hv, hfitted⟩ := fit_ok hsize (hgrams.1 h)
    refine ⟨v, hv, fun hempty => ?_, hfitted⟩
    have hcard : 0 < (documents.flatMap (gramsOf settings.ngrams)).toFinset.card := by
      rw [Finset.card_pos, List.toFinset_nonempty_iff]
      exact hgrams.1 h
    have hsize := hfitted.size
    rw [hempty, List.size_toArray, List.length_nil] at hsize
    omega
  · rw [fit_of_chosen (hgrams.1 h), hpassage.kept_eq]

/-- The settings that keep one term. -/
def oneTerm : VectorizerSettings :=
  ⟨1, .upToThree⟩

/-- Of two terms in as many documents the one that occurs more often is kept. -/
theorem fit_vocabulary_oneTerm : 0 < oneTerm.maxFeatures ∧ ["b a a", "a b"].length < UInt64.size ∧
    ∃ v, fit oneTerm ["b a a", "a b"] = .ok v ∧ v.terms = #["a"] ∧
      FittedTo oneTerm ["b a a", "a b"] v ∧ fit oneTerm ["a b", "b a a"] = .ok v := by
  have hpos : 0 < oneTerm.maxFeatures := by decide
  have hsize : ["b a a", "a b"].length < UInt64.size := by decide
  have hsome : ∃ d ∈ ["b a a", "a b"], gramsOf oneTerm.ngrams d ≠ [] :=
    ⟨_, List.mem_cons_self, by decide +kernel⟩
  obtain ⟨-, -, hok, hperm, -⟩ := fit_vocabulary hpos hsize
  obtain ⟨v, hv, -, hfitted⟩ := hok hsome
  have hterms : (fit oneTerm ["b a a", "a b"]).toOption.map terms = some #["a"] := by
    decide +kernel
  rw [hv] at hterms
  exact ⟨hpos, hsize, v, hv, Option.some.inj hterms, hfitted,
    (hperm _ (.swap "b a a" "a b" [])).trans hv⟩

end Triage.Vectorizer
