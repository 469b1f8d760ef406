/-
The views of a text agree. The count of an index is the number of times its term occurs among the
n-grams; all other views follow from the counts. Their sum is the number of n-grams that are terms,
the terms with a count are the known ones, the vector is zero where there is none, and it is zero
altogether, and so is the coverage, just if no term is known.
-/
import Triage.Proofs.Number.Finite
import Triage.Proofs.Text.Windows
import Triage.Proofs.Vectorizer.Occurrences

namespace Triage.Vectorizer

open Std (TreeMap TreeSet)

variable {v : Vectorizer} {text g : String} {i : Nat}

/-! ## Counts -/

/-- The counts of a text are those of the terms, in their order. -/
theorem Made.counts_eq (hv : v.Made) : v.counts text = v.terms.map (v.ngrams text).count := by
  refine Array.ext_getElem? fun i => ?_
  rw [getElem?_counts, Array.getElem?_map]
  by_cases hi : i < v.size
  · rw [if_pos hi, hv.occurrences_eq hi, Array.getElem?_eq_getElem hi, Option.map_some]
  · rw [if_neg hi, Array.getElem?_eq_none (Nat.le_of_not_lt hi), Option.map_none]

/-- An index counts at most once for each token. -/
theorem Made.occurrences_le (hv : v.Made) :
    v.occurrences (v.ngrams text) i ≤ text.length := by
  by_cases hi : i < v.size
  · rw [hv.occurrences_eq hi]
    exact (Text.count_extract_le v.settings.ngrams text _).trans (Text.length_tokenize_le text)
  · rw [hv.occurrences_eq_zero (Nat.le_of_not_lt hi)]
    exact Nat.zero_le _

/-- In a text of fewer than `2^53` characters the sums in doubles are the counts. -/
theorem Made.getD_sums (hv : v.Made) (hi : i < v.size) (hlen : text.length < 2 ^ 53) :
    (v.sums text).getD i 0 = Float.ofNat ((v.ngrams text).count v.terms[i]) := by
  have hcount : v.occurrences (v.ngrams text) i ≤ text.length := hv.occurrences_le
  rw [TreeMap.getD_eq_getD_getElem?, getElem?_sums, ← hv.occurrences_eq hi, put]
  split
  · rename_i hzero
    rw [hzero]
    rfl
  · rw [Option.getD_some, countedUp_eq (hcount.trans_lt hlen)]

/-- Members of a list that are in another without doubles are counted there one by one. -/
theorem sum_map_count {terms : List String} (hn : terms.Nodup) (ngrams : List String) :
    (terms.map ngrams.count).sum = ngrams.countP (· ∈ terms) := by
  induction ngrams with
  | nil => simp
  | cons g rest ih =>
    have hown : (terms.map fun term => if g == term then 1 else 0).sum =
        if g ∈ terms then 1 else 0 := by
      have hsame : terms.countP (fun term => decide (g = term)) = terms.count g :=
        List.countP_congr fun term _ => by rw [decide_eq_true_eq, beq_iff_eq, eq_comm]
      rw [List.sum_map_ite]
      simpa [← List.countP_eq_length_filter, ← hn.count] using hsame
    simp only [List.count_cons, List.sum_map_add, ih, hown, List.countP_cons, decide_eq_true_eq]

theorem Made.matched_eq_sum (hv : v.Made) : v.matched text = (v.counts text).sum := by
  rw [hv.counts_eq, ← Array.sum_toList, Array.toList_map,
    sum_map_count hv.sound.distinct, matched]
  refine List.countP_congr fun g _ => ?_
  rw [hv.isTerm_iff, decide_eq_true_eq, Array.mem_toList_iff]

/-! ## Known terms -/

/-- The known terms are those that are counted. -/
theorem Made.mem_known (hv : v.Made) :
    g ∈ v.known text ↔ g ∈ v.terms ∧ 0 < (v.ngrams text).count g := by
  unfold known
  rw [TreeSet.mem_toList, mem_foldl_insert, List.mem_filter, hv.isTerm_iff, List.count_pos_iff]
  simp [and_comm]

theorem nodup_known (v : Vectorizer) (text : String) : (v.known text).Nodup := by
  refine TreeSet.ordered_toList.imp fun {a b} hlt heq => ?_
  subst heq
  simp at hlt

theorem Made.matched_eq_zero_iff (hv : v.Made) : v.matched text = 0 ↔ v.known text = [] := by
  rw [matched, List.countP_eq_zero, List.eq_nil_iff_forall_not_mem]
  constructor
  · intro h g hg
    obtain ⟨hterm, hcount⟩ := hv.mem_known.1 hg
    exact h g (List.count_pos_iff.1 hcount) (hv.isTerm_iff.2 hterm)
  · intro h g hg hterm
    exact h g (hv.mem_known.2 ⟨hv.isTerm_iff.1 hterm, List.count_pos_iff.2 hg⟩)

/-! ## Vectors -/

/-- The count of a term that is not known is zero. -/
theorem Made.occurrences_of_unknown (hv : v.Made) (hi : i < v.size)
    (h : v.terms[i] ∉ v.known text) : v.occurrences (v.ngrams text) i = 0 := by
  rw [hv.occurrences_eq hi]
  by_contra hne
  exact h (hv.mem_known.2 ⟨Array.getElem_mem hi, Nat.pos_of_ne_zero hne⟩)

theorem transform_of_uncounted (hi : i < v.size) (h : v.occurrences (v.ngrams text) i = 0) :
    (v.transform text)[i]? = some 0 := by
  unfold transform
  rw [Array.getElem?_mapIdx, getElem?_counts, if_pos hi, h]
  simp

theorem accumulated_of_uncounted (hi : i < v.size) (h : v.occurrences (v.ngrams text) i = 0) :
    (v.accumulated text)[i]? = some 0 := by
  have habsent : i ∉ (v.weightedSums text).map Prod.fst := by
    intro hmem
    obtain ⟨⟨j, x⟩, hx, rfl⟩ := List.mem_map.1 hmem
    obtain ⟨⟨j, y⟩, hy, heq⟩ := List.mem_map.1 hx
    cases heq
    rw [TreeMap.mem_toList_iff_getElem?_eq_some, getElem?_sums, h] at hy
    simp [put] at hy
  unfold accumulated
  rw [getElem?_placed_of_not_mem, if_pos hi]
  split
  · rw [List.map_map]
    exact habsent
  · simp

/-- A vector of zeros at all places is the zero vector. -/
theorem eq_replicate_zero {xs : Singles} {n : Nat} (hsize : xs.size = n)
    (h : ∀ i < n, xs[i]? = some 0) : xs = Array.replicate n 0 := by
  refine Array.ext_getElem? fun i => ?_
  rw [Array.getElem?_replicate]
  split
  · rename_i hi
    exact h i hi
  · rename_i hi
    rw [Array.getElem?_eq_none (by omega)]

theorem size_placed (width : Nat) (entries : List (Nat × Float32)) :
    (placed width entries).size = width := by
  have hfold (xs : Singles) :
      (entries.foldl (fun xs e => xs.setIfInBounds e.1 e.2) xs).size = xs.size := by
    induction entries generalizing xs with
    | nil => rfl
    | cons e rest ih => rw [List.foldl_cons, ih, Array.size_setIfInBounds]
  rw [placed, hfold, Array.size_replicate]

/-! ## Coverage -/

/-- The coverage is the share of the n-grams that are terms. -/
theorem coverage_eq (h : v.ngrams text ≠ []) : v.coverage text =
    Float32.ofNat (v.matched text) / Float32.ofNat (v.ngrams text).length := by
  unfold coverage
  rw [if_neg (by simpa using h), matched]

theorem coverage_of_unmatched (h : v.matched text = 0) : v.coverage text = 0 := by
  by_cases hnone : v.ngrams text = []
  · simp [coverage, hnone]
  · rw [coverage_eq hnone, h]
    exact Number.zero_div_of_isPositive
      (Number.isPositive_ofNat (List.length_pos_iff.2 hnone))

/-! ## Main statement -/

/-- What is said of a text in several ways is the same. The count of an index is the number of times
its term occurs among the n-grams, also where it is added up in doubles, as long as the text has
fewer than `2^53` characters. As many n-grams are terms as the counts come to together; the known
terms are those with a count, and each is given once. A vector is zero, without a sign, where its
term is not known. No n-gram is a term just if no term is known, and then the vector is the zero
vector and the coverage is zero. The coverage of a text with n-grams is the number of those that are
terms, divided by the number of all. -/
theorem views_agree (hv : v.Produced) (text : String) :
    (v.counts text = v.terms.map (v.ngrams text).count ∧
      (text.length < 2 ^ 53 → ∀ i (hi : i < v.size),
        (v.sums text).getD i 0 = Float.ofNat ((v.ngrams text).count v.terms[i]))) ∧
    v.matched text = (v.counts text).sum ∧
    ((v.known text).Nodup ∧
      ∀ g, g ∈ v.known text ↔ g ∈ v.terms ∧ 0 < (v.ngrams text).count g) ∧
    (∀ i (hi : i < v.size), v.terms[i] ∉ v.known text →
      (v.transform text)[i]? = some 0 ∧ (v.accumulated text)[i]? = some 0) ∧
    (v.matched text = 0 ↔ v.known text = []) ∧
    (v.matched text = 0 → v.transform text = Array.replicate v.size 0 ∧
      v.accumulated text = Array.replicate v.size 0 ∧ v.coverage text = 0) ∧
    (v.ngrams text ≠ [] → v.coverage text =
      Float32.ofNat (v.matched text) / Float32.ofNat (v.ngrams text).length) := by
  obtain ⟨hmade, -⟩ := hv.made
  have hzero (i : Nat) (hi : i < v.size) (h : v.terms[i] ∉ v.known text) :
      (v.transform text)[i]? = some 0 ∧ (v.accumulated text)[i]? = some 0 :=
    ⟨transform_of_uncounted hi (hmade.occurrences_of_unknown hi h),
      accumulated_of_uncounted hi (hmade.occurrences_of_unknown hi h)⟩
  refine ⟨⟨hmade.counts_eq, fun hlen i hi => hmade.getD_sums hi hlen⟩, hmade.matched_eq_sum,
    ⟨v.nodup_known text, fun g => hmade.mem_known⟩, hzero, hmade.matched_eq_zero_iff,
    fun hnone => ⟨?transform, ?accumulated, coverage_of_unmatched hnone⟩, coverage_eq⟩
  all_goals rw [hmade.matched_eq_zero_iff] at hnone
  case transform =>
    refine eq_replicate_zero (v.size_transform text) fun i hi => (hzero i hi ?_).1
    simp [hnone]
  case accumulated =>
    refine eq_replicate_zero (size_placed v.size _) fun i hi => (hzero i hi ?_).2
    simp [hnone]

/-- A text in which one of two terms is known, and one in which neither is. -/
theorem views_agree_twoTerms : Produced twoTerms ∧
    twoTerms.counts "gratis; VX gratis" = #[2, 0] ∧ twoTerms.matched "gratis; VX gratis" = 2 ∧
    (twoTerms.transform "gratis; VX gratis")[1]? = some 0 ∧
    twoTerms.transform "heute nicht" = #[0, 0] ∧ twoTerms.coverage "heute nicht" = 0 := by
  have hwords : twoTerms.settings.InWords := by constructor <;> decide
  have hown : ofParts twoTerms.settings twoTerms.terms twoTerms.weights = .ok twoTerms := rfl
  have hproduced : Produced twoTerms := .assembled hwords hown
  obtain ⟨-, hsum, -, hzero, -⟩ := views_agree hproduced "gratis; VX gratis"
  obtain ⟨-, -, -, -, -, hnone, -⟩ := views_agree hproduced "heute nicht"
  have hcounts : twoTerms.counts "gratis; VX gratis" = #[2, 0] := by decide +kernel
  obtain ⟨htransform, -, hcoverage⟩ := hnone (by decide +kernel)
  exact ⟨hproduced, hcounts, by rw [hsum, hcounts]; rfl,
    (hzero 1 (by decide) (by decide +kernel)).1, htransform, hcoverage⟩

end Triage.Vectorizer
