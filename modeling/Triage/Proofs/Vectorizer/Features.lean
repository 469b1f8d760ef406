/-
Which features of a text are finite. The weighted count of a term may be too large for a double,
though its weight is not. Then the length of the vector is infinite, and the feature, infinity divided
by infinity, is no number. Every other feature is finite, whatever the length (`features_finite`). No
weighted count is too large if no weight is above 2^969, and those of fitted vectorizers are not.
-/
import Triage.Proofs.Number.Length
import Triage.Proofs.Vectorizer.Views
import Triage.Proofs.Vectorizer.Vocabulary

namespace Triage.Vectorizer

open Std (TreeMap)
open Number (Within partsOfDouble lengthOf)

variable {v : Vectorizer} {text : String} {i : Nat}

/-! ## Weighted counts -/

/-- Adding one does not get past `2^54`. -/
theorem within_countedUp (n : Nat) : Within 54 (countedUp n) := by
  induction n with
  | zero => exact Number.within_zero 54
  | succ n ih => exact ih.add_small Number.between_one.within (by norm_num) (by norm_num)

/-- The weighted count of an index, the count being added up. -/
def amount (v : Vectorizer) (text : String) (i : Nat) : Float :=
  countedUp (v.occurrences (v.ngrams text) i) * v.weights.getD i 0

theorem Made.isFinite_weight (hv : v.Made) (i : Nat) : (v.weights.getD i 0).isFinite = true :=
  Number.getD_of_all (p := fun w : Float => w.isFinite = true) hv.finite (by decide) i

/-- The weighted sums are the weighted counts of the indices that occur. -/
theorem mem_weightedSums {x : Float} : (i, x) ∈ v.weightedSums text ↔
    v.occurrences (v.ngrams text) i ≠ 0 ∧ v.amount text i = x := by
  unfold weightedSums amount
  rw [List.mem_map]
  constructor
  · rintro ⟨⟨j, c⟩, hc, heq⟩
    cases heq
    rw [TreeMap.mem_toList_iff_getElem?_eq_some, getElem?_sums, put] at hc
    split at hc
    · cases hc
    · rename_i hocc
      cases hc
      exact ⟨hocc, rfl⟩
  · rintro ⟨hocc, rfl⟩
    refine ⟨(i, _), ?_, rfl⟩
    rw [TreeMap.mem_toList_iff_getElem?_eq_some, getElem?_sums, put, if_neg hocc]

/-- The length of the vector of a text. -/
def textLength (v : Vectorizer) (text : String) : Float :=
  lengthOf ((v.weightedSums text).map Prod.snd)

theorem accumulated_eq (v : Vectorizer) (text : String) : v.accumulated text =
    placed v.size (if 0 < v.textLength text then
      (v.weightedSums text).map fun c => (c.1, Number.narrow (c.2 / v.textLength text)) else []) := by
  unfold accumulated textLength lengthOf Number.squares
  simp only [List.foldl_map]

/-- The feature of an index that occurs. -/
theorem getElem?_accumulated (hi : i < v.size) (hocc : v.occurrences (v.ngrams text) i ≠ 0) :
    (v.accumulated text)[i]? = some (if 0 < v.textLength text then
      Number.narrow (v.amount text i / v.textLength text) else 0) := by
  rw [accumulated_eq]
  by_cases hpos : 0 < v.textLength text
  · rw [if_pos hpos, if_pos hpos]
    refine getElem?_placed_of_mem ?_ ?_ hi
    · have hkeys : (v.sums text).toList.Pairwise fun c d => c.1 < d.1 :=
        TreeMap.ordered_keys_toList.imp Nat.compare_eq_lt.1
      rw [List.map_map]
      unfold weightedSums
      rw [List.map_map]
      exact List.pairwise_map.2 (hkeys.imp Nat.ne_of_lt)
    · exact List.mem_map.2 ⟨(i, _), mem_weightedSums.2 ⟨hocc, rfl⟩, rfl⟩
  · rw [if_neg hpos, if_neg hpos, getElem?_placed_of_not_mem List.not_mem_nil, if_pos hi]

/-! ## Features -/

/-- Whether a feature is what its weighted count admits: finite if that is, and else no number. -/
def Admits (amount : Float) (feature : Float32) : Prop :=
  if amount.isFinite then feature.isFinite = true else feature.isNaN = true

theorem Made.amount_cases (hv : v.Made) (text : String) (i : Nat) :
    (v.amount text i).isFinite = true ∨ ∃ s, partsOfDouble (v.amount text i) = .infinity s :=
  Number.mul_cases (within_countedUp _).isFinite (hv.isFinite_weight i)

theorem Made.weightedSums_numbers (hv : v.Made) (text : String) :
    ∀ x ∈ (v.weightedSums text).map Prod.snd, partsOfDouble x ≠ .notANumber := by
  intro x hx
  obtain ⟨⟨i, y⟩, hy, rfl⟩ := List.mem_map.1 hx
  obtain ⟨-, rfl⟩ := mem_weightedSums.1 hy
  rcases hv.amount_cases text i with h | ⟨s, hs⟩
  · rcases Number.parts_of_isFinite h with ⟨t, hp⟩ | ⟨t, m, e, hm, hp, -⟩ <;> rw [hp] <;> nofun
  · rw [hs]
    nofun

/-- The weighted count of an index that does not occur is zero, whatever its sign. -/
theorem Made.isFinite_amount_of_uncounted (hv : v.Made)
    (h : v.occurrences (v.ngrams text) i = 0) : (v.amount text i).isFinite = true := by
  unfold amount
  rw [h]
  exact (Number.within_zero_mul (s := .positive) rfl (hv.isFinite_weight i) 0).isFinite

/-- Every feature is what its weighted count admits. -/
theorem Made.admits (hv : v.Made) (text : String) (hi : i < v.size) :
    Admits (v.amount text i) ((v.accumulated text).getD i 0) := by
  have hnumbers := hv.weightedSums_numbers text
  rw [Array.getD_eq_getD_getElem?]
  by_cases hocc : v.occurrences (v.ngrams text) i = 0
  · rw [accumulated_of_uncounted hi hocc, Admits, if_pos (hv.isFinite_amount_of_uncounted hocc)]
    decide
  · rw [getElem?_accumulated hi hocc, Option.getD_some]
    have hmem : v.amount text i ∈ (v.weightedSums text).map Prod.snd :=
      List.mem_map.2 ⟨(i, _), mem_weightedSums.2 ⟨hocc, rfl⟩, rfl⟩
    unfold Admits
    rcases hv.amount_cases text i with hfinite | ⟨s, hs⟩
    · rw [if_pos hfinite]
      split
      · rename_i hpos
        exact Number.isFinite_narrow
          ((Number.within_div_lengthOf hnumbers hpos hmem hfinite).mono (by norm_num))
      · decide
    · obtain ⟨hpos, hquotient⟩ : 0 < v.textLength text ∧
          partsOfDouble (v.amount text i / v.textLength text) = .notANumber :=
        Number.div_lengthOf_of_infinity hnumbers hmem hs
      have hinfinite : ¬(v.amount text i).isFinite = true := by
        show ¬(partsOfDouble (v.amount text i)).isFinite = true
        rw [hs]
        exact Bool.false_ne_true
      rw [if_neg hinfinite, if_pos hpos]
      exact Number.isNaN_narrow hquotient

/-- A feature whose weighted count is finite is finite. -/
theorem Admits.isFinite {a : Float} {x : Float32} (h : Admits a x) (ha : a.isFinite = true) :
    x.isFinite = true := by
  unfold Admits at h
  rwa [if_pos ha] at h

/-- No weighted count is too large if no weight is. -/
theorem isFinite_amount (h : ∀ w ∈ v.weights, Within 969 w) (text : String) (i : Nat) :
    (v.amount text i).isFinite = true :=
  have hweight : Within 969 (v.weights.getD i 0) :=
    Number.getD_of_all h (Number.within_zero 969) i
  ((within_countedUp _).mul hweight).isFinite

theorem size_accumulated (v : Vectorizer) (text : String) : (v.accumulated text).size = v.size :=
  size_placed v.size _

/-- So all features are finite then. -/
theorem Made.isFinite_accumulated (hv : v.Made) (h : ∀ w ∈ v.weights, Within 969 w)
    (text : String) : ∀ x ∈ v.accumulated text, x.isFinite = true := by
  intro x hx
  obtain ⟨i, hi, rfl⟩ := Array.mem_iff_getElem.1 hx
  have hfeature := (hv.admits text (size_accumulated v text ▸ hi)).isFinite
    (isFinite_amount h text i)
  rwa [← Array.getElem_eq_getD] at hfeature

/-! ## Fitted vectorizers -/

/-- The weights of a fitted vectorizer are far from the range of the doubles. -/
theorem within_weights_of_fit {settings : VectorizerSettings} {documents : List String}
    (hsize : documents.length < UInt64.size) (h : checkedFit settings documents = .ok v) :
    ∀ w ∈ v.weights, Within 101 w := by
  have hfit : fit settings documents = .ok v := by
    unfold checkedFit at h
    split at h
    · cases h
    · exact h
  have hne : documents ≠ [] := by
    rintro rfl
    cases hfit
  have hgrams : documents.flatMap (gramsOf settings.ngrams) ≠ [] := by
    intro hnone
    rw [fit_of_no_ngram hne hnone] at hfit
    cases hfit
  obtain ⟨u, hu, hfitted⟩ := fit_ok hsize hgrams
  obtain rfl : u = v := Except.ok.inj (hu.symm.trans hfit)
  intro w hw
  rw [hfitted.weights] at hw
  obtain ⟨t, -, rfl⟩ := Array.mem_map.1 hw
  exact within_smoothedWeight hsize (List.countP_le_length.trans_lt hsize)

/-! ## Main statement -/

/-- Features are finite where the weighted counts are. A feature is no number just if the weighted
count of its term is too large for a double, and none is infinite; that holds where occurrences are
added up in doubles, and where they are counted, for texts of fewer than `2^53` n-grams. If no weight
is above `2^969`, all features of all texts are finite. So they are if the vectorizer was fitted. -/
theorem features_finite (hv : v.Produced) :
    (∀ text i (hi : i < v.size),
      Admits (countedUp ((v.ngrams text).count v.terms[i]) * v.weights.getD i 0)
        ((v.accumulated text).getD i 0)) ∧
    (∀ text, (v.ngrams text).length < 2 ^ 53 → ∀ i (hi : i < v.size),
      Admits (v.weighted i ((v.ngrams text).count v.terms[i])) ((v.transform text).getD i 0)) ∧
    ((∀ w ∈ v.weights, Within 969 w) → ∀ text, (∀ x ∈ v.accumulated text, x.isFinite = true) ∧
      ((v.ngrams text).length < 2 ^ 53 → ∀ x ∈ v.transform text, x.isFinite = true)) ∧
    ∀ settings documents, documents.length < UInt64.size →
      checkedFit settings documents = .ok v → ∀ text,
        (∀ x ∈ v.accumulated text, x.isFinite = true) ∧
          ((v.ngrams text).length < 2 ^ 53 → ∀ x ∈ v.transform text, x.isFinite = true) := by
  obtain ⟨hmade, -⟩ := hv.made
  have hadmits (text : String) (i : Nat) (hi : i < v.size) :
      Admits (countedUp ((v.ngrams text).count v.terms[i]) * v.weights.getD i 0)
        ((v.accumulated text).getD i 0) := by
    rw [← hmade.occurrences_eq hi]
    exact hmade.admits text hi
  have hall (h : ∀ w ∈ v.weights, Within 969 w) (text : String) :
      (∀ x ∈ v.accumulated text, x.isFinite = true) ∧
        ((v.ngrams text).length < 2 ^ 53 → ∀ x ∈ v.transform text, x.isFinite = true) :=
    ⟨hmade.isFinite_accumulated h text, fun hlen =>
      hmade.accumulated_eq_transform hlen ▸ hmade.isFinite_accumulated h text⟩
  refine ⟨hadmits, fun text hlen i hi => ?_, hall, fun settings documents hsize hfit => ?_⟩
  · have hcount : countedUp ((v.ngrams text).count v.terms[i]) = _ :=
      countedUp_eq (List.count_le_length.trans_lt hlen)
    have hfeature := hadmits text i hi
    rwa [hcount, hmade.accumulated_eq_transform hlen] at hfeature
  · exact hall fun w hw => (within_weights_of_fit hsize hfit w hw).mono (by norm_num)

/-- A vectorizer fitted to one document. -/
theorem features_finite_fitted : ∃ v, checkedFit oneTerm ["a a"] = .ok v ∧ v.Produced ∧
    ["a a"].length < UInt64.size ∧ (∀ x ∈ v.transform "b a", x.isFinite = true) ∧
      ∀ i (hi : i < v.size), Admits (v.weighted i ((v.ngrams "b a").count v.terms[i]))
        ((v.transform "b a").getD i 0) := by
  have hsize : ["a a"].length < UInt64.size := by decide
  have hgrams : ["a a"].flatMap (gramsOf oneTerm.ngrams) ≠ [] := by decide +kernel
  obtain ⟨v, hv, hfitted⟩ := fit_ok hsize hgrams
  have hwords : oneTerm.InWords := by constructor <;> decide
  have hchecked : checkedFit oneTerm ["a a"] = .ok v := hv
  have hproduced : v.Produced := .fitted hwords hchecked
  have hlen : (v.ngrams "b a").length < 2 ^ 53 := by
    unfold ngrams
    rw [hfitted.given]
    decide +kernel
  obtain ⟨-, hadmits, -, hfit⟩ := features_finite hproduced
  exact ⟨v, hv, hproduced, hsize, (hfit oneTerm ["a a"] hsize hv "b a").2 hlen,
    hadmits "b a" hlen⟩

/-- A vectorizer with one term, whose weight is the largest double. -/
def heaviest : Vectorizer :=
  ⟨⟨8000, .upToThree⟩, #["a"], #[Float.ofBits 0x7fefffffffffffff],
    (∅ : Std.TreeMap String Nat).insert "a" 0⟩

/-- It is accepted, since the weight is finite; but twice the weight is not, and a text in which the
term occurs twice has a feature that is no number. -/
theorem overflow_unchecked :
    ofParts heaviest.settings heaviest.terms heaviest.weights = .ok heaviest ∧
      heaviest.Produced ∧ (∀ w ∈ heaviest.weights, w.isFinite = true) ∧
      (heaviest.ngrams "a a").count "a" = 2 ∧
      heaviest.transform "a a" = #[0 / 0] ∧ heaviest.accumulated "a a" = #[0 / 0] ∧
      (0 / 0 : Float32).isFinite = false := by
  have hparts : ofParts heaviest.settings heaviest.terms heaviest.weights = .ok heaviest := rfl
  have hwords : heaviest.settings.InWords := by constructor <;> decide
  refine ⟨hparts, .assembled hwords hparts, by decide +kernel, by decide +kernel,
    by decide +kernel, by decide +kernel, by decide⟩

end Triage.Vectorizer
