/-
What a vectorizer sees of a text: how often each term occurs among its n-grams, and nothing else. The
counts that a vector is made of are those numbers, index by index; and the n-grams that are terms are
up to their order the terms, each as often as it occurs. So texts in which every term occurs equally
often are the same to a vectorizer. That holds too where counts are doubles that grow by one with each
n-gram: what is added up is gone through by index, and up to `2^53` adding one is exact.
-/
import Triage.Proofs.Number.Value
import Triage.Proofs.Vectorizer.Acceptance

namespace Triage.Vectorizer

open Std (TreeMap TreeSet LawfulEqCmp)

variable {v : Vectorizer} {a b text : String} {ngrams : List String} {i : Nat}

/-! ## Counting by index -/

/-- How many n-grams of a list have an index. -/
def occurrences (v : Vectorizer) (ngrams : List String) (i : Nat) : Nat :=
  ngrams.countP fun g => v.index? g = some i

theorem occurrences_cons (g : String) :
    v.occurrences (g :: ngrams) i =
      v.occurrences ngrams i + if v.index? g = some i then 1 else 0 := by
  simp [occurrences, List.countP_cons]

/-- The n-grams of an index are the occurrences of its term. -/
theorem Made.occurrences_eq (h : v.Made) (hi : i < v.size) :
    v.occurrences ngrams i = ngrams.count v.terms[i] := by
  unfold occurrences List.count
  refine List.countP_congr fun g _ => ?_
  rw [decide_eq_true_eq, beq_iff_eq, h.index?_eq_some]
  exact ⟨fun ⟨_, hg⟩ => hg.symm, fun hg => ⟨hi, hg.symm⟩⟩

theorem Made.occurrences_eq_zero (h : v.Made) (hi : v.size ≤ i) : v.occurrences ngrams i = 0 := by
  unfold occurrences
  rw [List.countP_eq_zero]
  intro g _ hg
  obtain ⟨hlt, -⟩ := h.index?_eq_some.1 (of_decide_eq_true hg)
  omega

theorem getElem?_foldl_countTerm (counts : Array Nat) :
    (ngrams.foldl v.countTerm counts)[i]? = counts[i]?.map (· + v.occurrences ngrams i) := by
  induction ngrams generalizing counts with
  | nil => simp [occurrences]
  | cons g rest ih =>
    have hstep : (v.countTerm counts g)[i]? =
        counts[i]?.map (· + if v.index? g = some i then 1 else 0) := by
      unfold countTerm
      split
      · rename_i j hj
        simp only [Array.getElem?_modify, hj, Option.some_inj]
        split <;> simp
      · rename_i hnone
        simp [hnone]
    rw [List.foldl_cons, ih, hstep, Option.map_map, occurrences_cons]
    congr 1
    funext n
    simp only [Function.comp_apply]
    omega

theorem getElem?_counts :
    (v.counts text)[i]? = if i < v.size then some (v.occurrences (v.ngrams text) i) else none := by
  unfold counts
  rw [getElem?_foldl_countTerm, Array.getElem?_replicate]
  split <;> simp

/-! ## Bags of terms -/

/-- Whether every term occurs equally often in two texts. -/
def SameTerms (v : Vectorizer) (a b : String) : Prop :=
  ∀ term ∈ v.terms, (v.ngrams a).count term = (v.ngrams b).count term

theorem SameTerms.occurrences_eq (h : v.SameTerms a b) (hv : v.Made) (i : Nat) :
    v.occurrences (v.ngrams a) i = v.occurrences (v.ngrams b) i := by
  by_cases hi : i < v.size
  · rw [hv.occurrences_eq hi, hv.occurrences_eq hi]
    exact h _ (Array.getElem_mem hi)
  · rw [hv.occurrences_eq_zero (Nat.le_of_not_lt hi), hv.occurrences_eq_zero (Nat.le_of_not_lt hi)]

theorem SameTerms.counts_eq (h : v.SameTerms a b) (hv : v.Made) : v.counts a = v.counts b := by
  refine Array.ext_getElem? fun i => ?_
  rw [getElem?_counts, getElem?_counts, h.occurrences_eq hv]

/-- It is the n-grams that are terms that are then the same, up to their order. -/
theorem Made.sameTerms_iff_perm (hv : v.Made) :
    v.SameTerms a b ↔ ((v.ngrams a).filter v.isTerm).Perm ((v.ngrams b).filter v.isTerm) := by
  rw [List.perm_iff_count]
  constructor
  · intro h g
    by_cases hg : v.isTerm g = true
    · rw [List.count_filter hg, List.count_filter hg]
      exact h g (hv.isTerm_iff.1 hg)
    · rw [List.count_eq_zero_of_not_mem fun hmem => hg (List.mem_filter.1 hmem).2,
        List.count_eq_zero_of_not_mem fun hmem => hg (List.mem_filter.1 hmem).2]
  · intro h term hterm
    have hterm : v.isTerm term = true := hv.isTerm_iff.2 hterm
    have := h term
    rwa [List.count_filter hterm, List.count_filter hterm] at this

theorem mem_foldl_insert (set : TreeSet String) {g : String} :
    g ∈ ngrams.foldl TreeSet.insert set ↔ g ∈ ngrams ∨ g ∈ set := by
  induction ngrams generalizing set with
  | nil => simp
  | cons k rest ih =>
    rw [List.foldl_cons, ih, TreeSet.mem_insert, LawfulEqCmp.compare_eq_iff_eq, List.mem_cons]
    tauto

theorem SameTerms.known_eq (h : v.SameTerms a b) (hv : v.Made) : v.known a = v.known b := by
  refine TreeSet.Equiv.toList_eq (TreeSet.equiv_iff_forall_mem_iff.2 fun g => ?_)
  rw [mem_foldl_insert, mem_foldl_insert, (hv.sameTerms_iff_perm.1 h).mem_iff]

/-! ## Counting in doubles -/

/-- A number as it is reached from zero by adding one. -/
def countedUp : Nat → Float
  | 0 => 0
  | n + 1 => countedUp n + 1

/-- Up to `2^53` numbers are reached. -/
theorem countedUp_eq {n : Nat} (hn : n < 2 ^ 53) : countedUp n = Float.ofNat n := by
  induction n with
  | zero => rfl
  | succ n ih => rw [countedUp, ih (by omega), Number.ofNat_add_one hn]

/-- One is added to the sum of an n-gram's index. -/
def addOne (v : Vectorizer) (sums : TreeMap Nat Float) (ngram : String) : TreeMap Nat Float :=
  match v.index? ngram with
  | some i => sums.insert i (sums.getD i 0 + 1)
  | none => sums

/-- The sums of the indices that occur in a text, added up while its n-grams are gone through. -/
def sums (v : Vectorizer) (text : String) : TreeMap Nat Float :=
  (v.ngrams text).foldl v.addOne ∅

/-- What is put down for an index that occurs a number of times. -/
def put (n : Nat) : Option Float :=
  if n = 0 then none else some (countedUp n)

theorem getElem?_addOne {sums : TreeMap Nat Float} {n : Nat} (h : sums[i]? = put n) (g : String) :
    (v.addOne sums g)[i]? = put (n + if v.index? g = some i then 1 else 0) := by
  unfold addOne
  split
  · rename_i j hj
    simp only [hj, Option.some_inj]
    rcases eq_or_ne j i with rfl | hji
    · rw [TreeMap.getElem?_insert_self, if_pos rfl, TreeMap.getD_eq_getD_getElem?, h]
      unfold put
      rw [if_neg (Nat.succ_ne_zero n)]
      split
      · rename_i hzero
        rw [hzero]
        rfl
      · rfl
    · rw [TreeMap.getElem?_insert, if_neg (mt LawfulEqCmp.eq_of_compare hji), if_neg hji, h,
        Nat.add_zero]
  · rename_i hnone
    simp only [hnone, reduceCtorEq, if_false, h, Nat.add_zero]

theorem getElem?_foldl_addOne {sums : TreeMap Nat Float} {n : Nat} (h : sums[i]? = put n) :
    (ngrams.foldl v.addOne sums)[i]? = put (n + v.occurrences ngrams i) := by
  induction ngrams generalizing sums n with
  | nil => simpa [occurrences] using h
  | cons g rest ih =>
    rw [List.foldl_cons, ih (getElem?_addOne h g), occurrences_cons]
    congr 1
    omega

theorem getElem?_sums : (v.sums text)[i]? = put (v.occurrences (v.ngrams text) i) := by
  unfold sums
  rw [getElem?_foldl_addOne (n := 0) (by simp [put]), Nat.zero_add]

/-- The sums of a text, weighted, by index. -/
def weightedSums (v : Vectorizer) (text : String) : List (Nat × Float) :=
  (v.sums text).toList.map fun c => (c.1, c.2 * v.weights.getD c.1 0)

/-- A vector with entries at their places and zero elsewhere. -/
def placed (width : Nat) (entries : List (Nat × Float32)) : Singles :=
  entries.foldl (fun xs e => xs.setIfInBounds e.1 e.2) (Array.replicate width 0)

/-- The vector of a text from its sums: all are divided by the length that they have together. -/
def accumulated (v : Vectorizer) (text : String) : Singles :=
  let norm := Float.sqrt ((v.weightedSums text).foldl (fun sum c => sum + c.2 * c.2) 0)
  placed v.size
    (if 0 < norm then (v.weightedSums text).map fun c => (c.1, Number.narrow (c.2 / norm)) else [])

theorem SameTerms.accumulated_eq (h : v.SameTerms a b) (hv : v.Made) :
    v.accumulated a = v.accumulated b := by
  have hsums : (v.sums a).Equiv (v.sums b) := TreeMap.Equiv.of_forall_constGet?_eq fun i => by
    rw [getElem?_sums, getElem?_sums, h.occurrences_eq hv]
  unfold accumulated weightedSums
  rw [hsums.toList_eq]

/-! ## Sums and counts -/

/-- The indices that occur in a text with their counts, in ascending order. -/
def present (v : Vectorizer) (text : String) : List (Nat × Nat) :=
  (v.counts text).toList.zipIdx.filter fun c => c.1 ≠ 0

theorem mem_present {n : Nat} :
    (n, i) ∈ v.present text ↔ i < v.size ∧ n ≠ 0 ∧ v.occurrences (v.ngrams text) i = n := by
  unfold present
  rw [List.mem_filter, List.mem_zipIdx_iff_getElem?, Array.getElem?_toList, getElem?_counts]
  split <;> simp [*, and_comm]

theorem pairwise_present (v : Vectorizer) (text : String) :
    (v.present text).Pairwise fun c d => c.2 < d.2 := by
  refine List.Pairwise.filter _ (List.pairwise_map.1 ?_)
  rw [List.zipIdx_map_snd]
  exact List.pairwise_lt_range'

/-- In a text of fewer than `2^53` n-grams the sums are the counts. -/
theorem Made.toList_sums (hv : v.Made) (hlen : (v.ngrams text).length < 2 ^ 53) :
    (v.sums text).toList = (v.present text).map fun c => (c.2, Float.ofNat c.1) := by
  have hcounted (i : Nat) : countedUp (v.occurrences (v.ngrams text) i) =
      Float.ofNat (v.occurrences (v.ngrams text) i) :=
    countedUp_eq (Nat.lt_of_le_of_lt List.countP_le_length hlen)
  have hleft : (v.sums text).toList.Pairwise fun c d => c.1 < d.1 :=
    TreeMap.ordered_keys_toList.imp Nat.compare_eq_lt.1
  have hright : ((v.present text).map fun c => (c.2, Float.ofNat c.1)).Pairwise
      fun c d => c.1 < d.1 := List.pairwise_map.2 (pairwise_present v text)
  have hnodup {l : List (Nat × Float)} (h : l.Pairwise fun c d => c.1 < d.1) : l.Nodup :=
    h.imp fun {c d} hlt heq => by rw [heq] at hlt; exact lt_irrefl _ hlt
  refine List.Perm.eq_of_pairwise (fun c d _ _ hcd hdc => absurd hcd (Nat.lt_asymm hdc)) hleft hright
    ((List.perm_ext_iff_of_nodup (hnodup hleft) (hnodup hright)).2 ?_)
  rintro ⟨i, x⟩
  rw [TreeMap.mem_toList_iff_getElem?_eq_some, getElem?_sums, put, List.mem_map]
  constructor
  · intro h
    split at h
    · cases h
    · rename_i hocc
      have hi : i < v.size := by
        by_contra hge
        exact hocc (hv.occurrences_eq_zero (Nat.le_of_not_lt hge))
      cases h
      exact ⟨(_, i), mem_present.2 ⟨hi, hocc, rfl⟩, by rw [hcounted]⟩
  · rintro ⟨⟨n, j⟩, hc, heq⟩
    obtain ⟨-, hne, rfl⟩ := mem_present.1 hc
    cases heq
    rw [if_neg hne, hcounted]

/-! ## Vectors put together -/

section

variable {entries : List (Nat × Float32)} {xs : Singles}

theorem getElem?_foldl_set_of_not_mem (h : i ∉ entries.map Prod.fst) :
    (entries.foldl (fun xs e => xs.setIfInBounds e.1 e.2) xs)[i]? = xs[i]? := by
  induction entries generalizing xs with
  | nil => rfl
  | cons e rest ih =>
    rw [List.map_cons, List.mem_cons, not_or] at h
    rw [List.foldl_cons, ih h.2, Array.getElem?_setIfInBounds_ne (Ne.symm h.1)]

theorem getElem?_foldl_set_of_mem {x : Float32} (hn : (entries.map Prod.fst).Nodup)
    (h : (i, x) ∈ entries) (hi : i < xs.size) :
    (entries.foldl (fun xs e => xs.setIfInBounds e.1 e.2) xs)[i]? = some x := by
  induction entries generalizing xs with
  | nil => cases h
  | cons e rest ih =>
    rw [List.map_cons, List.nodup_cons] at hn
    rw [List.foldl_cons]
    rcases List.mem_cons.1 h with rfl | h
    · rw [getElem?_foldl_set_of_not_mem hn.1, Array.getElem?_setIfInBounds_self_of_lt hi]
    · exact ih hn.2 h (by rwa [Array.size_setIfInBounds])

theorem getElem?_placed_of_not_mem {width : Nat} (h : i ∉ entries.map Prod.fst) :
    (placed width entries)[i]? = if i < width then some 0 else none := by
  unfold placed
  rw [getElem?_foldl_set_of_not_mem h, Array.getElem?_replicate]

theorem getElem?_placed_of_mem {width : Nat} {x : Float32} (hn : (entries.map Prod.fst).Nodup)
    (h : (i, x) ∈ entries) (hi : i < width) : (placed width entries)[i]? = some x :=
  getElem?_foldl_set_of_mem hn h (by rwa [Array.size_replicate])

end

/-- In a text of fewer than `2^53` n-grams the weighted sums are the weighted counts. -/
theorem Made.weightedSums_eq (hv : v.Made) (hlen : (v.ngrams text).length < 2 ^ 53) :
    v.weightedSums text = (v.present text).map fun c => (c.2, v.weighted c.2 c.1) := by
  unfold weightedSums
  rw [hv.toList_sums hlen, List.map_map]
  rfl

theorem norm_counts : v.norm (v.counts text) = Float.sqrt ((v.present text).foldl
    (fun sum c => sum + v.weighted c.2 c.1 * v.weighted c.2 c.1) 0) := by
  unfold norm present
  rw [List.foldl_filter]
  congr 2
  funext sum c
  by_cases hc : c.1 = 0 <;> simp [hc]

/-- What adding up gives is then the vector of the text. -/
theorem Made.accumulated_eq_transform (hv : v.Made) (hlen : (v.ngrams text).length < 2 ^ 53) :
    v.accumulated text = v.transform text := by
  unfold accumulated transform
  simp only [hv.weightedSums_eq hlen, List.foldl_map, ← norm_counts]
  generalize v.norm (v.counts text) = norm
  refine Array.ext_getElem? fun i => ?_
  rw [Array.getElem?_mapIdx, getElem?_counts]
  split
  · rename_i hpos
    by_cases h : i < v.size ∧ v.occurrences (v.ngrams text) i ≠ 0
    · rw [getElem?_placed_of_mem ?nodup ?mem h.1, if_pos h.1, Option.map_some, if_pos ⟨h.2, hpos⟩]
      case nodup =>
        rw [List.map_map, List.map_map]
        exact List.pairwise_map.2 ((pairwise_present v text).imp Nat.ne_of_lt)
      case mem =>
        rw [List.map_map]
        exact List.mem_map.2 ⟨(_, i), mem_present.2 ⟨h.1, h.2, rfl⟩, rfl⟩
    · rw [getElem?_placed_of_not_mem ?absent]
      case absent =>
        intro hmem
        rw [List.map_map, List.map_map] at hmem
        obtain ⟨⟨n, j⟩, hc, rfl⟩ := List.mem_map.1 hmem
        obtain ⟨hj, hn, rfl⟩ := mem_present.1 hc
        exact h ⟨hj, hn⟩
      split
      · rename_i hi
        rw [Option.map_some, if_neg fun hn => h ⟨hi, hn.1⟩]
      · rfl
  · rename_i hpos
    rw [getElem?_placed_of_not_mem List.not_mem_nil]
    split
    · rw [Option.map_some, if_neg fun hn => hpos hn.2]
    · rfl

/-! ## Main statement -/

/-- Texts in which every term of a vocabulary occurs equally often have the same vector, as many
n-grams that are terms, and the same terms among them. Such are texts with the same terms among
their n-grams, whatever else is there and in whatever order; and texts with the same tokens, whatever
separates those. It makes no difference to the vectors whether the occurrences are counted or added
up in doubles; for texts of fewer than `2^53` n-grams that comes to the same. -/
theorem views_of_sameTerms (hv : v.Produced) :
    (∀ a b, v.SameTerms a b →
      v.transform a = v.transform b ∧ v.matched a = v.matched b ∧ v.known a = v.known b ∧
        v.accumulated a = v.accumulated b) ∧
    (∀ a b, v.SameTerms a b ↔
      ((v.ngrams a).filter v.isTerm).Perm ((v.ngrams b).filter v.isTerm)) ∧
    (∀ a b, Text.tokenize a = Text.tokenize b → v.SameTerms a b) ∧
    ∀ text, (v.ngrams text).length < 2 ^ 53 → v.accumulated text = v.transform text := by
  obtain ⟨hmade, -⟩ := hv.made
  refine ⟨fun a b h => ⟨?transform, ?matched, h.known_eq hmade, h.accumulated_eq hmade⟩,
    fun a b => hmade.sameTerms_iff_perm, fun a b h term _ => ?tokens,
    fun text => hmade.accumulated_eq_transform⟩
  case transform =>
    unfold transform
    rw [h.counts_eq hmade]
  case matched =>
    unfold matched
    rw [List.countP_eq_length_filter, List.countP_eq_length_filter]
    exact (hmade.sameTerms_iff_perm.1 h).length_eq
  case tokens =>
    unfold ngrams
    rw [h]

/-- Texts with the words of two terms in another order, other separators and other words. -/
theorem views_of_sameTerms_twoTerms : Produced twoTerms ∧
    twoTerms.SameTerms "VX-8, gratis; gratis" "gratis heute VX 8 gratis" ∧
    twoTerms.transform "VX-8, gratis; gratis" = twoTerms.transform "gratis heute VX 8 gratis" := by
  have hwords : twoTerms.settings.InWords := by constructor <;> decide
  have hown : ofParts twoTerms.settings twoTerms.terms twoTerms.weights = .ok twoTerms := rfl
  have hproduced : Produced twoTerms := .assembled hwords hown
  have hsame : twoTerms.SameTerms "VX-8, gratis; gratis" "gratis heute VX 8 gratis" := by
    intro term hterm
    obtain rfl | rfl : term = "gratis" ∨ term = "vx 8" := by simpa [twoTerms] using hterm
    all_goals decide +kernel
  exact ⟨hproduced, hsame, ((views_of_sameTerms hproduced).1 _ _ hsame).1⟩

end Triage.Vectorizer
