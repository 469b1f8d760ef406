/-
A split is a partition of the rows that trains on every class. The rows of each class are shuffled
and dealt to the two parts; a class is asked for fewer test rows than it has, so the rest that is
left for training is never empty, and since the classes together are all rows, no row is lost and
none is in both parts (`stratified_partition`). Items that are selected by a split therefore come
row by row, each of them once.
-/
import Triage.Proofs.Random.Draw
import Triage.Proofs.Split.Classes

namespace Triage.Split

variable {labels : List Nat} {fraction : Float} {seed : UInt64} {split : Split} {n row : Nat}

/-! ## When there is a split -/

/-- The number of test rows of each class. -/
def classTests (labels : List Nat) (fraction : Float) : List (Nat × Nat) :=
  testCounts ((classLabels labels).map fun l =>
    shareOf labels.length (testSize labels.length fraction) l (labels.count l))
    (testSize labels.length fraction)

/-- Whether labels can be split: there are some, every class has two rows, and both parts have room
for all classes. -/
structure Splittable (labels : List Nat) (fraction : Float) : Prop where
  rows : labels ≠ []
  proper : isProper fraction = true
  pairs : ∀ l ∈ labels, 2 ≤ labels.count l
  testRoom : (classLabels labels).length ≤ testSize labels.length fraction
  trainRoom : (classLabels labels).length ≤ labels.length - testSize labels.length fraction

theorem find?_small (labels : List Nat) :
    (((classLabels labels).map fun l => (l, labels.count l)).find? (·.2 < 2)) = none ↔
      ∀ l ∈ labels, 2 ≤ labels.count l := by
  rw [List.find?_eq_none]
  constructor
  · intro h l hl
    have hlarge := h (l, labels.count l) (List.mem_map.2 ⟨l, mem_classLabels.2 hl, rfl⟩)
    rw [decide_eq_true_eq] at hlarge
    omega
  · rintro h q hq
    obtain ⟨l, hl, rfl⟩ := List.mem_map.1 hq
    have hlarge := h l (mem_classLabels.1 hl)
    rw [decide_eq_true_eq]
    omega

/-- Labels that can be split are split by what is drawn, and no others are. -/
theorem stratified_eq_ok : stratified labels fraction seed = .ok split ↔
    Splittable labels fraction ∧ split = ofDrawn labels.length
      (draw labels (classTests labels fraction) (Random.Source.ofSeed seed)) := by
  unfold stratified classTests
  constructor
  · intro h
    simp only [List.length_map, List.map_map] at h
    split at h
    · cases h
    · rename_i hrows
      split at h
      · cases h
      · rename_i hproper
        split at h
        · cases h
        · rename_i hsmall
          split at h
          · cases h
          · rename_i hroom
            cases h
            simp only [Bool.or_eq_true, decide_eq_true_eq] at hroom
            refine ⟨⟨?_, ?_, (find?_small labels).1 hsmall, ?_, ?_⟩, rfl⟩
            · simpa using hrows
            · simpa using hproper
            · omega
            · omega
  · rintro ⟨⟨hrows, hproper, hpairs, htest, htrain⟩, rfl⟩
    have hroom : ¬(testSize labels.length fraction < (classLabels labels).length ∨
        labels.length - testSize labels.length fraction < (classLabels labels).length) := by
      omega
    rw [if_neg (by simpa using hrows), if_neg (by simp [hproper])]
    simp only [(find?_small labels).2 hpairs, List.length_map, List.map_map, Bool.or_eq_true,
      decide_eq_true_eq]
    rw [if_neg hroom]
    rfl

theorem classTests_labels (labels : List Nat) (fraction : Float) :
    (classTests labels fraction).map Prod.fst = classLabels labels := by
  simp [classTests, testCounts, shareOf, Function.comp_def]

/-- A class is never asked for all of its rows. -/
theorem Splittable.lt_count (h : Splittable labels fraction) :
    ∀ q ∈ classTests labels fraction, q.2 < labels.count q.1 := by
  intro q hq
  unfold classTests testCounts at hq
  rw [List.map_map] at hq
  obtain ⟨l, hl, rfl⟩ := List.mem_map.1 hq
  have hpair := h.pairs l (mem_classLabels.1 hl)
  show min _ (labels.count l - 1) < labels.count l
  omega

/-! ## Dealing -/

/-- The test and the training rows of classes with the given numbers of test rows, class after
class: the first of the shuffled rows and the others. There are none if more are asked for than a
class has. -/
def deal? (labels : List Nat) : List (Nat × Nat) → Random.Source → Option (List Nat × List Nat)
  | [], _ => some ([], [])
  | (label, k) :: rest, s =>
    let (rows, s) := Random.shuffle (members labels label).toArray s
    if rows.size < k then none
    else (deal? labels rest s).map fun (test, train) =>
      (rows.toList.take k ++ test, rows.toList.drop k ++ train)

/-- Classes that are not asked for all of their rows are dealt: the test rows are those that are
drawn, each row of the classes is dealt once, and of every class one is left for training. -/
theorem deal?_spec {counts : List (Nat × Nat)} (h : ∀ q ∈ counts, q.2 < labels.count q.1)
    (s : Random.Source) : ∃ train, deal? labels counts s = some (draw labels counts s, train) ∧
      (draw labels counts s ++ train).Perm (counts.flatMap fun q => members labels q.1) ∧
      ∀ q ∈ counts, ∃ row ∈ train, labels[row]? = some q.1 := by
  induction counts generalizing s with
  | nil => exact ⟨[], rfl, .refl _, by simp⟩
  | cons q rest ih =>
    obtain ⟨label, k⟩ := q
    obtain ⟨hk, hrest⟩ := List.forall_mem_cons.1 h
    have hperm := Random.shuffle_toArray_perm (members labels label) s
    have hsize : (Random.shuffle (members labels label).toArray s).1.size = labels.count label := by
      rw [← length_members, ← hperm.length_eq, Array.length_toList]
    simp only [deal?, draw]
    generalize Random.shuffle (members labels label).toArray s = shuffled at hperm hsize ⊢
    obtain ⟨rows, s⟩ := shuffled
    obtain ⟨train, hdeal, hall, hleft⟩ := ih hrest s
    simp only at hperm hsize hk ⊢
    refine ⟨rows.toList.drop k ++ train, ?_, ?_, ?_⟩
    · rw [if_neg (by omega), hdeal]
      rfl
    · -- The two ends of the shuffled rows come together again in front of the other classes.
      rw [List.flatMap_cons]
      calc (rows.toList.take k ++ draw labels rest s) ++ (rows.toList.drop k ++ train)
          _ = rows.toList.take k ++ ((draw labels rest s ++ rows.toList.drop k) ++ train) := by
            simp only [List.append_assoc]
          List.Perm _
            (rows.toList.take k ++ ((rows.toList.drop k ++ draw labels rest s) ++ train)) :=
            (List.perm_append_comm.append_right train).append_left _
          _ = (rows.toList.take k ++ rows.toList.drop k) ++ (draw labels rest s ++ train) := by
            simp only [List.append_assoc]
          _ = rows.toList ++ (draw labels rest s ++ train) := by rw [List.take_append_drop]
          List.Perm _ _ := hperm.append hall
    · refine List.forall_mem_cons.2 ⟨?_, ?_⟩
      · have hlt : k < rows.toList.length := by
          rw [Array.length_toList]
          omega
        refine ⟨rows.toList[k], List.mem_append_left _ ?_, mem_members.1 ?_⟩
        · rw [List.drop_eq_getElem_cons hlt]
          exact List.mem_cons_self
        · exact hperm.mem_iff.1 (List.getElem_mem hlt)
      · intro q hq
        obtain ⟨row, hrow, hlabel⟩ := hleft q hq
        exact ⟨row, List.mem_append_right _ hrow, hlabel⟩

/-- The classes of labels that can be split are dealt, and all rows with them. -/
theorem Splittable.deal? (h : Splittable labels fraction) (s : Random.Source) :
    ∃ train, deal? labels (classTests labels fraction) s =
        some (draw labels (classTests labels fraction) s, train) ∧
      (draw labels (classTests labels fraction) s ++ train).Perm (List.range labels.length) ∧
      ∀ label ∈ labels, ∃ row ∈ train, labels[row]? = some label := by
  obtain ⟨train, hdeal, hall, hleft⟩ := deal?_spec h.lt_count s
  refine ⟨train, hdeal, hall.trans ?_, ?_⟩
  · rw [← List.flatMap_map Prod.fst (members labels), classTests_labels]
    exact members_perm labels
  · intro label hlabel
    have hclass : label ∈ (classTests labels fraction).map Prod.fst := by
      rw [classTests_labels]
      exact mem_classLabels.2 hlabel
    obtain ⟨q, hq, rfl⟩ := List.mem_map.1 hclass
    exact hleft q hq

/-! ## Marking -/

theorem getD_foldl_mark (drawn : List Nat) (marks : Array Bool) (row : Nat) :
    (drawn.foldl (fun m row => m.setIfInBounds row true) marks).getD row false = true ↔
      (row < marks.size ∧ row ∈ drawn) ∨ marks.getD row false = true := by
  induction drawn generalizing marks with
  | nil => simp
  | cons r rest ih =>
    rw [List.foldl_cons, ih, Array.size_setIfInBounds, List.mem_cons]
    simp only [Array.getD_eq_getD_getElem?, Array.getElem?_setIfInBounds]
    by_cases hr : r = row
    · subst hr
      by_cases hlt : r < marks.size
      · simp [hlt]
      · simp [hlt]
    · have hne : row ≠ r := fun e => hr e.symm
      simp [hr, hne]

theorem getD_marks (drawn : List Nat) (n row : Nat) :
    (drawn.foldl (fun m row => m.setIfInBounds row true) (Array.replicate n false)).getD row false =
      true ↔ row < n ∧ row ∈ drawn := by
  rw [getD_foldl_mark, Array.size_replicate]
  constructor
  · rintro (h | h)
    · exact h
    · by_cases hlt : row < n <;> simp [Array.getD_eq_getD_getElem?, hlt] at h
  · exact .inl

theorem mem_test_ofDrawn {drawn : List Nat} :
    row ∈ (ofDrawn n drawn).test ↔ row < n ∧ row ∈ drawn := by
  unfold ofDrawn
  simp only [List.mem_filter, List.mem_range, getD_marks]
  constructor
  · rintro ⟨-, h⟩
    exact h
  · intro h
    exact ⟨h.1, h⟩

theorem mem_train_ofDrawn {drawn : List Nat} :
    row ∈ (ofDrawn n drawn).train ↔ row < n ∧ row ∉ drawn := by
  unfold ofDrawn
  simp only [List.mem_filter, List.mem_range, Bool.not_eq_true', ← Bool.not_eq_true, getD_marks]
  constructor
  · rintro ⟨hlt, h⟩
    exact ⟨hlt, fun hd => h ⟨hlt, hd⟩⟩
  · rintro ⟨hlt, h⟩
    exact ⟨hlt, fun hd => h hd.2⟩

/-! ## Partitions -/

/-- Whether a split divides the rows below `n`: each is in one of the parts, at one place, and both
parts are ascending. -/
structure Divides (split : Split) (n : Nat) : Prop where
  train : split.train.Pairwise (· < ·)
  test : split.test.Pairwise (· < ·)
  apart : ∀ row ∈ split.train, row ∉ split.test
  all : (split.train ++ split.test).Perm (List.range n)

theorem nodup_of_ascending {rows : List Nat} (h : rows.Pairwise (· < ·)) : rows.Nodup := by
  refine h.imp ?_
  intro a b hab heq
  omega

theorem divides_ofDrawn (n : Nat) (drawn : List Nat) : (ofDrawn n drawn).Divides n := by
  have htrain : (ofDrawn n drawn).train.Pairwise (· < ·) := List.pairwise_lt_range.filter _
  have htest : (ofDrawn n drawn).test.Pairwise (· < ·) := List.pairwise_lt_range.filter _
  have hapart : ∀ row ∈ (ofDrawn n drawn).train, row ∉ (ofDrawn n drawn).test := by
    intro row hrow hdrawn
    exact (mem_train_ofDrawn.1 hrow).2 (mem_test_ofDrawn.1 hdrawn).2
  refine ⟨htrain, htest, hapart, ?_⟩
  have hnodup : ((ofDrawn n drawn).train ++ (ofDrawn n drawn).test).Nodup := by
    refine List.nodup_append.2 ⟨nodup_of_ascending htrain, nodup_of_ascending htest, ?_⟩
    rintro row hrow other hother rfl
    exact hapart row hrow hother
  refine (List.perm_ext_iff_of_nodup hnodup List.nodup_range).2 ?_
  intro row
  rw [List.mem_append, mem_train_ofDrawn, mem_test_ofDrawn, List.mem_range]
  by_cases hdrawn : row ∈ drawn <;> simp [hdrawn]

/-- Ascending rows are the sorted form of any list of the same rows. -/
theorem eq_mergeSort {rows dealt : List Nat} (h : rows.Pairwise (· < ·)) (hp : rows.Perm dealt) :
    rows = dealt.mergeSort := by
  have htrans : ∀ a b c : Nat, decide (a ≤ b) = true → decide (b ≤ c) = true →
      decide (a ≤ c) = true := by
    intro a b c hab hbc
    simp only [decide_eq_true_eq] at *
    omega
  have htotal : ∀ a b : Nat, (decide (a ≤ b) || decide (b ≤ a)) = true := by
    intro a b
    simp only [Bool.or_eq_true, decide_eq_true_eq]
    omega
  have hsorted : dealt.mergeSort.Pairwise (· ≤ ·) := by
    simpa using List.pairwise_mergeSort htrans htotal dealt
  refine List.Perm.eq_of_pairwise ?_ (h.imp Nat.le_of_lt) hsorted
    (hp.trans (List.mergeSort_perm dealt _).symm)
  intro a b _ _ hab hba
  omega

/-- The parts made of what was drawn are the dealt rows in order. -/
theorem ofDrawn_eq_mergeSort {drawn train : List Nat}
    (h : (drawn ++ train).Perm (List.range n)) :
    (ofDrawn n drawn).test = drawn.mergeSort ∧ (ofDrawn n drawn).train = train.mergeSort := by
  have hdivides := divides_ofDrawn n drawn
  obtain ⟨hdrawn, htrain, hapart⟩ := List.nodup_append.1 (h.nodup_iff.2 List.nodup_range)
  have hmem : ∀ row, row < n ↔ row ∈ drawn ∨ row ∈ train := by
    intro row
    rw [← List.mem_range, ← h.mem_iff, List.mem_append]
  constructor
  · refine eq_mergeSort hdivides.test ?_
    refine (List.perm_ext_iff_of_nodup (nodup_of_ascending hdivides.test) hdrawn).2 ?_
    intro row
    rw [mem_test_ofDrawn, hmem]
    exact ⟨fun hr => hr.2, fun hr => ⟨.inl hr, hr⟩⟩
  · refine eq_mergeSort hdivides.train ?_
    refine (List.perm_ext_iff_of_nodup (nodup_of_ascending hdivides.train) htrain).2 ?_
    intro row
    rw [mem_train_ofDrawn, hmem]
    constructor
    · rintro ⟨hr | hr, hnot⟩
      · exact absurd hr hnot
      · exact hr
    · intro hr
      exact ⟨.inr hr, fun hd => hapart row hd row hr rfl⟩

/-! ## Selecting -/

section

variable {α β : Type} {a : Array α} {b : Array β} {rows : List Nat}

theorem length_filterMap_rows (h : ∀ row ∈ rows, row < a.size) :
    (rows.filterMap (a[·]?)).length = rows.length := by
  rw [List.length_filterMap_eq_countP, List.countP_eq_length]
  intro row hrow
  simp [h row hrow]

/-- Rows of two arrays side by side are selected as from each of them. -/
theorem filterMap_zip (ha : ∀ row ∈ rows, row < a.size) (hb : ∀ row ∈ rows, row < b.size) :
    rows.filterMap ((a.zip b)[·]?) = (rows.filterMap (a[·]?)).zip (rows.filterMap (b[·]?)) := by
  induction rows with
  | nil => rfl
  | cons row rest ih =>
    obtain ⟨hra, hresta⟩ := List.forall_mem_cons.1 ha
    obtain ⟨hrb, hrestb⟩ := List.forall_mem_cons.1 hb
    have hzip : (a.zip b)[row]? = some (a[row], b[row]) := by
      rw [Array.getElem?_eq_getElem (by rw [Array.size_zip]; omega), Array.getElem_zip]
    rw [List.filterMap_cons_some hzip, List.filterMap_cons_some (Array.getElem?_eq_getElem hra),
      List.filterMap_cons_some (Array.getElem?_eq_getElem hrb), List.zip_cons_cons,
      ih hresta hrestb]

/-- All rows of a list give the list. -/
theorem filterMap_range (l : List α) : (List.range l.length).filterMap (l[·]?) = l := by
  induction l with
  | nil => rfl
  | cons x rest ih =>
    have hfirst : (x :: rest)[0]? = some x := rfl
    rw [List.length_cons, List.range_succ_eq_map, List.filterMap_cons_some hfirst,
      List.filterMap_map]
    exact congrArg (x :: ·) ih

theorem Divides.lt (h : split.Divides n) :
    (∀ row ∈ split.train, row < n) ∧ ∀ row ∈ split.test, row < n := by
  constructor
  · intro row hrow
    exact List.mem_range.1 (h.all.mem_iff.1 (List.mem_append_left _ hrow))
  · intro row hrow
    exact List.mem_range.1 (h.all.mem_iff.1 (List.mem_append_right _ hrow))

theorem Divides.length_select (h : split.Divides n) (ha : a.size = n) :
    (split.select a).1.length = split.train.length ∧
      (split.select a).2.length = split.test.length := by
  subst ha
  exact ⟨length_filterMap_rows h.lt.1, length_filterMap_rows h.lt.2⟩

/-- Items that belong together stand at the same place in what is selected of each. -/
theorem Divides.select_zip (h : split.Divides n) (ha : a.size = n) (hb : b.size = n) :
    split.select (a.zip b) =
      ((split.select a).1.zip (split.select b).1, (split.select a).2.zip (split.select b).2) := by
  subst ha
  unfold select
  rw [filterMap_zip h.lt.1 (by rw [hb]; exact h.lt.1),
    filterMap_zip h.lt.2 (by rw [hb]; exact h.lt.2)]

/-- Every item is selected once, for one of the parts. -/
theorem Divides.select_perm (h : split.Divides n) (ha : a.size = n) :
    ((split.select a).1 ++ (split.select a).2).Perm a.toList := by
  have hitems := h.all.filterMap (a[·]?)
  have hall : (List.range n).filterMap (a[·]?) = a.toList := by
    subst ha
    simpa using filterMap_range a.toList
  rwa [List.filterMap_append, hall] at hitems

/-- Items that differ in rows held out only are the same for training. -/
theorem select_train (hd : ∀ row ∈ split.train, row ∉ split.test) {b : Array α}
    (h : ∀ row, row ∉ split.test → a[row]? = b[row]?) : (split.select a).1 = (split.select b).1 :=
  List.filterMap_congr fun row hrow => h row (hd row hrow)

theorem length_filterMap_getElem? (rows : List Nat) {b : Array α} (h : a.size = b.size) :
    (rows.filterMap (a[·]?)).length = (rows.filterMap (b[·]?)).length := by
  induction rows with
  | nil => rfl
  | cons row rest ih =>
    by_cases hrow : row < a.size
    · have hrow' : row < b.size := h ▸ hrow
      simp [hrow, hrow', ih]
    · have hrow' : ¬row < b.size := h ▸ hrow
      simp [hrow, hrow', ih]

theorem length_select_test {b : Array α} (h : a.size = b.size) :
    (split.select a).2.length = (split.select b).2.length :=
  length_filterMap_getElem? split.test h

end

/-! ## Splits -/

theorem divides_of_stratified (h : stratified labels fraction seed = .ok split) :
    split.Divides labels.length := by
  obtain ⟨-, rfl⟩ := stratified_eq_ok.1 h
  exact divides_ofDrawn labels.length _

/-- The rows held out are rows of the labels. -/
theorem lt_of_mem_test (h : stratified labels fraction seed = .ok split) :
    ∀ row ∈ split.test, row < labels.length :=
  (divides_of_stratified h).lt.2

/-- No row that is trained with is held out. -/
theorem not_mem_test (h : stratified labels fraction seed = .ok split) :
    ∀ row ∈ split.train, row ∉ split.test :=
  (divides_of_stratified h).apart

/-- A split that is made is a partition of the rows: both parts ascend, they have no row in common,
and every row is in one of them once; they are the rows as they were dealt, in order. Every label
that occurs has a row left for training. So of two arrays with an item for each row the items that
belong together stay together, and none is lost or doubled. -/
theorem stratified_partition (h : stratified labels fraction seed = .ok split) :
    split.Divides labels.length ∧
      (∃ test train, deal? labels (classTests labels fraction) (Random.Source.ofSeed seed) =
        some (test, train) ∧ split.test = test.mergeSort ∧ split.train = train.mergeSort) ∧
      (∀ label ∈ labels, ∃ row ∈ split.train, labels[row]? = some label) ∧
      ∀ {α β : Type} (a : Array α) (b : Array β), a.size = labels.length →
        b.size = labels.length →
        split.select (a.zip b) =
          ((split.select a).1.zip (split.select b).1, (split.select a).2.zip (split.select b).2) ∧
        (split.select a).1.length = split.train.length ∧
        (split.select a).2.length = split.test.length ∧
        ((split.select a).1 ++ (split.select a).2).Perm a.toList := by
  obtain ⟨hsplittable, rfl⟩ := stratified_eq_ok.1 h
  obtain ⟨train, hdeal, hall, hleft⟩ := hsplittable.deal? (Random.Source.ofSeed seed)
  have hdivides := divides_ofDrawn labels.length
    (draw labels (classTests labels fraction) (Random.Source.ofSeed seed))
  obtain ⟨htest, htrain⟩ := ofDrawn_eq_mergeSort hall
  refine ⟨hdivides, ⟨_, train, hdeal, htest, htrain⟩, ?_, ?_⟩
  · intro label hlabel
    obtain ⟨row, hrow, hat⟩ := hleft label hlabel
    refine ⟨row, ?_, hat⟩
    rw [htrain]
    exact (List.mergeSort_perm train _).mem_iff.2 hrow
  · intro α β a b ha hb
    obtain ⟨hfirst, hsecond⟩ := hdivides.length_select ha
    exact ⟨hdivides.select_zip ha hb, hfirst, hsecond, hdivides.select_perm ha⟩

/-- Two classes of unlike size, of each of which a row is held out. -/
theorem stratified_partition_unlike :
    stratified [2, 0, 2, 0, 0] 0.4 7 = .ok ⟨[0, 1, 4], [2, 3]⟩ ∧
      (∀ label ∈ [2, 0, 2, 0, 0], ∃ row ∈ [0, 1, 4], [2, 0, 2, 0, 0][row]? = some label) ∧
      ([0, 1, 4] ++ [2, 3]).Perm (List.range 5) := by
  have hsplit : stratified [2, 0, 2, 0, 0] 0.4 7 = .ok ⟨[0, 1, 4], [2, 3]⟩ := by decide +kernel
  obtain ⟨hdivides, -, hleft, -⟩ := stratified_partition hsplit
  exact ⟨hsplit, hleft, hdivides.all⟩

end Triage.Split
