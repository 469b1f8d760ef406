/-
How many rows of each class a split holds out. A class is asked for its share rounded down, and for
one row more if it gets one of the places left; one row is kept for training in any case. So many of
its rows are in the test part, and the others in the training part. The places left go to the first
classes in order of precedence, so no class that gets none precedes one that does.
-/
import Mathlib
import Triage.Proofs.Split.Partition

namespace Triage.Split

variable {labels rows : List Nat} {fraction : Float} {seed : UInt64} {split : Split}
  {l label a b : Nat} {shares : List Share}

/-! ## Ranking -/

theorem insertShare_eq (s : Share) (shares : List Share) :
    insertShare s shares = shares.orderedInsert (fun a b => a.precedes b = true) s := by
  induction shares with
  | nil => rfl
  | cons t rest ih =>
    unfold insertShare
    rw [List.orderedInsert_cons, ih]

/-- Shares are ranked by sorting them. -/
theorem ranked_perm (shares : List Share) : (ranked shares).Perm shares := by
  have heq : ranked shares = shares.insertionSort (fun a b => a.precedes b = true) := by
    unfold ranked
    rw [show insertShare = fun s shares => shares.orderedInsert (fun a b => a.precedes b = true) s
      from funext fun s => funext fun shares => insertShare_eq s shares]
    rfl
  rw [heq]
  exact List.perm_insertionSort _ _

/-- Whether of any two of some shares one precedes the other, and what precedes is precedes on. -/
structure Comparable (shares : List Share) : Prop where
  total : ∀ s ∈ shares, ∀ t ∈ shares, s.precedes t = false → t.precedes s = true
  trans : ∀ s ∈ shares, ∀ t ∈ shares, ∀ u ∈ shares, s.precedes t = true → t.precedes u = true →
    s.precedes u = true

theorem Comparable.tail {s : Share} (h : Comparable (s :: shares)) : Comparable shares where
  total t ht u hu := h.total t (List.mem_cons_of_mem s ht) u (List.mem_cons_of_mem s hu)
  trans t ht u hu v hv := h.trans t (List.mem_cons_of_mem s ht) u (List.mem_cons_of_mem s hu) v
    (List.mem_cons_of_mem s hv)

theorem pairwise_insertShare {s : Share} {sorted : List Share} (h : Comparable (s :: shares))
    (hsub : ∀ t ∈ sorted, t ∈ shares) (hsorted : sorted.Pairwise (·.precedes ·)) :
    (insertShare s sorted).Pairwise (·.precedes ·) := by
  induction sorted with
  | nil => simp [insertShare]
  | cons t rest ih =>
    obtain ⟨ht, hrest⟩ := List.forall_mem_cons.1 hsub
    obtain ⟨hfirst, hsorted'⟩ := List.pairwise_cons.1 hsorted
    have hs : s ∈ s :: shares := List.mem_cons_self
    have ht' : t ∈ s :: shares := List.mem_cons_of_mem s ht
    unfold insertShare
    split
    · rename_i hst
      refine List.pairwise_cons.2 ⟨?_, hsorted⟩
      intro u hu
      rcases List.mem_cons.1 hu with rfl | hu
      · exact hst
      · exact h.trans s hs t ht' u (List.mem_cons_of_mem s (hrest u hu)) hst (hfirst u hu)
    · rename_i hst
      refine List.pairwise_cons.2 ⟨?_, ih hrest hsorted'⟩
      intro u hu
      rw [insertShare_eq, List.mem_orderedInsert] at hu
      rcases hu with rfl | hu
      · exact h.total u hs t ht' (Bool.not_eq_true _ ▸ hst)
      · exact hfirst u hu

/-- In the ranking every share precedes those behind it. -/
theorem pairwise_ranked (h : Comparable shares) : (ranked shares).Pairwise (·.precedes ·) := by
  induction shares with
  | nil => exact .nil
  | cons s rest ih =>
    exact pairwise_insertShare h (fun t ht => (ranked_perm rest).mem_iff.1 ht) (ih h.tail)

/-! ## Quotas -/

/-- The share of a class. -/
def classShare (labels : List Nat) (fraction : Float) (l : Nat) : Share :=
  shareOf labels.length (testSize labels.length fraction) l (labels.count l)

/-- The places that the shares rounded down take. -/
def taken (labels : List Nat) (fraction : Float) : Nat :=
  ((classLabels labels).map fun l => (classShare labels fraction l).whole).sum

/-- The classes that get one of the places left. -/
def lucky (labels : List Nat) (fraction : Float) : List Nat :=
  favoured ((classLabels labels).map (classShare labels fraction)) (testSize labels.length fraction)

/-- The number of rows a class is asked for, before one is kept for training. -/
def quota (labels : List Nat) (fraction : Float) (l : Nat) : Nat :=
  (classShare labels fraction l).whole + if l ∈ lucky labels fraction then 1 else 0

theorem classTests_eq (labels : List Nat) (fraction : Float) : classTests labels fraction =
    (classLabels labels).map fun l => (l, min (quota labels fraction l) (labels.count l - 1)) := by
  unfold classTests testCounts
  rw [List.map_map]
  refine List.map_congr_left fun l hl => ?_
  show (l, min (if (lucky labels fraction).contains l then (classShare labels fraction l).whole + 1
    else (classShare labels fraction l).whole) (labels.count l - 1)) = _
  unfold quota
  by_cases hlucky : l ∈ lucky labels fraction <;> simp [hlucky]

/-- The first of the ranking are as many as there are places left, if there are so many classes. -/
theorem lucky_eq (labels : List Nat) (fraction : Float) : lucky labels fraction =
    ((ranked ((classLabels labels).map (classShare labels fraction))).take
      (testSize labels.length fraction - taken labels fraction)).map Share.label := by
  have hsum : ((classLabels labels).map (classShare labels fraction)).foldr (·.whole + ·) 0 =
      taken labels fraction := by
    unfold taken
    induction classLabels labels with
    | nil => rfl
    | cons l rest ih => rw [List.map_cons, List.foldr_cons, ih, List.map_cons, List.sum_cons]
  unfold lucky favoured
  rw [hsum]

theorem ranked_labels_perm (labels : List Nat) (fraction : Float) :
    ((ranked ((classLabels labels).map (classShare labels fraction))).map Share.label).Perm
      (classLabels labels) := by
  refine ((ranked_perm _).map Share.label).trans ?_
  rw [List.map_map]
  exact .of_eq (List.map_id _)

theorem nodup_lucky (labels : List Nat) (fraction : Float) : (lucky labels fraction).Nodup := by
  rw [lucky_eq, List.map_take]
  exact ((ranked_labels_perm labels fraction).nodup_iff.2 (nodup_classLabels labels)).sublist
    (List.take_sublist _ _)

theorem mem_of_lucky (h : l ∈ lucky labels fraction) : l ∈ labels := by
  rw [lucky_eq, List.map_take] at h
  exact mem_classLabels.1 ((ranked_labels_perm labels fraction).mem_iff.1 (List.mem_of_mem_take h))

theorem length_lucky (labels : List Nat) (fraction : Float) : (lucky labels fraction).length =
    min (testSize labels.length fraction - taken labels fraction) (classLabels labels).length := by
  rw [lucky_eq, List.length_map, List.length_take, (ranked_perm _).length_eq, List.length_map]

/-- Ones are summed by counting. -/
theorem sum_ones (p : Nat → Bool) (ls : List Nat) :
    (ls.map fun l => if p l then 1 else 0).sum = ls.countP p := by
  induction ls with
  | nil => rfl
  | cons l rest ih => rw [List.map_cons, List.sum_cons, ih, List.countP_cons, Nat.add_comm]

/-- The classes are asked for the places that are taken and one each that are left. -/
theorem sum_quota (labels : List Nat) (fraction : Float) :
    ((classLabels labels).map (quota labels fraction)).sum =
      taken labels fraction + (lucky labels fraction).length := by
  have hones : ((classLabels labels).map fun l => if l ∈ lucky labels fraction then 1 else 0).sum =
      (lucky labels fraction).length := by
    -- The lucky ones are classes and none is among them twice.
    have hfilter : ((classLabels labels).filter (· ∈ lucky labels fraction)).Perm
        (lucky labels fraction) := by
      refine (List.perm_ext_iff_of_nodup ((nodup_classLabels labels).filter _)
        (nodup_lucky labels fraction)).2 fun l => ?_
      rw [List.mem_filter, decide_eq_true_eq, mem_classLabels]
      exact ⟨And.right, fun h => ⟨mem_of_lucky h, h⟩⟩
    rw [← hfilter.length_eq, ← List.countP_eq_length_filter, ← sum_ones]
    simp only [decide_eq_true_eq]
  unfold quota taken
  rw [List.sum_map_add, hones]

/-- A class that gets a place left precedes one that gets none. -/
theorem precedes_of_lucky
    (h : Comparable ((classLabels labels).map (classShare labels fraction)))
    (ha : a ∈ lucky labels fraction) (hb : b ∈ labels) (hnot : b ∉ lucky labels fraction) :
    (classShare labels fraction a).precedes (classShare labels fraction b) = true := by
  rw [lucky_eq] at ha hnot
  have hsorted := pairwise_ranked h
  have hperm := ranked_perm ((classLabels labels).map (classShare labels fraction))
  generalize ranked ((classLabels labels).map (classShare labels fraction)) = sorted
    at ha hnot hsorted hperm
  generalize testSize labels.length fraction - taken labels fraction = k at ha hnot
  -- A share is that of its label.
  have hshare : ∀ s ∈ sorted, s = classShare labels fraction s.label := by
    intro s hs
    obtain ⟨l, -, rfl⟩ := List.mem_map.1 (hperm.mem_iff.1 hs)
    rfl
  obtain ⟨s, hs, rfl⟩ := List.mem_map.1 ha
  have ht : classShare labels fraction b ∈ sorted :=
    hperm.mem_iff.2 (List.mem_map_of_mem (mem_classLabels.2 hb))
  rw [← List.take_append_drop k sorted] at hsorted ht
  rw [← hshare s (List.mem_of_mem_take hs)]
  refine (List.pairwise_append.1 hsorted).2.2 s hs _ ((List.mem_append.1 ht).resolve_left ?_)
  exact fun ht => hnot (List.mem_map.2 ⟨_, ht, rfl⟩)

/-! ## Rows of a class -/

/-- How many of some rows have a label. -/
def classRows (labels rows : List Nat) (l : Nat) : Nat :=
  rows.countP fun row => labels[row]? == some l

theorem classRows_eq_count (labels rows : List Nat) (l : Nat) :
    classRows labels rows l = (rows.filterMap (labels[·]?)).count l :=
  List.count_filterMap.symm

theorem classRows_pos : 0 < classRows labels rows l ↔ ∃ row ∈ rows, labels[row]? = some l := by
  unfold classRows
  rw [List.countP_pos_iff]
  simp only [beq_iff_eq]

theorem classRows_range (labels : List Nat) (l : Nat) :
    classRows labels (List.range labels.length) l = labels.count l := by
  rw [classRows_eq_count, filterMap_range]

theorem classRows_members (labels : List Nat) (l label : Nat) :
    ∀ rows, (∀ row ∈ rows, row ∈ members labels label) →
      classRows labels rows l = if l = label then rows.length else 0 := by
  intro rows hrows
  unfold classRows
  split
  · rename_i heq
    rw [List.countP_eq_length]
    intro row hrow
    rw [mem_members.1 (hrows row hrow), heq, beq_self_eq_true]
  · rename_i hne
    rw [List.countP_eq_zero]
    intro row hrow
    rw [mem_members.1 (hrows row hrow), beq_iff_eq, Option.some_inj]
    exact Ne.symm hne

/-- From each class as many rows are drawn as it is asked for. -/
theorem classRows_draw {counts : Nat → Nat} {classes : List Nat} (hnodup : classes.Nodup)
    (hcounts : ∀ l ∈ classes, counts l ≤ labels.count l) (s : Random.Source) (l : Nat) :
    classRows labels (draw labels (classes.map fun l => (l, counts l)) s) l =
      if l ∈ classes then counts l else 0 := by
  -- By induction on the classes; each is drawn from its own members, which are of no other.
  induction classes generalizing s with
  | nil => rfl
  | cons label rest ih =>
    obtain ⟨hnot, hnodup⟩ := List.nodup_cons.1 hnodup
    obtain ⟨hcount, hrest⟩ := List.forall_mem_cons.1 hcounts
    have hperm := Random.shuffle_toArray_perm (members labels label) s
    simp only [List.map_cons, draw]
    generalize Random.shuffle (members labels label).toArray s = shuffled at hperm ⊢
    obtain ⟨drawn, s⟩ := shuffled
    have hfirst : classRows labels (drawn.toList.take (counts label)) l =
        if l = label then counts label else 0 := by
      rw [classRows_members labels l label _ fun row hrow =>
        hperm.mem_iff.1 (List.mem_of_mem_take hrow), List.length_take, hperm.length_eq,
        length_members, Nat.min_eq_left hcount]
    unfold classRows at hfirst ih ⊢
    rw [List.countP_append, hfirst, ih hnodup hrest]
    by_cases hl : l = label
    · subst hl
      simp [hnot]
    · simp [hl]

/-- The rows of a class in the two parts: as many as it is asked for are held out, but one is kept
for training, and so are all the others. -/
theorem classRows_of_stratified (h : stratified labels fraction seed = .ok split)
    (hl : l ∈ labels) :
    classRows labels split.test l = min (quota labels fraction l) (labels.count l - 1) ∧
      classRows labels split.train l + classRows labels split.test l = labels.count l := by
  obtain ⟨hsplittable, rfl⟩ := stratified_eq_ok.1 h
  obtain ⟨train, -, hall, -⟩ := hsplittable.deal? (Random.Source.ofSeed seed)
  obtain ⟨htest, htrain⟩ := ofDrawn_eq_mergeSort hall
  have hcounts : ∀ l ∈ classLabels labels,
      min (quota labels fraction l) (labels.count l - 1) ≤ labels.count l :=
    fun l _ => (Nat.min_le_right ..).trans (Nat.sub_le ..)
  have hdrawn := classRows_draw (nodup_classLabels labels) hcounts (Random.Source.ofSeed seed) l
  rw [← classTests_eq, if_pos (mem_classLabels.2 hl)] at hdrawn
  rw [htest, htrain]
  unfold classRows at hdrawn ⊢
  rw [(List.mergeSort_perm _ _).countP_eq, (List.mergeSort_perm _ _).countP_eq]
  refine ⟨hdrawn, ?_⟩
  rw [Nat.add_comm, ← List.countP_append, hall.countP_eq]
  exact classRows_range labels l

theorem length_draw {counts : List (Nat × Nat)} (h : ∀ q ∈ counts, q.2 ≤ labels.count q.1)
    (s : Random.Source) : (draw labels counts s).length = (counts.map Prod.snd).sum := by
  induction counts generalizing s with
  | nil => rfl
  | cons q rest ih =>
    obtain ⟨label, k⟩ := q
    obtain ⟨hk, hrest⟩ := List.forall_mem_cons.1 h
    have hperm := Random.shuffle_toArray_perm (members labels label) s
    simp only [draw]
    generalize Random.shuffle (members labels label).toArray s = shuffled at hperm ⊢
    obtain ⟨drawn, s⟩ := shuffled
    rw [List.length_append, ih hrest, List.length_take, hperm.length_eq, length_members,
      Nat.min_eq_left hk, List.map_cons, List.sum_cons]

/-- The parts together are all rows, and the test part has the rows that the classes are asked for
and do not keep. -/
theorem length_of_stratified (h : stratified labels fraction seed = .ok split) :
    split.train.length + split.test.length = labels.length ∧
      split.test.length = ((classLabels labels).map fun l =>
        min (quota labels fraction l) (labels.count l - 1)).sum := by
  have hall := (divides_of_stratified h).all.length_eq
  rw [List.length_append, List.length_range] at hall
  refine ⟨hall, ?_⟩
  obtain ⟨hsplittable, rfl⟩ := stratified_eq_ok.1 h
  obtain ⟨train, -, hrows, -⟩ := hsplittable.deal? (Random.Source.ofSeed seed)
  rw [(ofDrawn_eq_mergeSort hrows).1, (List.mergeSort_perm _ _).length_eq,
    length_draw fun q hq => (hsplittable.lt_count q hq).le, classTests_eq, List.map_map]
  rfl

/-- All rows of the labels are rows of some class. -/
theorem sum_count (labels : List Nat) :
    ((classLabels labels).map fun l => labels.count l).sum = labels.length := by
  have hlength := (members_perm labels).length_eq
  rw [List.length_flatMap, List.length_range] at hlength
  simpa only [length_members] using hlength

end Triage.Split
