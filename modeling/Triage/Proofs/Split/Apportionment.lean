/-
How far the shares of a split add up. A share is a real rounded twice and then down, which is too
little to move the sum of the shares by one row: so the places left are not more than there are
classes, and before any row is kept for training the classes are asked for just as many rows as the
test part is to have. But a class that is asked for all of its rows keeps one for training, and no
other is asked for one more in its place; and a class whose share is below one is not held out at
all if it gets none of the places left.
-/
import Mathlib
import Triage.Proofs.Number.Quotient
import Triage.Proofs.Split.Shares

namespace Triage.Split

open Number

variable {labels : List Nat} {fraction : Float} {seed : UInt64} {split : Split} {l : Nat}

/-! ## Shares of classes -/

theorem Splittable.room (h : Splittable labels fraction) : 0 < (classLabels labels).length ∧
    0 < testSize labels.length fraction ∧ testSize labels.length fraction < labels.length := by
  obtain ⟨l, hl⟩ := List.exists_mem_of_ne_nil labels h.rows
  have hpos := List.length_pos_of_mem (mem_classLabels.2 hl)
  have := h.testRoom
  have := h.trainRoom
  omega

/-- The share of a class is a real rounded twice, with what the floor and the rest are of it. -/
theorem Splittable.share (h : Splittable labels fraction) (hl : l ∈ labels)
    (hn : labels.length < 2 ^ 53) : ∃ p w,
      RoundsTo (labels.count l * testSize labels.length fraction : ℕ) p ∧
      RoundsTo (p / labels.length) w ∧ (classShare labels fraction l).whole = ⌊w⌋₊ ∧
      (w < 2 ^ 53 → HasValue (classShare labels fraction l).rest (w - ⌊w⌋₊)) := by
  have hpair := h.pairs l hl
  obtain ⟨-, htest, hless⟩ := h.room
  obtain ⟨p, w, hp, hw, hvalue⟩ :=
    share_value (c := labels.count l) (by omega) List.count_le_length htest hless.le hn
  refine ⟨p, w, ?_, hw, hvalue.floor, hvalue.fraction⟩
  push_cast
  exact hp

/-- The rows of the test part for one row of the labels. -/
def testShare (labels : List Nat) (fraction : Float) : ℚ :=
  testSize labels.length fraction / labels.length

theorem sum_testShare (h : Splittable labels fraction) :
    ((classLabels labels).map fun l => labels.count l * testShare labels fraction).sum =
      testSize labels.length fraction := by
  obtain ⟨-, -, hless⟩ := h.room
  have hpos : (labels.length : ℚ) ≠ 0 := by
    have : 0 < labels.length := by omega
    positivity
  have hcount : ((classLabels labels).map fun l => (labels.count l : ℚ)).sum = labels.length := by
    rw [← sum_count labels, Nat.cast_list_sum, List.map_map]
    rfl
  rw [List.sum_map_mul_right, hcount]
  exact mul_div_cancel₀ _ hpos

/-- A share rounded down is less than one row below the exact one, a `2^51`st part of it aside. -/
theorem Splittable.whole_bounds (h : Splittable labels fraction) (hl : l ∈ labels)
    (hn : labels.length < 2 ^ 53) :
    ((classShare labels fraction l).whole : ℚ) ≤
        labels.count l * testShare labels fraction * (1 + 1 / 2 ^ 51) ∧
      labels.count l * testShare labels fraction * (1 - 1 / 2 ^ 51) ≤
        (classShare labels fraction l).whole + 1 := by
  obtain ⟨-, -, hless⟩ := h.room
  obtain ⟨p, w, hp, hw, hwhole, -⟩ := h.share hl hn
  obtain ⟨hlow, hhigh⟩ := abs_le.1 (share_error (by omega) hp hw (Nat.cast_nonneg _))
  have hshare : ((labels.count l * testSize labels.length fraction : ℕ) : ℚ) / labels.length =
      labels.count l * testShare labels fraction := by
    unfold testShare
    push_cast
    rw [mul_div_assoc]
  rw [hshare] at hlow hhigh
  have hnonneg : 0 ≤ labels.count l * testShare labels fraction := by
    rw [← hshare]
    positivity
  have hw0 : 0 ≤ w := by linarith
  have hfloor := Nat.floor_le hw0
  have hnext := Nat.lt_floor_add_one w
  rw [hwhole]
  constructor <;> linarith

/-- The places left are not more than there are classes, and the classes are not asked for more rows
than the test part is to have. -/
theorem Splittable.taken_bounds (h : Splittable labels fraction) (hn : labels.length < 2 ^ 51) :
    taken labels fraction ≤ testSize labels.length fraction ∧
      testSize labels.length fraction ≤ taken labels fraction + (classLabels labels).length := by
  obtain ⟨-, -, hless⟩ := h.room
  have hbounds := fun l (hl : l ∈ classLabels labels) =>
    h.whole_bounds (mem_classLabels.1 hl) (hn.trans (by norm_num))
  have hsum := sum_testShare h
  have hcast : (testSize labels.length fraction : ℚ) < 2 ^ 51 := by
    exact_mod_cast hless.trans hn
  have hwhole : ((classLabels labels).map fun l => ((classShare labels fraction l).whole : ℚ)).sum =
      taken labels fraction := by
    unfold taken
    rw [Nat.cast_list_sum, List.map_map]
    rfl
  -- The sums are whole numbers that are less than one above their bounds.
  constructor
  · have hle := List.sum_le_sum fun l hl => (hbounds l hl).1
    rw [List.sum_map_mul_right, hsum, hwhole] at hle
    have hlt : (taken labels fraction : ℚ) < testSize labels.length fraction + 1 := by linarith
    exact Nat.lt_succ_iff.1 (by exact_mod_cast hlt)
  · have hle := List.sum_le_sum fun l hl => (hbounds l hl).2
    rw [List.sum_map_mul_right, hsum, List.sum_map_add, hwhole, List.map_const', List.sum_replicate]
      at hle
    have hlt : (testSize labels.length fraction : ℚ) <
        taken labels fraction + (classLabels labels).length + 1 := by
      simp only [nsmul_eq_mul, mul_one] at hle
      linarith
    exact Nat.lt_succ_iff.1 (by exact_mod_cast hlt)

/-- Before any row is kept for training, the classes are asked for just as many rows as the test
part is to have. -/
theorem Splittable.sum_quota (h : Splittable labels fraction) (hn : labels.length < 2 ^ 51) :
    ((classLabels labels).map (quota labels fraction)).sum = testSize labels.length fraction := by
  obtain ⟨hle, hroom⟩ := h.taken_bounds hn
  rw [Split.sum_quota, length_lucky, Nat.min_eq_left (by omega)]
  omega

/-- No class is asked for more rows than it has. -/
theorem Splittable.quota_le (h : Splittable labels fraction) (hl : l ∈ labels)
    (hn : labels.length < 2 ^ 51) : quota labels fraction l ≤ labels.count l := by
  obtain ⟨-, -, hless⟩ := h.room
  have hpos : (0 : ℚ) < labels.length := by
    have : 0 < labels.length := by omega
    positivity
  have hcount : (0 : ℚ) < labels.count l := by exact_mod_cast List.count_pos_iff.2 hl
  -- The test part leaves out a row at least, which is more than the roundings can make up for.
  have hbelow : testShare labels fraction ≤ 1 - 1 / labels.length := div_le_one_sub hless
  have hstep : 1 / (2 : ℚ) ^ 51 < 1 / labels.length :=
    one_div_lt_one_div_of_lt hpos (by exact_mod_cast hn)
  have hshare : testShare labels fraction * (1 + 1 / 2 ^ 51) < 1 := by nlinarith
  have hwhole : (classShare labels fraction l).whole < labels.count l := by
    have hlt := (h.whole_bounds hl (hn.trans (by norm_num))).1
    rw [mul_assoc] at hlt
    have : ((classShare labels fraction l).whole : ℚ) < labels.count l :=
      lt_of_le_of_lt hlt (by nlinarith)
    exact_mod_cast this
  unfold quota
  split <;> omega

/-! ## Sizes of the parts -/

/-- The number of classes that are asked for all of their rows. -/
def exhausted (labels : List Nat) (fraction : Float) : Nat :=
  (classLabels labels).countP fun l => quota labels fraction l == labels.count l

/-- The rows that are held out and those that are kept for training instead are as many as the test
part is to have. -/
theorem Splittable.sum_kept (h : Splittable labels fraction) (hn : labels.length < 2 ^ 51) :
    ((classLabels labels).map fun l =>
      min (quota labels fraction l) (labels.count l - 1)).sum + exhausted labels fraction =
        testSize labels.length fraction := by
  have hkept : ∀ l ∈ classLabels labels, min (quota labels fraction l) (labels.count l - 1) +
      (if quota labels fraction l == labels.count l then 1 else 0) = quota labels fraction l := by
    intro l hl
    have hle := h.quota_le (mem_classLabels.1 hl) hn
    have hpair := h.pairs l (mem_classLabels.1 hl)
    by_cases heq : quota labels fraction l = labels.count l
    · simp only [heq, beq_self_eq_true, if_true]
      omega
    · simp only [beq_iff_eq, heq, if_false]
      omega
  unfold exhausted
  rw [← sum_ones, ← List.sum_map_add, List.map_congr_left hkept, h.sum_quota hn]

theorem Splittable.exhausted_eq_zero (h : Splittable labels fraction)
    (hn : labels.length < 2 ^ 51) : exhausted labels fraction = 0 ↔
      ∀ l ∈ labels, quota labels fraction l < labels.count l := by
  unfold exhausted
  rw [List.countP_eq_zero]
  constructor
  · intro hne l hl
    have hle := h.quota_le hl hn
    exact lt_of_le_of_ne hle fun heq => hne l (mem_classLabels.2 hl) (beq_iff_eq.2 heq)
  · intro hlt l hl heq
    exact (hlt l (mem_classLabels.1 hl)).ne (beq_iff_eq.1 heq)

/-- Both parts together are all rows, and the test part has the rows that the classes are asked for,
less one of each class that would have none left. In all the classes are asked for as many rows as
the test part is to have, so it falls short by the number of those classes. (The bound is one of
precision; so many labels do not fit into a memory.) -/
theorem sizes_of_stratified (h : stratified labels fraction seed = .ok split) :
    split.train.length + split.test.length = labels.length ∧
      split.test.length = ((classLabels labels).map fun l =>
        min (quota labels fraction l) (labels.count l - 1)).sum ∧
      (labels.length < 2 ^ 51 →
        split.test.length + exhausted labels fraction = testSize labels.length fraction ∧
        (split.test.length = testSize labels.length fraction ↔
          ∀ l ∈ labels, quota labels fraction l < labels.count l)) := by
  obtain ⟨hall, htest⟩ := length_of_stratified h
  obtain ⟨hsplittable, -⟩ := stratified_eq_ok.1 h
  refine ⟨hall, htest, fun hn => ?_⟩
  have hsum := hsplittable.sum_kept hn
  rw [← htest] at hsum
  refine ⟨hsum, ?_⟩
  rw [← hsplittable.exhausted_eq_zero hn]
  omega

/-- Two rows and seven, of which seven are to be held out: the first class is asked for both. -/
theorem sizes_of_stratified_seven : ∃ split,
    stratified [0, 0, 1, 1, 1, 1, 1, 1, 1] 0.75 1 = .ok split ∧
      split.test.length + exhausted [0, 0, 1, 1, 1, 1, 1, 1, 1] 0.75 =
        testSize [0, 0, 1, 1, 1, 1, 1, 1, 1].length 0.75 := by
  have h : stratified [0, 0, 1, 1, 1, 1, 1, 1, 1] 0.75 1 =
      .ok ⟨[1, 2, 6], [0, 3, 4, 5, 7, 8]⟩ := by decide +kernel
  obtain ⟨-, -, hsizes⟩ := sizes_of_stratified h
  exact ⟨_, h, (hsizes (by norm_num)).1⟩

/-- The row that the first class keeps is missing from the test part: no other takes its place. -/
theorem falls_short : ∃ split, stratified [0, 0, 1, 1, 1, 1, 1, 1, 1] 0.75 1 = .ok split ∧
    testSize 9 0.75 = 7 ∧ split.test.length = 6 ∧ split.train.length = 3 :=
  ⟨⟨[1, 2, 6], [0, 3, 4, 5, 7, 8]⟩, by decide +kernel, by decide +kernel, rfl, rfl⟩

/-! ## Classes that are not held out -/

/-- A class is asked for a row if its exact share is one at least, or if it gets a place left. -/
theorem Splittable.quota_pos_iff (h : Splittable labels fraction) (hl : l ∈ labels)
    (hn : labels.length < 2 ^ 53) : 0 < quota labels fraction l ↔
      labels.length ≤ labels.count l * testSize labels.length fraction ∨
        l ∈ lucky labels fraction := by
  obtain ⟨-, -, hless⟩ := h.room
  obtain ⟨p, w, hp, hw, hwhole, -⟩ := h.share hl hn
  have hone : 0 < (classShare labels fraction l).whole ↔
      labels.length ≤ labels.count l * testSize labels.length fraction := by
    rw [hwhole, Nat.floor_pos]
    exact one_le_share (by omega) hn hp hw
  unfold quota
  by_cases hlucky : l ∈ lucky labels fraction
  · simp [hlucky]
  · simp [hlucky, hone]

/-- Every class is trained on, but only those that are asked for a row are held out: those whose
exact share of the test part is one row at least, and those that get one of the places left. So a
class is missing from the test part if its share is less than one row and the places left are given
to others, though the test part is as large as the number of classes. -/
theorem classes_of_stratified (h : stratified labels fraction seed = .ok split) : ∀ l ∈ labels,
    (∃ row ∈ split.train, labels[row]? = some l) ∧
      ((∃ row ∈ split.test, labels[row]? = some l) ↔ 0 < quota labels fraction l) ∧
      (labels.length < 2 ^ 53 → ((∃ row ∈ split.test, labels[row]? = some l) ↔
        labels.length ≤ labels.count l * testSize labels.length fraction ∨
          l ∈ lucky labels fraction)) := by
  intro l hl
  obtain ⟨hsplittable, -⟩ := stratified_eq_ok.1 h
  obtain ⟨htest, hall⟩ := classRows_of_stratified h hl
  have hpair := hsplittable.pairs l hl
  have hheld : (∃ row ∈ split.test, labels[row]? = some l) ↔ 0 < quota labels fraction l := by
    rw [← classRows_pos, htest]
    omega
  refine ⟨classRows_pos.1 (by omega), hheld, fun hn => ?_⟩
  rw [hheld, hsplittable.quota_pos_iff hl hn]

/-- Two rows and six, of which two are to be held out: the share of the second class is more than
one row, so it is held out. -/
theorem classes_of_stratified_six : ∃ split,
    stratified [0, 0, 1, 1, 1, 1, 1, 1] 0.25 1 = .ok split ∧
      ∃ row ∈ split.test, [0, 0, 1, 1, 1, 1, 1, 1][row]? = some 1 := by
  have h : stratified [0, 0, 1, 1, 1, 1, 1, 1] 0.25 1 = .ok ⟨[0, 1, 2, 3, 4, 7], [5, 6]⟩ := by
    decide +kernel
  obtain ⟨-, -, hheld⟩ := classes_of_stratified h 1 (by decide)
  exact ⟨_, h, (hheld (by norm_num)).2 (.inl (by decide +kernel))⟩

/-- The first class is held out with none of its rows. -/
theorem left_out : ∃ split, stratified [0, 0, 1, 1, 1, 1, 1, 1] 0.25 1 = .ok split ∧
    ∀ row ∈ split.test, [0, 0, 1, 1, 1, 1, 1, 1][row]? ≠ some 0 :=
  ⟨⟨[0, 1, 2, 3, 4, 7], [5, 6]⟩, by decide +kernel, by decide⟩

end Triage.Split
