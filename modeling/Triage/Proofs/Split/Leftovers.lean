/-
Who gets the places that the shares of a split leave. The classes are ranked by what was cut off
their shares, which are quotients in double precision. Below `2^26` rows the floors are exact, and a
class with a larger remainder is never behind one with a smaller: so the places go to classes with
the largest remainders. Equal remainders of classes of one size are rounded alike, and the smaller
label is served first. But those of unlike sizes are rounded at unlike exponents, and the smaller
class may come out ahead (`smaller_served_first`); they are compared as they should be if they have
few bits behind the point, so that nothing is rounded. Of two classes all ties are of this kind.
-/
import Mathlib
import Triage.Proofs.Split.Apportionment

namespace Triage.Split

open Number

variable {labels : List Nat} {fraction : Float} {seed : UInt64} {split : Split}
  {test l a b k : Nat} {F : Nat → ℚ}

/-! ## The documented rule -/

/-- What is cut off the exact share of a class, in parts of a row. -/
def remainder (labels : List Nat) (test l : Nat) : Nat :=
  labels.count l * test % labels.length

/-- Whether a class is to be served before another: that with the larger remainder, of equal ones
the larger class, then that with the smaller label. -/
def ServedBefore (labels : List Nat) (test a b : Nat) : Prop :=
  remainder labels test b < remainder labels test a ∨
    remainder labels test a = remainder labels test b ∧
      (labels.count b < labels.count a ∨ labels.count a = labels.count b ∧ a < b)

instance (labels : List Nat) (test a b : Nat) : Decidable (ServedBefore labels test a b) :=
  inferInstanceAs (Decidable (_ ∨ _))

/-- The places that the exact shares rounded down leave. -/
def leftover (labels : List Nat) (test : Nat) : Nat :=
  test - ((classLabels labels).map fun l => labels.count l * test / labels.length).sum

/-- The number of classes that are to be served before a class. -/
def ahead (labels : List Nat) (test l : Nat) : Nat :=
  (classLabels labels).countP (ServedBefore labels test · l)

/-- What a class is to be asked for: its exact share rounded down, and one of the places left if
there are some when it is served. -/
def ruledQuota (labels : List Nat) (test l : Nat) : Nat :=
  labels.count l * test / labels.length +
    if ahead labels test l < leftover labels test then 1 else 0

/-- Whether equal remainders of classes of unlike sizes have few bits behind the point. -/
def TiesExact (labels : List Nat) (test : Nat) : Prop :=
  ∀ a ∈ labels, ∀ b ∈ labels, labels.count a ≠ labels.count b →
    remainder labels test a = remainder labels test b →
      labels.length ∣ remainder labels test a * 2 ^ 27

theorem ServedBefore.asymm (h : ServedBefore labels test a b) : ¬ServedBefore labels test b a := by
  unfold ServedBefore at *
  omega

/-- The remainders of two classes add up to all rows or to none, so equal ones are a half or
nothing. -/
theorem tiesExact_of_two (htwo : (classLabels labels).length = 2) (test : Nat) :
    TiesExact labels test := by
  intro a ha b hb hne heq
  have hab : a ≠ b := by
    rintro rfl
    exact hne rfl
  have hperm : (classLabels labels).Perm [a, b] := by
    refine (List.subperm_of_subset (by simp [hab]) ?_).perm_of_length_le (by simp [htwo]) |>.symm
    intro l hl
    rcases List.mem_pair.1 hl with rfl | rfl
    · exact mem_classLabels.2 ha
    · exact mem_classLabels.2 hb
  have hsum : labels.count a + labels.count b = labels.length := by
    have := (hperm.map fun l => labels.count l).sum_eq
    rw [sum_count] at this
    simpa using this.symm
  have hdvd : labels.length ∣ remainder labels test a + remainder labels test b := by
    unfold remainder
    rw [Nat.dvd_iff_mod_eq_zero, ← Nat.add_mod, ← Nat.add_mul, hsum, Nat.mul_mod_right]
  rw [← heq, ← Nat.two_mul] at hdvd
  refine hdvd.trans ⟨2 ^ 26, ?_⟩
  ring

/-! ## Rests -/

/-- What is known of the values of the rests: classes of one size have the same, they keep the order
of the remainders, and those with few bits behind the point are exact. -/
structure Rests (labels : List Nat) (fraction : Float) (F : Nat → ℚ) : Prop where
  value : ∀ l ∈ labels, HasValue (classShare labels fraction l).rest (F (labels.count l))
  order : ∀ a ∈ labels, ∀ b ∈ labels,
    remainder labels (testSize labels.length fraction) a <
      remainder labels (testSize labels.length fraction) b → F (labels.count a) < F (labels.count b)
  exact : ∀ l ∈ labels,
    labels.length ∣ remainder labels (testSize labels.length fraction) l * 2 ^ 27 →
      F (labels.count l) = remainder labels (testSize labels.length fraction) l / labels.length

/-- A product of two numbers of rows is kept, and so its quotient is rounded once. -/
theorem Splittable.share_exact (h : Splittable labels fraction) (hl : l ∈ labels)
    (hn : labels.length < 2 ^ 26) :
    labels.count l * testSize labels.length fraction < 2 ^ 26 * labels.length ∧
      ∃ w, RoundsTo
        ((labels.count l * testSize labels.length fraction : ℕ) / (labels.length : ℚ)) w ∧
        (classShare labels fraction l).whole = ⌊w⌋₊ ∧
        HasValue (classShare labels fraction l).rest (w - ⌊w⌋₊) := by
  obtain ⟨-, -, hless⟩ := h.room
  obtain ⟨p, w, hp, hw, hwhole, hrest⟩ := h.share hl (hn.trans (by norm_num))
  have hcount : labels.count l ≤ labels.length := List.count_le_length
  have hprod : labels.count l * testSize labels.length fraction < 2 ^ 26 * labels.length := by
    rw [Nat.mul_comm]
    exact Nat.mul_lt_mul_of_lt_of_le (hless.trans hn) hcount (by omega)
  have hbits : labels.count l * testSize labels.length fraction < 2 ^ 52 := by omega
  have hkept := hp.eq_natCast (hbits.trans (by norm_num)) rfl
  rw [hkept] at hw
  refine ⟨hprod, w, hw, hwhole, hrest ?_⟩
  -- The quotient is not more than the product.
  have hpos : (1 : ℚ) ≤ labels.length := by exact_mod_cast (by omega : 1 ≤ labels.length)
  have hle := hw.le_grid (s := 0) (hbits.trans (by norm_num)) (by
    rw [zpow_zero, mul_one]
    exact div_le_self (Nat.cast_nonneg _) hpos)
  rw [zpow_zero, mul_one] at hle
  exact lt_of_le_of_lt hle (by exact_mod_cast hbits.trans (by norm_num))

theorem Splittable.whole_eq (h : Splittable labels fraction) (hl : l ∈ labels)
    (hn : labels.length < 2 ^ 26) : (classShare labels fraction l).whole =
      labels.count l * testSize labels.length fraction / labels.length := by
  obtain ⟨-, -, hless⟩ := h.room
  obtain ⟨hprod, w, hw, hwhole, -⟩ := h.share_exact hl hn
  rw [hwhole, floor_quotient (by omega) (by omega) hw]

theorem Splittable.rests (h : Splittable labels fraction) (hn : labels.length < 2 ^ 26) :
    ∃ F, Rests labels fraction F := by
  obtain ⟨-, -, hless⟩ := h.room
  have hpos : 0 < labels.length := by omega
  -- The value is chosen by the size of the class, so that classes of one size have the same.
  have hvalues : ∀ c, ∃ w, ∀ l ∈ labels, labels.count l = c →
      c * testSize labels.length fraction < 2 ^ 26 * labels.length ∧
      RoundsTo ((c * testSize labels.length fraction : ℕ) / (labels.length : ℚ)) w ∧
      HasValue (classShare labels fraction l).rest (w - ⌊w⌋₊) := by
    intro c
    by_cases hc : ∃ l ∈ labels, labels.count l = c
    · obtain ⟨l, hl, rfl⟩ := hc
      obtain ⟨hprod, w, hw, -, hrest⟩ := h.share_exact hl hn
      refine ⟨w, fun m _ hm => ⟨hprod, hw, ?_⟩⟩
      unfold classShare at *
      rw [hm]
      exact hrest
    · exact ⟨0, fun l hl hm => absurd ⟨l, hl, hm⟩ hc⟩
  choose w hw using hvalues
  refine ⟨fun c => w c - ⌊w c⌋₊, fun l hl => (hw _ l hl rfl).2.2, ?_, ?_⟩
  · intro a ha b hb hab
    obtain ⟨hj, hv, -⟩ := hw _ a ha rfl
    obtain ⟨hk, hw, -⟩ := hw _ b hb rfl
    exact rest_lt hpos (by omega) (by omega) hab hv hw
  · intro l hl hdvd
    obtain ⟨hk, hw, -⟩ := hw _ l hl rfl
    have hsplit := div_add_mod_div hpos (labels.count l * testSize labels.length fraction)
    show w (labels.count l) - (⌊w (labels.count l)⌋₊ : ℚ) = _
    rw [floor_quotient hpos (by omega) hw, quotient_exact hpos hk hdvd hw]
    unfold remainder
    linarith

/-! ## Ranking -/

theorem Rests.precedes_iff (h : Rests labels fraction F) (ha : a ∈ labels) (hb : b ∈ labels) :
    (classShare labels fraction a).precedes (classShare labels fraction b) = true ↔
      F (labels.count b) < F (labels.count a) ∨ F (labels.count a) = F (labels.count b) ∧
        (labels.count b < labels.count a ∨ labels.count a = labels.count b ∧ a ≤ b) := by
  have hlt := (h.value b hb).lt_iff (h.value a ha)
  have heq := (h.value a ha).beq_iff (h.value b hb)
  unfold Share.precedes
  simp only [Bool.or_eq_true, Bool.and_eq_true, decide_eq_true_eq, beq_iff_eq, hlt, heq]
  rfl

theorem Rests.comparable (h : Rests labels fraction F) :
    Comparable ((classLabels labels).map (classShare labels fraction)) := by
  have hshare : ∀ s ∈ (classLabels labels).map (classShare labels fraction),
      ∃ l ∈ labels, classShare labels fraction l = s := by
    intro s hs
    obtain ⟨l, hl, rfl⟩ := List.mem_map.1 hs
    exact ⟨l, mem_classLabels.1 hl, rfl⟩
  constructor
  · intro s hs t ht hnot
    obtain ⟨a, ha, rfl⟩ := hshare s hs
    obtain ⟨b, hb, rfl⟩ := hshare t ht
    rw [← Bool.not_eq_true, h.precedes_iff ha hb] at hnot
    rw [h.precedes_iff hb ha]
    rcases lt_trichotomy (F (labels.count a)) (F (labels.count b)) with hlt | heq | hgt
    · exact .inl hlt
    · refine .inr ⟨heq.symm, ?_⟩
      simp only [heq, lt_irrefl, true_and, false_or] at hnot
      omega
    · exact absurd (.inl hgt) hnot
  · intro s hs t ht u hu hst htu
    obtain ⟨a, ha, rfl⟩ := hshare s hs
    obtain ⟨b, hb, rfl⟩ := hshare t ht
    obtain ⟨c, hc, rfl⟩ := hshare u hu
    rw [h.precedes_iff ha hb] at hst
    rw [h.precedes_iff hb hc] at htu
    rw [h.precedes_iff ha hc]
    rcases hst with hst | ⟨hst, hab⟩ <;> rcases htu with htu | ⟨htu, hbc⟩
    · exact .inl (htu.trans hst)
    · exact .inl (htu ▸ hst)
    · exact .inl (hst ▸ htu)
    · exact .inr ⟨hst.trans htu, by omega⟩

/-- If ties are exact, one class precedes another just as it is to be served before it. -/
theorem Rests.precedes_iff_servedBefore (h : Rests labels fraction F)
    (hties : TiesExact labels (testSize labels.length fraction)) (ha : a ∈ labels)
    (hb : b ∈ labels) (hab : a ≠ b) :
    (classShare labels fraction a).precedes (classShare labels fraction b) = true ↔
      ServedBefore labels (testSize labels.length fraction) a b := by
  rw [h.precedes_iff ha hb]
  unfold ServedBefore
  rcases lt_trichotomy (remainder labels (testSize labels.length fraction) a)
    (remainder labels (testSize labels.length fraction) b) with hlt | heq | hgt
  · have := h.order a ha b hb hlt
    simp only [this.not_gt, this.ne, hlt.not_gt, hlt.ne, false_and, or_self]
  · have hF : F (labels.count a) = F (labels.count b) := by
      by_cases hcount : labels.count a = labels.count b
      · rw [hcount]
      · have hdvd := hties a ha b hb hcount heq
        rw [h.exact a ha hdvd, h.exact b hb (heq ▸ hdvd), heq]
    simp only [hF, heq, lt_irrefl, true_and, false_or]
    omega
  · simp only [h.order b hb a ha hgt, hgt, true_or]

/-- Of a list in strict order the first ones are those that few come before. -/
theorem mem_take_iff_countP {R : Nat → Nat → Prop} [DecidableRel R] {order : List Nat}
    (hnodup : order.Nodup) (hsorted : order.Pairwise R) (hasymm : ∀ a b, R a b → ¬R b a)
    (hl : l ∈ order) : l ∈ order.take k ↔ order.countP (R · l) < k := by
  obtain ⟨before, behind, rfl⟩ := List.append_of_mem hl
  obtain ⟨-, hbehind, hbefore⟩ := List.pairwise_append.1 hsorted
  have hcount : (before ++ l :: behind).countP (R · l) = before.length := by
    have hall : before.countP (R · l) = before.length := by
      rw [List.countP_eq_length]
      intro a ha
      simpa using hbefore a ha l List.mem_cons_self
    have hnone : (l :: behind).countP (R · l) = 0 := by
      rw [List.countP_eq_zero]
      rintro a ha hal
      rcases List.mem_cons.1 ha with rfl | ha
      · exact hasymm a a (by simpa using hal) (by simpa using hal)
      · exact hasymm l a ((List.pairwise_cons.1 hbehind).1 a ha) (by simpa using hal)
    rw [List.countP_append, hall, hnone, Nat.add_zero]
  have hnot : l ∉ before.take k := by
    intro hmem
    have := (List.nodup_append.1 hnodup).2.2 l (List.mem_of_mem_take hmem) l List.mem_cons_self
    exact this rfl
  rw [hcount, List.take_append, List.mem_append, or_iff_right hnot]
  rcases Nat.eq_zero_or_pos (k - before.length) with hzero | hpos
  · simp only [hzero, List.take_zero, List.not_mem_nil, false_iff]
    omega
  · obtain ⟨j, hj⟩ := Nat.exists_eq_add_of_lt hpos
    simp only [hj, Nat.zero_add, List.take_succ_cons, List.mem_cons_self, true_iff]
    omega

/-- If ties are exact, the places left go to those that are to be served first. -/
theorem Rests.mem_lucky_iff (h : Rests labels fraction F)
    (hties : TiesExact labels (testSize labels.length fraction)) (hl : l ∈ labels) :
    l ∈ lucky labels fraction ↔ ahead labels (testSize labels.length fraction) l <
      testSize labels.length fraction - taken labels fraction := by
  have hperm := ranked_labels_perm labels fraction
  have hnodup := hperm.nodup_iff.2 (nodup_classLabels labels)
  have hsorted : ((ranked ((classLabels labels).map (classShare labels fraction))).map
      Share.label).Pairwise (ServedBefore labels (testSize labels.length fraction)) := by
    have hshare : ∀ s ∈ ranked ((classLabels labels).map (classShare labels fraction)),
        s.label ∈ labels ∧ classShare labels fraction s.label = s := by
      intro s hs
      obtain ⟨l, hl, rfl⟩ := List.mem_map.1 ((ranked_perm _).mem_iff.1 hs)
      exact ⟨mem_classLabels.1 hl, rfl⟩
    rw [List.pairwise_map]
    refine ((pairwise_ranked h.comparable).and (List.pairwise_map.1 hnodup)).imp_of_mem ?_
    rintro s t hs ht ⟨hst, hne⟩
    obtain ⟨hs, hs'⟩ := hshare s hs
    obtain ⟨ht, ht'⟩ := hshare t ht
    rw [← hs', ← ht'] at hst
    exact (h.precedes_iff_servedBefore hties hs ht hne).1 hst
  rw [lucky_eq, List.map_take, mem_take_iff_countP hnodup hsorted (fun _ _ => ServedBefore.asymm)
    (hperm.mem_iff.2 (mem_classLabels.2 hl)), hperm.countP_eq]
  rfl

/-! ## Places left -/

theorem Splittable.taken_eq (h : Splittable labels fraction) (hn : labels.length < 2 ^ 26) :
    testSize labels.length fraction - taken labels fraction =
      leftover labels (testSize labels.length fraction) := by
  unfold taken leftover
  rw [List.map_congr_left fun l hl => h.whole_eq (mem_classLabels.1 hl) hn]

theorem Splittable.quota_eq (h : Splittable labels fraction) (hl : l ∈ labels)
    (hn : labels.length < 2 ^ 26) : quota labels fraction l =
      labels.count l * testSize labels.length fraction / labels.length +
        if l ∈ lucky labels fraction then 1 else 0 := by
  unfold quota
  rw [h.whole_eq hl hn]

/-- A class that gets a place left has no smaller remainder than one that gets none, and of classes
of one size with equal remainders it is the one with the smaller label. -/
theorem Rests.remainder_of_lucky (h : Rests labels fraction F) (ha : a ∈ lucky labels fraction)
    (hb : b ∈ labels) (hnot : b ∉ lucky labels fraction) :
    remainder labels (testSize labels.length fraction) b <
        remainder labels (testSize labels.length fraction) a ∨
      remainder labels (testSize labels.length fraction) a =
          remainder labels (testSize labels.length fraction) b ∧
        (labels.count a = labels.count b → a < b) := by
  have hmem := mem_of_lucky ha
  have hprecedes := precedes_of_lucky h.comparable ha hb hnot
  rw [h.precedes_iff hmem hb] at hprecedes
  rcases lt_trichotomy (remainder labels (testSize labels.length fraction) b)
    (remainder labels (testSize labels.length fraction) a) with hlt | heq | hgt
  · exact .inl hlt
  · refine .inr ⟨heq.symm, fun hcount => ?_⟩
    have hne : a ≠ b := by
      rintro rfl
      exact hnot ha
    -- Of one size they have one rest, so it is the labels that are compared.
    simp only [hcount, lt_irrefl, true_and, false_or] at hprecedes
    omega
  · have := h.order a hmem b hb hgt
    simp only [this.not_gt, this.ne, false_and, or_self] at hprecedes

/-- Below `2^26` rows the classes get their exact shares rounded down, and the places left go one
each to classes with the largest remainders; of two classes of one size with equal remainders that
with the smaller label comes first. If equal remainders of unlike classes have few bits behind the
point, so that they are not rounded, the larger class comes first, and all is as the rule says. -/
theorem leftovers_of_stratified (h : stratified labels fraction seed = .ok split)
    (hn : labels.length < 2 ^ 26) :
    (∀ l ∈ labels, classRows labels split.test l =
        min (quota labels fraction l) (labels.count l - 1) ∧
      quota labels fraction l =
        labels.count l * testSize labels.length fraction / labels.length +
          if l ∈ lucky labels fraction then 1 else 0) ∧
    (lucky labels fraction).Nodup ∧
    (lucky labels fraction).length = leftover labels (testSize labels.length fraction) ∧
    (∀ a ∈ lucky labels fraction, ∀ b ∈ labels, b ∉ lucky labels fraction →
      remainder labels (testSize labels.length fraction) b <
          remainder labels (testSize labels.length fraction) a ∨
        remainder labels (testSize labels.length fraction) a =
            remainder labels (testSize labels.length fraction) b ∧
          (labels.count a = labels.count b → a < b)) ∧
    (TiesExact labels (testSize labels.length fraction) → ∀ l ∈ labels,
      quota labels fraction l = ruledQuota labels (testSize labels.length fraction) l) := by
  obtain ⟨hsplittable, -⟩ := stratified_eq_ok.1 h
  obtain ⟨F, hrests⟩ := hsplittable.rests hn
  refine ⟨fun l hl => ⟨(classRows_of_stratified h hl).1, hsplittable.quota_eq hl hn⟩,
    nodup_lucky labels fraction, ?_, fun a ha b hb => hrests.remainder_of_lucky ha hb, ?_⟩
  · obtain ⟨-, hroom⟩ := hsplittable.taken_bounds (hn.trans (by norm_num))
    rw [length_lucky, Nat.min_eq_left (by omega), hsplittable.taken_eq hn]
  · intro hties l hl
    unfold ruledQuota
    rw [hsplittable.quota_eq hl hn, ← hsplittable.taken_eq hn]
    simp only [hrests.mem_lucky_iff hties hl]

/-- Three rows and seven, of which a half are to be held out: each share has half a row cut off, and
the larger class gets the place left. -/
theorem leftovers_of_stratified_ten : ∃ split,
    stratified [0, 0, 0, 1, 1, 1, 1, 1, 1, 1] 0.5 1 = .ok split ∧
      quota [0, 0, 0, 1, 1, 1, 1, 1, 1, 1] 0.5 0 =
        ruledQuota [0, 0, 0, 1, 1, 1, 1, 1, 1, 1] 5 0 ∧
      quota [0, 0, 0, 1, 1, 1, 1, 1, 1, 1] 0.5 1 =
        ruledQuota [0, 0, 0, 1, 1, 1, 1, 1, 1, 1] 5 1 ∧
      ruledQuota [0, 0, 0, 1, 1, 1, 1, 1, 1, 1] 5 0 = 1 ∧
      ruledQuota [0, 0, 0, 1, 1, 1, 1, 1, 1, 1] 5 1 = 4 := by
  have h : stratified [0, 0, 0, 1, 1, 1, 1, 1, 1, 1] 0.5 1 =
      .ok ⟨[1, 2, 3, 5, 7], [0, 4, 6, 8, 9]⟩ := by decide +kernel
  have hsize : testSize [0, 0, 0, 1, 1, 1, 1, 1, 1, 1].length 0.5 = 5 := by decide +kernel
  obtain ⟨-, -, -, -, hruled⟩ := leftovers_of_stratified h (by norm_num)
  rw [hsize] at hruled
  have hquota := hruled (tiesExact_of_two (by decide) 5)
  exact ⟨_, h, hquota 0 (by decide), hquota 1 (by decide), by decide, by decide⟩

/-- Two classes of two rows and one of eight, of which four are to be held out: two thirds of a row
are cut off each share, and so the larger class is to get the first of the two places left. But what
is left of `8 / 3` in double precision is less than `2 / 3`, so both places go to the small ones. -/
theorem smaller_served_first : ∃ split,
    stratified [0, 0, 1, 1, 2, 2, 2, 2, 2, 2, 2, 2] 0.3 1 = .ok split ∧
      testSize 12 0.3 = 4 ∧
      remainder [0, 0, 1, 1, 2, 2, 2, 2, 2, 2, 2, 2] 4 1 = 8 ∧
      remainder [0, 0, 1, 1, 2, 2, 2, 2, 2, 2, 2, 2] 4 2 = 8 ∧
      quota [0, 0, 1, 1, 2, 2, 2, 2, 2, 2, 2, 2] 0.3 1 = 1 ∧
      quota [0, 0, 1, 1, 2, 2, 2, 2, 2, 2, 2, 2] 0.3 2 = 2 ∧
      ruledQuota [0, 0, 1, 1, 2, 2, 2, 2, 2, 2, 2, 2] 4 1 = 0 ∧
      ruledQuota [0, 0, 1, 1, 2, 2, 2, 2, 2, 2, 2, 2] 4 2 = 3 :=
  ⟨⟨[1, 3, 4, 5, 6, 8, 10, 11], [0, 2, 7, 9]⟩, by decide +kernel, by decide +kernel,
    by decide, by decide, by decide +kernel, by decide +kernel, by decide, by decide⟩

end Triage.Split
