/-
Label tables as the order of classes. A table of observed labels has each of them once and nothing
else, in the order in which they occur first; and what a list of labels is encoded as names them
again, one by one, so the classes occur first in their own order. A list is encoded just if its
labels are in the table, and else its first label that is not is found fault with.
-/
import Mathlib.Data.List.Nodup
import Triage.Labels
import Triage.Proofs.Result

namespace Triage.Labels

variable {t : Labels} {names labels seen : List String} {indices : List Nat} {s : String}
  {i row : Nat}

/-! ## Observed labels -/

theorem mem_distinctAfter : s ∈ distinctAfter seen names ↔ s ∈ seen ∨ s ∈ names := by
  induction names generalizing seen with
  | nil => simp [distinctAfter]
  | cons a rest ih =>
    rw [distinctAfter, ih, List.mem_cons]
    split
    · rename_i hseen
      have ha : a ∈ seen := by simpa using hseen
      constructor
      · rintro (h | h)
        · exact .inl h
        · exact .inr (.inr h)
      · rintro (h | rfl | h)
        · exact .inl h
        · exact .inl ha
        · exact .inr h
    · rw [List.mem_append, List.mem_singleton, or_assoc]

theorem names_of_ofList (h : ofList names = .ok t) : t.names = names := by
  unfold ofList at h
  split at h
  · cases h
  · cases h
    rfl

theorem faultAfter_eq_none {seen names : List String} (hl : ∀ s ∈ names, isLabel s = true)
    (hn : (seen ++ names).Nodup) : faultAfter seen names = none := by
  induction names generalizing seen with
  | nil => rfl
  | cons s rest ih =>
    have hs : isLabel s = true := hl s List.mem_cons_self
    have hnew : s ∉ seen := fun h => (List.nodup_append.1 hn).2.2 s h s List.mem_cons_self rfl
    unfold faultAfter
    rw [if_neg (by simp [hs]), if_neg (by simpa using hnew)]
    exact ih (fun r hr => hl r (List.mem_cons_of_mem _ hr)) (by simpa using hn)

/-- A table passes the checks of its own names. -/
theorem ofList_names (t : Labels) : ofList t.names = .ok t := by
  have hnone : faultAfter [] t.names = none := faultAfter_eq_none t.isLabel_of_mem t.nodup
  unfold ofList
  split
  · rename_i f hf
    rw [hnone] at hf
    cases hf
  · rfl

theorem isLabel_iff : isLabel s = true ↔ s ≠ "" ∧ '\n' ∉ s.toList ∧ '\r' ∉ s.toList := by
  simp [isLabel, and_assoc]

/-- A table is made of single lines, each given once. -/
theorem exists_ofList_iff :
    (∃ t, ofList names = .ok t) ↔ (∀ s ∈ names, isLabel s = true) ∧ names.Nodup := by
  constructor
  · rintro ⟨t, ht⟩
    rw [← names_of_ofList ht]
    exact ⟨t.isLabel_of_mem, t.nodup⟩
  · rintro ⟨hlabels, hnodup⟩
    exact ⟨⟨names, hlabels, hnodup⟩, ofList_names ⟨names, hlabels, hnodup⟩⟩

theorem nodup_distinctAfter (h : seen.Nodup) : (distinctAfter seen names).Nodup := by
  induction names generalizing seen with
  | nil => exact h
  | cons a rest ih =>
    rw [distinctAfter]
    split
    · exact ih h
    · rename_i hnew
      apply ih
      rw [List.nodup_append]
      refine ⟨h, List.nodup_singleton a, ?_⟩
      rintro x hx y hy rfl
      simp_all

/-- Labels stand as they occur first in a list. Of the list, `labels` was gone through, and `seen`
are the labels found there. -/
theorem pairwise_distinctAfter (hseen : ∀ s, s ∈ seen ↔ s ∈ labels)
    (h : seen.Pairwise fun a b => (labels ++ names).idxOf a < (labels ++ names).idxOf b) :
    (distinctAfter seen names).Pairwise fun a b =>
      (labels ++ names).idxOf a < (labels ++ names).idxOf b := by
  induction names generalizing seen labels with
  | nil => exact h
  | cons a rest ih =>
    rw [distinctAfter]
    have hsplit : labels ++ a :: rest = (labels ++ [a]) ++ rest := by simp
    rw [hsplit] at h ⊢
    split
    · rename_i hold
      refine ih (fun s => ?_) h
      have ha : a ∈ labels := (hseen a).1 (by simpa using hold)
      rw [hseen, List.mem_append, List.mem_singleton]
      constructor
      · exact .inl
      · rintro (hs | rfl)
        · exact hs
        · exact ha
    · rename_i hnew
      refine ih (fun s => ?_) (List.pairwise_append.2 ⟨h, List.pairwise_singleton _ a, ?_⟩)
      · rw [List.mem_append, List.mem_append, hseen]
      -- A label seen before stands where `labels` are, the new one behind them.
      · intro s hs b hb
        have ha : a ∉ labels := fun hmem => hnew (by simpa using (hseen a).2 hmem)
        rw [List.mem_singleton.1 hb, ← hsplit, List.idxOf_append_of_mem ((hseen s).1 hs),
          List.idxOf_append_of_notMem ha]
        exact Nat.lt_add_right _ (List.idxOf_lt_length_iff.2 ((hseen s).1 hs))

/-- The labels of a table are those that were observed. -/
theorem mem_names_ofObserved (h : ofObserved labels = .ok t) : s ∈ t.names ↔ s ∈ labels := by
  rw [names_of_ofList h, mem_distinctAfter]
  simp

theorem pairwise_names_ofObserved (h : ofObserved labels = .ok t) :
    t.names.Pairwise fun a b => labels.idxOf a < labels.idxOf b := by
  rw [names_of_ofList h]
  have hseen (s : String) : s ∈ ([] : List String) ↔ s ∈ ([] : List String) := Iff.rfl
  exact pairwise_distinctAfter hseen .nil

/-- Labels are made a table of just if each is a single line that is not empty. -/
theorem exists_ofObserved_iff :
    (∃ t, ofObserved labels = .ok t) ↔ ∀ s ∈ labels, isLabel s = true := by
  unfold ofObserved
  rw [exists_ofList_iff]
  simp [mem_distinctAfter, nodup_distinctAfter]

/-! ## Classes -/

/-- A label is at the place of its class. -/
theorem name?_of_index? (h : t.index? s = some i) : t.name? i = some s := by
  obtain ⟨hi, hs, -⟩ := List.idxOf?_eq_some_iff.1 h
  rw [name?, List.getElem?_eq_getElem hi, hs]

theorem exists_index? (h : s ∈ t.names) : ∃ i, t.index? s = some i :=
  Option.isSome_iff_exists.1 (List.isSome_idxOf?.2 h)

theorem index?_eq_none : t.index? s = none ↔ s ∉ t.names :=
  List.idxOf?_eq_none_iff

/-- No two classes have the same label. -/
theorem eq_of_name? {j : Nat} (hi : t.name? i = some s) (hj : t.name? j = some s) : i = j := by
  unfold name? at hi hj
  have hlt := (List.getElem?_eq_some_iff.1 hi).1
  exact (List.getElem?_inj hlt t.nodup).1 (hi.trans hj.symm)

theorem exists_name? (hi : i < t.size) : ∃ s ∈ t.names, t.name? i = some s :=
  ⟨t.names[i], List.getElem_mem hi, List.getElem?_eq_getElem hi⟩

/-! ## Encoding -/

/-- The classes that labels are encoded as name the labels again. -/
theorem map_name?_encodeFrom (h : t.encodeFrom row labels = .ok indices) :
    indices.map t.name? = labels.map some := by
  induction labels generalizing row indices with
  | nil =>
    cases h
    rfl
  | cons label rest ih =>
    unfold encodeFrom at h
    split at h
    · cases h
    · rename_i i hi
      obtain ⟨others, hothers, rfl⟩ := ok_of_map h
      rw [List.map_cons, List.map_cons, name?_of_index? hi, ih hothers]

/-- Labels that are in a table are encoded. -/
theorem exists_encodeFrom (row : Nat) (h : ∀ s ∈ labels, s ∈ t.names) :
    ∃ indices, t.encodeFrom row labels = .ok indices := by
  induction labels generalizing row with
  | nil => exact ⟨[], rfl⟩
  | cons label rest ih =>
    obtain ⟨hlabel, hrest⟩ := List.forall_mem_cons.1 h
    obtain ⟨indices, hindices⟩ := ih (row + 1) hrest
    obtain ⟨i, hi⟩ := exists_index? hlabel
    refine ⟨i :: indices, ?_⟩
    rw [encodeFrom, hi, hindices]
    rfl

/-- Labels are found fault with for the first one that is not in the table. -/
theorem encodeFrom_eq_error_iff {f : DatasetFault} : t.encodeFrom row labels = .error f ↔
    ∃ before s after, labels = before ++ s :: after ∧ (∀ a ∈ before, a ∈ t.names) ∧ s ∉ t.names ∧
      f = .unknownLabel (row + before.length) s t.names := by
  induction labels generalizing row with
  | nil => simp [encodeFrom]
  | cons label rest ih =>
    rw [encodeFrom]
    by_cases hlabel : label ∈ t.names
    · obtain ⟨i, hi⟩ := exists_index? hlabel
      rw [hi, map_eq_error_iff, ih]
      constructor
      · rintro ⟨before, s, after, rfl, hbefore, hs, rfl⟩
        refine ⟨label :: before, s, after, rfl, List.forall_mem_cons.2 ⟨hlabel, hbefore⟩, hs, ?_⟩
        rw [List.length_cons, Nat.add_assoc, Nat.add_comm 1]
      · rintro ⟨before, s, after, heq, hbefore, hs, rfl⟩
        rcases List.cons_eq_append_iff.1 heq with ⟨rfl, hhead⟩ | ⟨before, rfl, rfl⟩
        · cases hhead
          exact absurd hlabel hs
        · refine ⟨before, s, after, rfl, (List.forall_mem_cons.1 hbefore).2, hs, ?_⟩
          rw [List.length_cons, Nat.add_assoc, Nat.add_comm 1]
    · rw [index?_eq_none.2 hlabel]
      constructor
      · intro h
        cases h
        exact ⟨[], label, rest, rfl, by simp, hlabel, rfl⟩
      · rintro ⟨before, s, after, heq, hbefore, hs, rfl⟩
        rcases List.cons_eq_append_iff.1 heq with ⟨rfl, hhead⟩ | ⟨before, rfl, rfl⟩
        · cases hhead
          rfl
        · exact absurd (hbefore label List.mem_cons_self) hlabel

/-- A class occurs first where its label does. -/
theorem idxOf_encode (h : t.encode labels = .ok indices) (hi : t.name? i = some s) :
    indices.idxOf i = labels.idxOf s := by
  have hnames := map_name?_encodeFrom h
  clear h
  induction indices generalizing labels with
  | nil =>
    obtain rfl : labels = [] := by simpa using hnames.symm
    rfl
  | cons j indices ih =>
    match labels, hnames with
    | label :: rest, hnames =>
      obtain ⟨hj, hrest⟩ := List.cons.inj hnames
      rw [List.idxOf_cons, List.idxOf_cons, ih hrest]
      congr 1
      by_cases hji : j = i
      · subst hji
        simp_all
      · have hne : label ≠ s := by
          rintro rfl
          exact hji (eq_of_name? hj hi)
        simp [hji, hne]

theorem lt_of_mem_encode (h : t.encode labels = .ok indices) (hi : i ∈ indices) : i < t.size := by
  have hname : t.name? i ∈ labels.map some := map_name?_encodeFrom h ▸ List.mem_map_of_mem hi
  obtain ⟨s, -, hs⟩ := List.mem_map.1 hname
  exact (List.getElem?_eq_some_iff.1 hs.symm).1

/-- A class is among those that labels are encoded as if and only if its label is among them. -/
theorem mem_encode (h : t.encode labels = .ok indices) (hi : t.name? i = some s) :
    i ∈ indices ↔ s ∈ labels := by
  have hnames := map_name?_encodeFrom h
  constructor
  · intro hmem
    have hs : some s ∈ labels.map some := hnames ▸ hi ▸ List.mem_map_of_mem hmem
    simpa using hs
  · intro hmem
    have hs : some s ∈ indices.map t.name? := hnames ▸ List.mem_map_of_mem hmem
    obtain ⟨j, hj, hname⟩ := List.mem_map.1 hs
    exact eq_of_name? hname hi ▸ hj

/-! ## Main statement -/

/-- A table is made of observed labels just if each is a single line that is not empty. It has each
of them once and nothing else, in the order in which they occur first; the labels are encoded as
classes that name them again, and all classes there are occur among those, first in their own order.
Whatever the table, labels are not encoded just if one of them is not in it, and the first that is
not is the one that is reported, with its row. -/
theorem encode_observed :
    (∀ labels, (∃ t, ofObserved labels = .ok t) ↔
      ∀ s ∈ labels, s ≠ "" ∧ '\n' ∉ s.toList ∧ '\r' ∉ s.toList) ∧
    (∀ labels t, ofObserved labels = .ok t →
      t.names.Nodup ∧ (∀ s, s ∈ t.names ↔ s ∈ labels) ∧
      t.names.Pairwise (fun a b => labels.idxOf a < labels.idxOf b) ∧
      ∃ indices, t.encode labels = .ok indices ∧ indices.map t.name? = labels.map some ∧
        (∀ i, i ∈ indices ↔ i < t.size) ∧
        ∀ i j, i < j → j < t.size → indices.idxOf i < indices.idxOf j) ∧
    ∀ (t : Labels) (labels : List String) (f : DatasetFault), t.encode labels = .error f ↔
      ∃ before s after, labels = before ++ s :: after ∧ (∀ a ∈ before, a ∈ t.names) ∧
        s ∉ t.names ∧ f = .unknownLabel (before.length + 1) s t.names := by
  refine ⟨fun labels => ?made, fun labels t h => ?observed, fun t labels f => ?unknown⟩
  case made =>
    rw [exists_ofObserved_iff]
    exact forall₂_congr fun s _ => isLabel_iff
  case observed =>
    have hmem (s : String) : s ∈ t.names ↔ s ∈ labels := mem_names_ofObserved h
    have horder := pairwise_names_ofObserved h
    obtain ⟨indices, hindices⟩ := exists_encodeFrom 1 fun s => (hmem s).2
    refine ⟨t.nodup, hmem, horder, indices, hindices, map_name?_encodeFrom hindices, fun i => ?_,
      fun i j hij hj => ?_⟩
    · constructor
      · exact lt_of_mem_encode hindices
      · intro hi
        obtain ⟨s, hs, hname⟩ := exists_name? hi
        exact (mem_encode hindices hname).2 ((hmem s).1 hs)
    · have hi : i < t.size := Nat.lt_trans hij hj
      rw [idxOf_encode hindices (List.getElem?_eq_getElem hi),
        idxOf_encode hindices (List.getElem?_eq_getElem hj)]
      exact List.pairwise_iff_getElem.1 horder i j hi hj hij
  case unknown =>
    unfold encode
    rw [encodeFrom_eq_error_iff]
    simp only [Nat.add_comm 1]

/-- Four labels of three classes, and a label of none of them. -/
theorem encode_observed_four : ∃ t, ofObserved ["sport", "money", "sport", "chat"] = .ok t ∧
    t.names.Pairwise (fun a b => ["sport", "money", "sport", "chat"].idxOf a <
      ["sport", "money", "sport", "chat"].idxOf b) ∧
    (t.encode ["sport", "money", "sport", "chat"]).toOption = some [0, 1, 0, 2] ∧
    t.encode ["chat", "spam", "ham"] = .error (.unknownLabel 2 "spam" t.names) := by
  obtain ⟨hmade, hobserved, hunknown⟩ := encode_observed
  obtain ⟨t, ht⟩ := (hmade ["sport", "money", "sport", "chat"]).2 (by decide)
  obtain ⟨-, hmem, horder, -⟩ := hobserved _ t ht
  obtain rfl : t = ⟨["sport", "money", "chat"], by decide, by decide⟩ := by
    cases t
    cases names_of_ofList ht
    rfl
  refine ⟨_, ht, horder, by decide, (hunknown _ _ _).2 ?_⟩
  exact ⟨["chat"], "spam", ["ham"], rfl, by decide, by decide, rfl⟩

end Triage.Labels
