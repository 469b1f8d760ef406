/-
The classes a split goes through. The labels that occur are listed once each, in ascending order,
and the rows of a label are those that have it; so the rows of all classes together are all rows.
-/
import Mathlib.Data.List.Perm.Basic
import Mathlib.Data.List.Nodup
import Triage.Split

namespace Triage.Split

variable {labels : List Nat} {l label row : Nat}

/-! ## Labels that occur -/

theorem mem_insertLabel {ls : List Nat} : l ∈ insertLabel label ls ↔ l = label ∨ l ∈ ls := by
  induction ls with
  | nil => simp [insertLabel]
  | cons a rest ih =>
    unfold insertLabel
    split
    · simp
    · split
      · rename_i heq
        subst heq
        simp
      · rw [List.mem_cons, ih, List.mem_cons, or_left_comm]

theorem pairwise_insertLabel {ls : List Nat} (h : ls.Pairwise (· < ·)) :
    (insertLabel label ls).Pairwise (· < ·) := by
  induction ls with
  | nil => simp [insertLabel]
  | cons a rest ih =>
    obtain ⟨hfirst, hrest⟩ := List.pairwise_cons.1 h
    unfold insertLabel
    split
    · rename_i hlt
      refine List.pairwise_cons.2 ⟨?_, h⟩
      intro x hx
      rcases List.mem_cons.1 hx with rfl | hx
      · exact hlt
      · exact Nat.lt_trans hlt (hfirst x hx)
    · split
      · exact h
      · refine List.pairwise_cons.2 ⟨?_, ih hrest⟩
        intro x hx
        rcases mem_insertLabel.1 hx with rfl | hx
        · omega
        · exact hfirst x hx

theorem foldl_insertLabel (ls acc : List Nat) (h : acc.Pairwise (· < ·)) :
    (ls.foldl (fun acc l => insertLabel l acc) acc).Pairwise (· < ·) ∧
      ∀ l, l ∈ ls.foldl (fun acc l => insertLabel l acc) acc ↔ l ∈ ls ∨ l ∈ acc := by
  induction ls generalizing acc with
  | nil => exact ⟨h, by simp⟩
  | cons a rest ih =>
    obtain ⟨hsorted, hmem⟩ := ih (insertLabel a acc) (pairwise_insertLabel h)
    refine ⟨hsorted, ?_⟩
    intro l
    rw [List.foldl_cons, hmem, mem_insertLabel, List.mem_cons, or_assoc, or_left_comm]

theorem pairwise_classLabels (labels : List Nat) : (classLabels labels).Pairwise (· < ·) :=
  (foldl_insertLabel labels [] .nil).1

/-- The classes are the labels that occur. -/
theorem mem_classLabels : l ∈ classLabels labels ↔ l ∈ labels := by
  unfold classLabels
  rw [(foldl_insertLabel labels [] .nil).2 l]
  simp

theorem nodup_classLabels (labels : List Nat) : (classLabels labels).Nodup := by
  refine (pairwise_classLabels labels).imp ?_
  intro a b hab heq
  omega

/-! ## Rows of a label -/

theorem mem_members : row ∈ members labels label ↔ labels[row]? = some label := by
  unfold members
  rw [List.mem_filterMap]
  constructor
  · rintro ⟨⟨l, r⟩, hmem, hrow⟩
    simp only at hrow
    split at hrow
    · rename_i hl
      cases hrow
      rw [← hl]
      exact List.mem_zipIdx_iff_getElem?.1 hmem
    · cases hrow
  · intro h
    exact ⟨(label, row), List.mem_zipIdx_iff_getElem?.2 h, by simp⟩

theorem pairwise_members (labels : List Nat) (label : Nat) :
    (members labels label).Pairwise (· < ·) := by
  unfold members
  rw [List.pairwise_filterMap]
  have hrows : (labels.zipIdx.map Prod.snd).Pairwise (· < ·) := by
    rw [List.zipIdx_map_snd]
    exact List.pairwise_lt_range'
  refine (List.pairwise_map.1 hrows).imp ?_
  intro a b hab r hr s hs
  simp only at hr hs
  split at hr <;> split at hs <;> cases hr <;> cases hs
  exact hab

theorem nodup_members (labels : List Nat) (label : Nat) : (members labels label).Nodup := by
  refine (pairwise_members labels label).imp ?_
  intro a b hab heq
  omega

/-- A class is as large as the number of its rows. -/
theorem length_members (labels : List Nat) (label : Nat) :
    (members labels label).length = labels.count label := by
  have hfirst : labels.count label = labels.zipIdx.countP fun e => e.1 == label := by
    rw [← List.zipIdx_map_fst 0 labels, List.count, List.countP_map, List.zipIdx_map_fst]
    rfl
  unfold members
  rw [List.length_filterMap_eq_countP, hfirst]
  congr 1
  funext e
  by_cases h : e.1 = label <;> simp [h]

/-- The classes have no row in common, and every row is in one of them. -/
theorem members_perm (labels : List Nat) :
    ((classLabels labels).flatMap (members labels)).Perm (List.range labels.length) := by
  have hnodup : ((classLabels labels).flatMap (members labels)).Nodup := by
    refine List.nodup_flatMap.2 ⟨fun l _ => nodup_members labels l, ?_⟩
    refine (nodup_classLabels labels).imp ?_
    intro a b hab row ha hb
    have ha := mem_members.1 ha
    rw [mem_members.1 hb] at ha
    exact hab (Option.some.inj ha).symm
  refine (List.perm_ext_iff_of_nodup hnodup List.nodup_range).2 ?_
  intro row
  rw [List.mem_flatMap, List.mem_range]
  constructor
  · rintro ⟨l, -, hrow⟩
    exact (List.getElem?_eq_some_iff.1 (mem_members.1 hrow)).1
  · intro hlt
    exact ⟨labels[row], mem_classLabels.2 (List.getElem_mem hlt),
      mem_members.2 (List.getElem?_eq_getElem hlt)⟩

end Triage.Split
