/-
A shuffle only exchanges elements, so whatever is drawn, what comes out is the same elements in
another order.
-/
import Triage.Random.Draw

namespace Triage.Random

variable {α : Type}

theorem swapIfInBounds_perm (a : Array α) (i j : Nat) : (a.swapIfInBounds i j).Perm a := by
  unfold Array.swapIfInBounds
  split
  · split
    · exact Array.swap_perm _ _
    · exact Array.Perm.refl a
  · exact Array.Perm.refl a

theorem shuffleStep_perm (st : Array α × Chooser × Source) (i : Nat) :
    (shuffleStep st i).1.Perm st.1 :=
  swapIfInBounds_perm st.1 i _

theorem foldl_shuffleStep_perm (places : List Nat) (st : Array α × Chooser × Source) :
    (places.foldl shuffleStep st).1.Perm st.1 := by
  induction places generalizing st with
  | nil => exact Array.Perm.refl st.1
  | cons i rest ih => exact (ih (shuffleStep st i)).trans (shuffleStep_perm st i)

/-- What is shuffled has the same elements, each as often as before. -/
theorem shuffle_perm (a : Array α) (s : Source) : (shuffle a s).1.Perm a := by
  unfold shuffle
  split
  · exact Array.Perm.refl a
  · exact foldl_shuffleStep_perm (List.range a.size) (a, ⟨0, 1⟩, s)

/-- The elements of a shuffled list. -/
theorem shuffle_toArray_perm (l : List α) (s : Source) : (shuffle l.toArray s).1.toList.Perm l :=
  (shuffle_perm l.toArray s).toList

end Triage.Random
