/-
Choices and counts. The most probable class is one of the classes, and the accuracy of a classifier
is the share of vectors for which its choice is the class given with them.
-/
import Triage.Network.Scoring
import Triage.Proofs.Result

namespace Triage

/-! ## Activations -/

theorem size_softmax (x : Singles) : (softmax x).size = x.size := by
  unfold softmax
  simp only
  split <;> simp

theorem Activation.size_apply (a : Activation) (x : Singles) : (a.apply x).size = x.size := by
  cases a with
  | relu => exact Array.size_map
  | softmax => exact size_softmax x

/-! ## Choices -/

theorem argmaxFrom_lt {best index : Nat} {top : Float32} {rest : List Float32}
    (h : best < index) : argmaxFrom best top index rest < index + rest.length := by
  induction rest generalizing best index top with
  | nil => exact h
  | cons v rest ih =>
    unfold argmaxFrom
    rw [List.length_cons, Nat.add_comm rest.length, ← Nat.add_assoc]
    split
    · exact ih (Nat.lt_succ_self index)
    · exact ih (Nat.lt_succ_of_lt h)

/-- The place of the largest member is one of the places. -/
theorem argmax_lt {x : Singles} (h : 0 < x.size) : argmax x < x.size := by
  obtain ⟨l⟩ := x
  cases l with
  | nil => exact absurd h (Nat.lt_irrefl 0)
  | cons v rest =>
    have hlt : argmaxFrom 0 v 1 rest < 1 + rest.length := argmaxFrom_lt Nat.zero_lt_one
    rw [Nat.add_comm] at hlt
    exact hlt

/-! ## Counts -/

namespace Scorer

variable {s : Scorer}

/-- What is counted are the vectors for which the choice is the class given with them. -/
theorem countCorrect_ok {es : List (Singles × Nat)} {n : Nat} (h : s.countCorrect es = .ok n) :
    n = es.countP fun e => (s.predict e.1).toOption == some e.2 := by
  induction es generalizing n with
  | nil =>
    cases h
    rfl
  | cons e rest ih =>
    obtain ⟨x, label⟩ := e
    obtain ⟨found, hfound, h⟩ := ok_of_bind h
    obtain ⟨k, hk, h⟩ := ok_of_bind h
    cases h
    rw [List.countP_cons, ← ih hk, hfound]
    by_cases hl : found = label
    · simp [hl, Except.toOption]
    · simp [hl, Except.toOption]

/-- The accuracy is a share of the vectors, of which there is one at least. -/
theorem accuracy_ok {xs : List Singles} {labels : List Nat} {a : Float}
    (h : s.accuracy xs labels = .ok a) : xs ≠ [] ∧
      a = Float.ofNat ((xs.zip labels).countP fun e => (s.predict e.1).toOption == some e.2) /
        Float.ofNat xs.length := by
  unfold accuracy at h
  split at h
  · cases h
  · rename_i hempty
    split at h
    · cases h
    · obtain ⟨n, hn, rfl⟩ := ok_of_map h
      rw [countCorrect_ok hn]
      exact ⟨by simpa using hempty, rfl⟩

/-! ## Vectors of equal size -/

/-- Whether a vector is scored depends on its size alone. -/
theorem score_alike (s : Scorer) {x y : Singles} (h : x.size = y.size) :
    Alike Eq (fun _ _ => True) (s.score x) (s.score y) := by
  unfold score
  rw [h]
  by_cases hy : y.size = s.inputs
  · rw [if_pos hy, if_pos hy]
    exact trivial
  · rw [if_neg hy, if_neg hy]
    exact rfl

theorem predict_alike (s : Scorer) {x y : Singles} (h : x.size = y.size) :
    Alike Eq (fun _ _ => True) (s.predict x) (s.predict y) :=
  (s.score_alike h).map fun _ _ _ => trivial

theorem countCorrect_alike (s : Scorer) {xs ys : List Singles}
    (h : xs.map Array.size = ys.map Array.size) (labels : List Nat) :
    Alike Eq (fun _ _ => True) (s.countCorrect (xs.zip labels))
      (s.countCorrect (ys.zip labels)) := by
  induction xs generalizing ys labels with
  | nil =>
    rw [List.map_eq_nil_iff.1 h.symm]
    exact trivial
  | cons x xs ih =>
    cases ys with
    | nil => cases h
    | cons y ys =>
      obtain ⟨hxy, hrest⟩ := List.cons.inj h
      cases labels with
      | nil => exact trivial
      | cons label labels =>
        refine (s.predict_alike hxy).bind fun found found' _ _ _ => ?_
        exact (ih hrest labels).bind fun n n' _ _ _ => trivial

/-- Whether there is an accuracy depends on the sizes of the vectors alone. -/
theorem accuracy_alike (s : Scorer) {xs ys : List Singles}
    (h : xs.map Array.size = ys.map Array.size) (labels : List Nat) :
    Alike Eq (fun _ _ => True) (s.accuracy xs labels) (s.accuracy ys labels) := by
  have hlength : xs.length = ys.length := by
    rw [← List.length_map Array.size, h, List.length_map]
  unfold accuracy
  simp only [List.isEmpty_iff_length_eq_zero, hlength]
  split
  · exact rfl
  · split
    · exact rfl
    · exact (s.countCorrect_alike h labels).map fun _ _ _ => trivial

end Scorer

end Triage
