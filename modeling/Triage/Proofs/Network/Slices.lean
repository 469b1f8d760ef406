/-
Vectors that are gone through part by part. An array of weights is made up of rows, one for each
input, and a row is asked for by the places where it begins and ends; a part that is asked for may
not be there, and its ends may be no numbers of 64 bits.
-/
import Triage.Proofs.Network.Scoring

namespace Triage

/-! ## Inputs -/

theorem lt_of_mem_activeInputs {x : Singles} {i : Nat} {v : Float32}
    (h : (i, v) ∈ activeInputs x) : i < x.size := by
  obtain ⟨⟨w, k⟩, hmem, hsome⟩ := List.mem_filterMap.1 h
  simp only at hsome
  split at hsome
  · cases hsome
  · cases hsome
    have hget := List.mem_zipIdx_iff_getElem?.1 hmem
    rw [Array.getElem?_toList] at hget
    exact (Array.getElem?_eq_some_iff.1 hget).1

/-! ## Slices -/

/-- The members from one place up to another, unless there is no such range. -/
def slice? {α : Type} (xs : Array α) (first last : Nat) : Option (Array α) :=
  if first ≤ last ∧ last ≤ xs.size then some (xs.extract first last) else none

/-- A vector changed place by place by another; where that one has no member it stays. -/
def zipInto (f : Float32 → Float32 → Float32) (xs ys : Singles) : Singles :=
  xs.mapIdx fun j x => ys[j]?.elim x (f x)

theorem zipInto_ofFn {n : Nat} (f : Float32 → Float32 → Float32) (a : Fin n → Float32)
    {ys : Singles} (h : ys.size = n) :
    zipInto f (Array.ofFn a) ys = Array.ofFn fun j => f (a j) (ys.getD j 0) := by
  refine Array.ext (by simp [zipInto]) fun j hj _ => ?_
  have hlt : j < ys.size := by simpa [zipInto, h] using hj
  simp [zipInto, hlt]

/-- One of the rows that an array is made up of, all of one width. -/
theorem slice?_row {α : Type} {xs : Array α} {rows width i : Nat} (hs : xs.size = rows * width)
    (hi : i < rows) (d : α) : slice? xs (i * width) ((i + 1) * width) =
      some (Array.ofFn fun j : Fin width => xs.getD (i * width + j) d) := by
  have hlast : (i + 1) * width ≤ xs.size := by
    rw [hs]
    exact Nat.mul_le_mul_right width hi
  have hwidth : (i + 1) * width = i * width + width := Nat.succ_mul i width
  rw [slice?, if_pos ⟨by omega, hlast⟩]
  refine congrArg some (Array.ext ?_ fun j hj _ => ?_)
  · rw [Array.size_extract, Array.size_ofFn]
    omega
  · have hlt : i * width + j < xs.size := by
      rw [Array.size_extract] at hj
      omega
    simp [hlt]

/-! ## Rows -/

/-- A number, unless it has more than 64 bits. -/
def word? (n : Nat) : Option Nat :=
  if n < UInt64.size then some n else none

/-- A row of an array of rows of one width, unless it is not there or an end of it is no number of
64 bits. -/
def row? {α : Type} (xs : Array α) (width i : Nat) : Option (Array α) := do
  let first ← word? (i * width)
  let last ← word? ((i + 1) * width)
  slice? xs first last

theorem word?_eq {n : Nat} (h : n < UInt64.size) : word? n = some n :=
  if_pos h

theorem row_le {rows width i : Nat} (hi : i < rows) : i * width + width ≤ rows * width := by
  rw [← Nat.succ_mul]
  exact Nat.mul_le_mul_right width hi

theorem row?_eq_slice? {α : Type} {xs : Array α} {rows width i : Nat}
    (hw : rows * width < UInt64.size) (hi : i < rows) :
    row? xs width i = slice? xs (i * width) ((i + 1) * width) := by
  have hle : i * width + width ≤ rows * width := row_le hi
  have hlast : (i + 1) * width < UInt64.size := by
    rw [Nat.succ_mul]
    omega
  have hfirst : i * width < UInt64.size := by omega
  rw [row?, word?_eq hfirst, word?_eq hlast]
  rfl

/-- A row is there if the array is as long as its rows are, and that is a number of 64 bits. -/
theorem row?_eq {α : Type} {xs : Array α} {rows width i : Nat} (hs : xs.size = rows * width)
    (hw : rows * width < UInt64.size) (hi : i < rows) (d : α) :
    row? xs width i = some (Array.ofFn fun j : Fin width => xs.getD (i * width + j) d) := by
  rw [row?_eq_slice? hw hi, slice?_row hs hi d]

end Triage
