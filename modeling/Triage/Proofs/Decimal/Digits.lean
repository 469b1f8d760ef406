/-
Decimal digits. The digits of a natural number denote that number, and none of them but a single
zero begins with one; and digits are read off a text as far as they go.
-/
import Mathlib.Algebra.Group.Nat.Defs
import Triage.Decimal.Layout
import Triage.Decimal.Literal

namespace Triage.Decimal

/-! ## Digits of numbers -/

theorem naturalOf_eq (digits : List Char) : naturalOf digits = Nat.ofDigitChars 10 digits 0 := by
  unfold naturalOf
  rw [Nat.ofDigitChars_eq_foldl]
  simp only [Nat.mul_comm 10]

theorem naturalOf_digitsOf (n : Nat) : naturalOf (digitsOf n) = n := by
  rw [naturalOf_eq]
  exact Nat.ofDigitChars_ten_toDigits

/-- Digits put behind others. -/
theorem naturalOf_append (a b : List Char) :
    naturalOf (a ++ b) = naturalOf a * 10 ^ b.length + naturalOf b := by
  rw [naturalOf_eq, naturalOf_eq, naturalOf_eq, Nat.ofDigitChars_append,
    Nat.ofDigitChars_eq_ofDigitChars_zero, Nat.mul_comm]

theorem naturalOf_zeros (n : Nat) : naturalOf (List.replicate n '0') = 0 := by
  rw [naturalOf_eq, Nat.ofDigitChars_replicate_zero, Nat.mul_zero]

theorem digitsOf_ne_nil (n : Nat) : digitsOf n ≠ [] := Nat.toDigits_ne_nil

theorem isDigit_digitsOf {n : Nat} : ∀ c ∈ digitsOf n, c.isDigit = true :=
  fun _ hc => Nat.isDigit_of_mem_toDigits (by decide) (by decide) hc

theorem digitsOf_of_le {n : Nat} (h : 10 ≤ n) :
    digitsOf n = digitsOf (n / 10) ++ [Nat.digitChar (n % 10)] :=
  Nat.toDigits_of_base_le (by decide) h

/-- Only the digits of zero begin with a zero. -/
theorem head?_digitsOf {n : Nat} (h : n ≠ 0) : (digitsOf n).head? ≠ some '0' := by
  induction n using Nat.strongRecOn with
  | _ n ih =>
    by_cases hn : n < 10
    · have hd : digitsOf n = [Nat.digitChar n] := Nat.toDigits_of_lt_base hn
      rw [hd]
      revert h
      clear ih hd
      revert n
      decide
    · have hle : 10 ≤ n := Nat.le_of_not_lt hn
      have htail := ih (n / 10) (Nat.div_lt_self (by omega) (by decide)) (by omega)
      rw [digitsOf_of_le hle]
      cases hd : digitsOf (n / 10) with
      | nil => exact absurd hd (digitsOf_ne_nil _)
      | cons c rest => rwa [hd] at htail

/-! ## Reading digits -/

/-- Digits are taken as far as they go. -/
theorem spanDigits_append {digits rest : List Char} (h : ∀ c ∈ digits, c.isDigit = true)
    (hr : ∀ c, rest.head? = some c → c.isDigit = false) :
    spanDigits (digits ++ rest) = (digits, rest) := by
  have hstop : rest.takeWhile Char.isDigit = [] ∧ rest.dropWhile Char.isDigit = rest := by
    cases rest with
    | nil => exact ⟨rfl, rfl⟩
    | cons c more =>
      have hc := hr c rfl
      exact ⟨List.takeWhile_cons_of_neg (by simp [hc]), List.dropWhile_cons_of_neg (by simp [hc])⟩
  unfold spanDigits
  rw [List.takeWhile_append_of_pos h, List.dropWhile_append_of_pos h, hstop.1, hstop.2,
    List.append_nil]

theorem spanDigits_all {digits : List Char} (h : ∀ c ∈ digits, c.isDigit = true) :
    spanDigits digits = (digits, []) := by
  have hspan : spanDigits (digits ++ []) = (digits, []) :=
    spanDigits_append h fun c hc => by cases hc
  rwa [List.append_nil] at hspan

end Triage.Decimal
