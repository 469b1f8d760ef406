/-
Quotients of natural numbers in double precision. A product of two of them that is divided by a
third is rounded twice, so in all it is off by no more than a `2^51`st part, and it is below one
just if the exact quotient is. Where the product has at most 52 bits it is not rounded, and then the
floor is that of the exact quotient and what is left keeps the order of the remainders; but equal
remainders may be rounded to unlike rests, unless they have few bits behind the point.
-/
import Triage.Proofs.Number.Value

namespace Triage.Number

variable {n t c j k : Nat} {u v w p : ℚ}

theorem div_add_mod_div (hn : 0 < n) (k : Nat) :
    (k : ℚ) / n = (k / n : ℕ) + ((k % n : ℕ) : ℚ) / n := by
  have hpos : (0 : ℚ) < n := by exact_mod_cast hn
  have hk : (k : ℚ) = n * (k / n : ℕ) + (k % n : ℕ) := by exact_mod_cast (Nat.div_add_mod k n).symm
  rw [hk]
  field_simp

theorem div_le_one_sub (h : k < n) : (k : ℚ) / n ≤ 1 - 1 / n := by
  have hpos : (0 : ℚ) < n := by exact_mod_cast Nat.zero_lt_of_lt h
  have hsucc : (k : ℚ) + 1 ≤ n := by exact_mod_cast h
  rw [div_le_iff₀ hpos, sub_mul, div_mul_cancel₀ _ hpos.ne']
  linarith

/-! ## Quotients of products -/

/-- A product that is divided is a real rounded twice. -/
theorem share_value (hc : 0 < c) (hcn : c ≤ n) (ht : 0 < t) (htn : t ≤ n) (hn : n < 2 ^ 53) :
    ∃ p w, RoundsTo (c * t) p ∧ RoundsTo (p / n) w ∧
      HasValue (Float.ofNat c * Float.ofNat t / Float.ofNat n) w := by
  have hc1 : (1 : ℚ) ≤ c := by exact_mod_cast hc
  have ht1 : (1 : ℚ) ≤ t := by exact_mod_cast ht
  have hn1 : (1 : ℚ) ≤ n := by exact_mod_cast hc.trans_le hcn
  have hn53 : (n : ℚ) ≤ 2 ^ (53 : ℤ) := by exact_mod_cast hn.le
  have hprod : (c : ℚ) * t ≤ 2 ^ (106 : ℤ) := by
    have hc53 : (c : ℚ) ≤ 2 ^ (53 : ℤ) := le_trans (by exact_mod_cast hcn) hn53
    have ht53 : (t : ℚ) ≤ 2 ^ (53 : ℤ) := le_trans (by exact_mod_cast htn) hn53
    calc (c : ℚ) * t ≤ 2 ^ (53 : ℤ) * 2 ^ (53 : ℤ) :=
          mul_le_mul hc53 ht53 (by linarith) (zpow_two_pos 53).le
      _ = 2 ^ (106 : ℤ) := by norm_num
  have hprod1 : (2 : ℚ) ^ (0 : ℤ) ≤ c * t := by
    rw [zpow_zero]
    exact one_le_mul_of_one_le_of_one_le hc1 ht1
  obtain ⟨p, hp, hp1, hp106⟩ := exists_roundsTo_between (by norm_num) (by norm_num) hprod1 hprod
  rw [zpow_zero] at hp1
  have hquot : (2 : ℚ) ^ (-53 : ℤ) ≤ p / n := by
    rw [le_div_iff₀ (by linarith)]
    calc (2 : ℚ) ^ (-53 : ℤ) * n ≤ 2 ^ (-53 : ℤ) * 2 ^ (53 : ℤ) :=
          mul_le_mul_of_nonneg_left hn53 (zpow_two_pos _).le
      _ = 1 := by norm_num
      _ ≤ p := hp1
  obtain ⟨w, hw, -⟩ := exists_roundsTo_between (by norm_num) (by norm_num) hquot
    ((div_le_self (by linarith) hn1).trans hp106)
  have hx := hasValue_ofNat hc (by omega)
  have hy := hasValue_ofNat ht (by omega)
  have hz := hasValue_ofNat (hc.trans_le hcn) hn
  exact ⟨p, w, hp, hw, (hx.mul hy hc1 ht1 hp).div hz (by linarith) (by linarith) hw⟩

/-- Both roundings together are off by no more than a `2^51`st part. -/
theorem share_error (hn : 0 < n) (hp : RoundsTo u p) (hw : RoundsTo (p / n) w)
    (hu : 0 ≤ u) : |w - u / n| ≤ u / n / 2 ^ 51 := by
  have hpos : (0 : ℚ) < n := by exact_mod_cast hn
  obtain ⟨hplow, hphigh⟩ := abs_le.1 hp.error
  obtain ⟨hwlow, hwhigh⟩ := abs_le.1 hw.error
  have hdiv : |p / n - u / n| ≤ u / n / 2 ^ 53 := by
    rw [← sub_div, abs_div, abs_of_pos hpos, div_right_comm]
    exact div_le_div_of_nonneg_right hp.error hpos.le
  obtain ⟨hlow, hhigh⟩ := abs_le.1 hdiv
  have hshare : 0 ≤ u / n := div_nonneg hu hpos.le
  rw [abs_le]
  constructor <;> linarith

/-- A share is at least one if its exact value is. -/
theorem one_le_share (hn : 0 < n) (hn53 : n < 2 ^ 53)
    (hp : RoundsTo (k : ℚ) p) (hw : RoundsTo (p / n) w) : 1 ≤ w ↔ n ≤ k := by
  have hpos : (0 : ℚ) < n := by exact_mod_cast hn
  constructor
  · intro hone
    by_contra hlt
    have hexact : p = k := hp.eq_natCast (by omega) rfl
    have hbelow := div_le_one_sub (not_le.1 hlt)
    have hstep : 1 / (2 : ℚ) ^ 53 < 1 / n := one_div_lt_one_div_of_lt hpos (by exact_mod_cast hn53)
    have herror := (abs_le.1 hw.error).2
    rw [hexact] at herror
    have : (0 : ℚ) < 1 / n := by positivity
    linarith
  · intro hle
    have hpn : (n : ℚ) ≤ p := hp.natCast_le hn53 (by exact_mod_cast hle)
    have := hw.natCast_le (k := 1) (by norm_num) (by
      rw [Nat.cast_one, le_div_iff₀ hpos, one_mul]
      exact hpn)
    exact_mod_cast this

/-! ## Quotients of small numbers -/

/-- A quotient of small numbers is not rounded up to the next whole number. -/
theorem floor_quotient (hn : 0 < n) (hk : k < 2 ^ 52) (hw : RoundsTo ((k : ℚ) / n) w) :
    ⌊w⌋₊ = k / n := by
  have hpos : (0 : ℚ) < n := by exact_mod_cast hn
  have hcast : (k : ℚ) < 2 ^ 52 := by exact_mod_cast hk
  have hlow : ((k / n : ℕ) : ℚ) ≤ w :=
    hw.natCast_le (lt_of_le_of_lt (Nat.div_le_self k n) (by omega)) Nat.cast_div_le
  refine (Nat.floor_eq_iff ((Nat.cast_nonneg _).trans hlow)).2 ⟨hlow, ?_⟩
  have herror := (abs_le.1 hw.error).2
  have hrest := div_le_one_sub (Nat.mod_lt k hn)
  have hsmall : (k : ℚ) / n / 2 ^ 53 < 1 / n := by
    rw [div_div, div_lt_div_iff₀ (by positivity) hpos]
    nlinarith
  have hsplit := div_add_mod_div hn k
  linarith

/-- What is left of a quotient keeps the order of the remainders. -/
theorem rest_lt (hn : 0 < n) (hj : j < 2 ^ 52) (hk : k < 2 ^ 52) (hjk : j % n < k % n)
    (hv : RoundsTo ((j : ℚ) / n) v) (hw : RoundsTo ((k : ℚ) / n) w) :
    v - ⌊v⌋₊ < w - ⌊w⌋₊ := by
  have hpos : (0 : ℚ) < n := by exact_mod_cast hn
  have hjcast : (j : ℚ) < 2 ^ 52 := by exact_mod_cast hj
  have hkcast : (k : ℚ) < 2 ^ 52 := by exact_mod_cast hk
  rw [floor_quotient hn hj hv, floor_quotient hn hk hw]
  have hjerror := (abs_le.1 hv.error).2
  have hkerror := (abs_le.1 hw.error).1
  have hjsplit := div_add_mod_div hn j
  have hksplit := div_add_mod_div hn k
  have hstep : ((j % n : ℕ) : ℚ) / n + 1 / n ≤ ((k % n : ℕ) : ℚ) / n := by
    rw [← add_div]
    exact div_le_div_of_nonneg_right (by exact_mod_cast hjk) hpos.le
  -- The two errors together are less than the least difference of remainders.
  have herrors : (j : ℚ) / n / 2 ^ 53 + (k : ℚ) / n / 2 ^ 53 < 1 / n := by
    rw [← add_div, ← add_div, div_div, div_lt_div_iff₀ (by positivity) hpos]
    nlinarith
  linarith

/-- A remainder with few bits after the point is kept as it is. -/
theorem quotient_exact (hn : 0 < n) (hk : k < 2 ^ 26 * n) (hdvd : n ∣ k % n * 2 ^ 27)
    (hw : RoundsTo ((k : ℚ) / n) w) : w = k / n := by
  have hpos : (0 : ℚ) < n := by exact_mod_cast hn
  obtain ⟨r, hr⟩ := hdvd
  have hrest : ((k % n : ℕ) : ℚ) / n = r * 2 ^ (-27 : ℤ) := by
    have hcast : ((k % n : ℕ) : ℚ) * 2 ^ 27 = n * r := by exact_mod_cast hr
    rw [div_eq_iff hpos.ne', zpow_neg, ← div_eq_mul_inv, div_mul_eq_mul_div,
      eq_div_iff (by positivity), mul_comm (r : ℚ)]
    exact_mod_cast hcast
  have hgrid : (k : ℚ) / n = ((k / n * 2 ^ 27 + r : ℕ) : ℚ) * 2 ^ (-27 : ℤ) := by
    rw [div_add_mod_div hn k, hrest]
    push_cast
    rw [add_mul, mul_assoc]
    norm_num
  refine hw.eq_grid ?_ hgrid
  have hwhole : k / n < 2 ^ 26 := (Nat.div_lt_iff_lt_mul hn).2 hk
  have hbits : r < 2 ^ 27 := by
    have hlt : k % n * 2 ^ 27 < n * 2 ^ 27 :=
      Nat.mul_lt_mul_of_pos_right (Nat.mod_lt k hn) (by norm_num)
    rw [hr] at hlt
    exact Nat.lt_of_mul_lt_mul_left hlt
  omega

end Triage.Number
