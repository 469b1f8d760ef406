/-
The checksum finds local damage. Shifting a bit out of the register is linear in exclusive or, and
takes nothing but zero to zero; so registers that differ go on to differ. Up to four bytes are taken
in as one number, all of it before any bit of it is shifted out; so if bytes differ within four
places next to one another, the registers differ behind them, and whatever follows leaves them
different (`checksum_ne`).
-/
import Mathlib
import Triage.Proofs.Model.Format

namespace Triage

namespace Checksum

/-! ## One bit -/

theorem xor_cancel (a b p : UInt32) : a ^^^ p ^^^ (b ^^^ p) = a ^^^ b := by
  calc a ^^^ p ^^^ (b ^^^ p) = a ^^^ b ^^^ (p ^^^ p) := by ac_rfl
    _ = a ^^^ b := by rw [UInt32.xor_self, UInt32.xor_zero]

theorem low_xor (a b : UInt32) : (a ^^^ b) &&& 1 = (a &&& 1) ^^^ (b &&& 1) := by
  apply UInt32.toBitVec_inj.1
  ext i
  simp [Bool.and_xor_distrib_right]

theorem low_cases (r : UInt32) : r &&& 1 = 0 ∧ r.toNat % 2 = 0 ∨ r &&& 1 = 1 ∧ r.toNat % 2 = 1 := by
  have hand : (r &&& 1).toNat = r.toNat % 2 := by
    rw [UInt32.toNat_and]
    exact Nat.and_one_is_mod r.toNat
  rcases Nat.mod_two_eq_zero_or_one r.toNat with h | h
  · exact .inl ⟨UInt32.toNat_inj.1 (by rw [hand, h]; rfl), h⟩
  · exact .inr ⟨UInt32.toNat_inj.1 (by rw [hand, h]; rfl), h⟩

theorem bitStep_even {r : UInt32} (h : r &&& 1 = 0) : bitStep r = r >>> 1 := by
  unfold bitStep
  rw [h, if_neg (by decide)]

theorem bitStep_odd {r : UInt32} (h : r &&& 1 = 1) : bitStep r = (r >>> 1) ^^^ 0xedb88320 :=
  if_pos h

theorem bitStep_xor (a b : UInt32) : bitStep (a ^^^ b) = bitStep a ^^^ bitStep b := by
  have hlow := low_xor a b
  have hshift : (a ^^^ b) >>> 1 = (a >>> 1) ^^^ (b >>> 1) := UInt32.shiftRight_xor
  rcases low_cases a with ⟨ha, -⟩ | ⟨ha, -⟩ <;> rcases low_cases b with ⟨hb, -⟩ | ⟨hb, -⟩ <;>
    rw [ha, hb] at hlow
  · rw [bitStep_even hlow, bitStep_even ha, bitStep_even hb, hshift]
  · rw [bitStep_odd hlow, bitStep_even ha, bitStep_odd hb, hshift, UInt32.xor_assoc]
  · rw [bitStep_odd hlow, bitStep_odd ha, bitStep_even hb, hshift]
    ac_rfl
  · rw [bitStep_even hlow, bitStep_odd ha, bitStep_odd hb, hshift]
    exact (xor_cancel _ _ _).symm

theorem toNat_half (r : UInt32) : (r >>> 1).toNat = r.toNat / 2 := by
  rw [UInt32.toNat_shiftRight]
  exact Nat.shiftRight_one r.toNat

theorem eq_zero_of_bitStep {r : UInt32} (h : bitStep r = 0) : r = 0 := by
  have hlt := r.toNat_lt
  have hhalf := toNat_half r
  rcases low_cases r with ⟨hr, hmod⟩ | ⟨hr, -⟩
  · rw [bitStep_even hr] at h
    rw [h, UInt32.toNat_zero] at hhalf
    exact UInt32.toNat_inj.1 (by rw [UInt32.toNat_zero]; omega)
  · -- The highest bit is set in the polynomial and in no number that has been halved.
    rw [bitStep_odd hr, UInt32.xor_eq_zero_iff] at h
    have hpoly : (0xedb88320 : UInt32).toNat = 3988292384 := rfl
    rw [h, hpoly] at hhalf
    omega

theorem bitStep_injective : Function.Injective bitStep := by
  intro a b h
  apply UInt32.xor_eq_zero_iff.1
  apply eq_zero_of_bitStep
  rw [bitStep_xor, h, UInt32.xor_self]

theorem bitStep_double {n : Nat} (h : 2 * n < 2 ^ 32) :
    bitStep (UInt32.ofNat (2 * n)) = UInt32.ofNat n := by
  have hto : (UInt32.ofNat (2 * n)).toNat = 2 * n := UInt32.toNat_ofNat_of_lt' h
  rcases low_cases (UInt32.ofNat (2 * n)) with ⟨hr, -⟩ | ⟨-, hmod⟩
  · rw [bitStep_even hr]
    apply UInt32.toNat_inj.1
    rw [toNat_half, hto, UInt32.toNat_ofNat_of_lt' (by rw [UInt32.size]; omega)]
    omega
  · rw [hto] at hmod
    omega

/-! ## Bits one after the other -/

theorem repeat_eq_iterate {α : Type} (f : α → α) (n : Nat) (a : α) :
    Nat.repeat f n a = f^[n] a := by
  induction n with
  | zero => rfl
  | succ n ih => rw [Function.iterate_succ_apply', ← ih, Nat.repeat]

theorem iterate_xor (n : Nat) (a b : UInt32) :
    bitStep^[n] (a ^^^ b) = bitStep^[n] a ^^^ bitStep^[n] b := by
  induction n with
  | zero => rfl
  | succ n ih => simp only [Function.iterate_succ_apply', ih, bitStep_xor]

/-- As many bits are shifted out as there are zeros at the lower end. -/
theorem iterate_shifted {k n : Nat} (h : 2 ^ k * n < 2 ^ 32) :
    bitStep^[k] (UInt32.ofNat (2 ^ k * n)) = UInt32.ofNat n := by
  induction k generalizing n with
  | zero => rw [Nat.pow_zero, Nat.one_mul]; rfl
  | succ k ih =>
    rw [Nat.pow_succ, Nat.mul_assoc] at h ⊢
    have hn : 2 * n < 2 ^ 32 := (Nat.le_mul_of_pos_left _ (Nat.two_pow_pos k)).trans_lt h
    rw [Function.iterate_succ_apply', ih h, bitStep_double hn]

theorem byteStep_eq (r : UInt32) (b : UInt8) : byteStep r b = bitStep^[8] (r ^^^ b.toUInt32) :=
  repeat_eq_iterate bitStep 8 _

/-! ## Bytes -/

theorem foldl_byteStep_injective (bs : List UInt8) :
    Function.Injective fun r => bs.foldl byteStep r := by
  induction bs with
  | nil => exact fun a b h => h
  | cons b bs ih =>
    intro r s h
    have hstep : byteStep r b = byteStep s b := ih h
    rw [byteStep_eq, byteStep_eq] at hstep
    exact (UInt32.xor_left_inj _).1 (bitStep_injective.iterate 8 hstep)

/-- Bytes are put in front of one another by exclusive or. -/
theorem ofNat_cons (b : UInt8) (n : Nat) :
    UInt32.ofNat (b.toNat + 2 ^ 8 * n) = b.toUInt32 ^^^ UInt32.ofNat (2 ^ 8 * n) := by
  have hb : b.toNat < 2 ^ 8 := b.toNat_lt
  have hxor : b.toNat + 2 ^ 8 * n = b.toNat ^^^ 2 ^ 8 * n := by
    apply Nat.eq_of_testBit_eq
    intro i
    rw [Nat.add_comm, Nat.testBit_two_pow_mul_add n hb, Nat.testBit_xor, Nat.testBit_two_pow_mul]
    by_cases hi : i < 8
    · simp [hi, Nat.not_le.2 hi]
    · have hle : 8 ≤ i := Nat.le_of_not_lt hi
      have hzero : b.toNat.testBit i = false :=
        Nat.testBit_lt_two_pow (hb.trans_le (Nat.pow_le_pow_right (by decide) hle))
      simp [hi, hle, hzero]
  rw [hxor, UInt32.ofNat_xor]
  congr 1
  exact UInt32.toNat_inj.1 (by simp)

/-- Four bytes at most are taken in as one number, before any bit is shifted out. -/
theorem foldl_byteStep_eq {bs : List UInt8} (h : bs.length ≤ 4) (r : UInt32) :
    bs.foldl byteStep r = bitStep^[8 * bs.length] (r ^^^ UInt32.ofNat (ofLittleEndian bs)) := by
  induction bs generalizing r with
  | nil => exact UInt32.xor_zero.symm
  | cons b bs ih =>
    rw [List.length_cons] at h
    have hlt : 2 ^ 8 * ofLittleEndian bs < 2 ^ 32 := by
      have hbound := ofLittleEndian_lt bs
      have hpow : 256 ^ bs.length ≤ 256 ^ 3 := Nat.pow_le_pow_right (by decide) (by omega)
      omega
    calc (b :: bs).foldl byteStep r
        = bitStep^[8 * bs.length] (byteStep r b ^^^ UInt32.ofNat (ofLittleEndian bs)) :=
          ih (by omega) (byteStep r b)
      _ = bitStep^[8 * bs.length] (bitStep^[8]
            (r ^^^ b.toUInt32 ^^^ UInt32.ofNat (2 ^ 8 * ofLittleEndian bs))) := by
          rw [iterate_xor 8, iterate_shifted hlt, byteStep_eq]
      _ = bitStep^[8 * (b :: bs).length] (r ^^^ UInt32.ofNat (ofLittleEndian (b :: bs))) := by
          rw [← Function.iterate_add_apply, UInt32.xor_assoc, ← ofNat_cons]
          rfl

theorem ofLittleEndian_injective {as bs : List UInt8} (hl : as.length = bs.length)
    (h : ofLittleEndian as = ofLittleEndian bs) : as = bs := by
  rw [← littleEndian_ofLittleEndian as, ← littleEndian_ofLittleEndian bs, hl, h]

theorem ofNat_ofLittleEndian_injective {as bs : List UInt8} (hl : as.length = bs.length)
    (h4 : bs.length ≤ 4)
    (h : UInt32.ofNat (ofLittleEndian as) = UInt32.ofNat (ofLittleEndian bs)) : as = bs := by
  have hlt (cs : List UInt8) (hc : cs.length ≤ 4) : ofLittleEndian cs < UInt32.size :=
    (ofLittleEndian_lt cs).trans_le (Nat.pow_le_pow_right (by decide) hc)
  have hnat := congrArg UInt32.toNat h
  rw [UInt32.toNat_ofNat_of_lt' (hlt as (hl.trans_le h4)),
    UInt32.toNat_ofNat_of_lt' (hlt bs h4)] at hnat
  exact ofLittleEndian_injective hl hnat

theorem foldl_byteStep_window {as bs : List UInt8} (hl : as.length = bs.length)
    (h4 : bs.length ≤ 4) {r : UInt32} (h : as.foldl byteStep r = bs.foldl byteStep r) :
    as = bs := by
  rw [foldl_byteStep_eq (hl.trans_le h4), foldl_byteStep_eq h4, hl] at h
  exact ofNat_ofLittleEndian_injective hl h4
    ((UInt32.xor_right_inj _).1 (bitStep_injective.iterate _ h))

end Checksum

/-- Bytes that differ within four places next to one another have different checksums. -/
theorem checksum_ne {front as bs back : List UInt8} (hl : as.length = bs.length)
    (h4 : bs.length ≤ 4) (hne : as ≠ bs) :
    checksum (front ++ as ++ back) ≠ checksum (front ++ bs ++ back) := by
  intro h
  unfold checksum at h
  have hregister := (UInt32.xor_left_inj _).1 h
  rw [List.foldl_append, List.foldl_append, List.foldl_append, List.foldl_append] at hregister
  exact hne (Checksum.foldl_byteStep_window hl h4
    (Checksum.foldl_byteStep_injective back hregister))

/-- The check value of the polynomial. -/
example : checksum "123456789".toUTF8.toList = 0xcbf43926 := by
  decide +kernel

/-! ## Damage -/

/-- Whether bytes were damaged without being made more or fewer, and only from one place up to
another. -/
structure DamagedWithin (start stop : Nat) (bytes damaged : List UInt8) : Prop where
  length : damaged.length = bytes.length
  ne : damaged ≠ bytes
  outside : ∀ i, i < start ∨ stop ≤ i → damaged[i]? = bytes[i]?

namespace DamagedWithin

variable {start stop n : Nat} {bytes damaged : List UInt8}

theorem take_eq (h : DamagedWithin start stop bytes damaged) (hn : n ≤ start) :
    damaged.take n = bytes.take n := by
  apply List.ext_getElem?
  intro i
  rw [List.getElem?_take, List.getElem?_take]
  split
  · exact h.outside i (.inl (by omega))
  · rfl

theorem drop_eq (h : DamagedWithin start stop bytes damaged) (hn : stop ≤ n) :
    damaged.drop n = bytes.drop n := by
  apply List.ext_getElem?
  intro i
  rw [List.getElem?_drop, List.getElem?_drop]
  exact h.outside (n + i) (.inr (by omega))

theorem drop_ne (h : DamagedWithin start stop bytes damaged) (hn : n ≤ start) :
    damaged.drop n ≠ bytes.drop n := by
  intro heq
  apply h.ne
  rw [← List.take_append_drop n damaged, h.take_eq hn, heq, List.take_append_drop]

/-- What stands before a place behind the damage is damaged itself. -/
theorem take (h : DamagedWithin start stop bytes damaged) (hn : stop ≤ n) :
    DamagedWithin start stop (bytes.take n) (damaged.take n) := by
  constructor
  · rw [List.length_take, List.length_take, h.length]
  · intro heq
    apply h.ne
    rw [← List.take_append_drop n damaged, heq, h.drop_eq hn, List.take_append_drop]
  · intro i hi
    rw [List.getElem?_take, List.getElem?_take, h.outside i hi]

theorem checksum_ne (h : DamagedWithin start stop bytes damaged) (h4 : stop ≤ start + 4) :
    checksum damaged ≠ checksum bytes := by
  have hsplit (bs : List UInt8) :
      bs.take start ++ (bs.drop start).take 4 ++ bs.drop (start + 4) = bs := by
    rw [List.append_assoc, ← List.drop_drop, List.take_append_drop, List.take_append_drop]
  have hfront : damaged.take start = bytes.take start := h.take_eq le_rfl
  have hback : damaged.drop (start + 4) = bytes.drop (start + 4) := h.drop_eq h4
  have hne : (damaged.drop start).take 4 ≠ (bytes.drop start).take 4 := by
    intro hwindow
    apply h.ne
    rw [← hsplit damaged, ← hsplit bytes, hfront, hwindow, hback]
  rw [← hsplit damaged, ← hsplit bytes, hfront, hback]
  refine Triage.checksum_ne ?_ (List.length_take_le _ _) hne
  simp only [List.length_take, List.length_drop, h.length]

end DamagedWithin

end Triage
