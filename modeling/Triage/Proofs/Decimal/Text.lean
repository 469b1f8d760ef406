/-
A finite double is read back from its text, whatever the layout: the text has digits with or without
a point and an exponent, these are read as a decimal of the value that was written, and that decimal
is near to no other double.
-/
import Triage.Proofs.Decimal.Digits
import Triage.Proofs.Decimal.Shortest
import Triage.Proofs.Number.Scientific
import Triage.Text.CharClass

namespace Triage.Decimal

/-! ## Digits in front -/

theorem ne_of_isDigit {c d : Char} (h : c.isDigit = true) (hd : d.isDigit = false) : c ≠ d := by
  rintro rfl
  rw [h] at hd
  cases hd

/-- A digit is no sign. -/
theorem spanSign_of_isDigit {c : Char} (h : c.isDigit = true) (rest : List Char) :
    spanSign (c :: rest) = (false, c :: rest) := by
  unfold spanSign
  split
  · rename_i heq
    cases heq
    cases h
  · rename_i heq
    cases heq
    cases h
  · rfl

theorem spanSign_digitsOf (n : Nat) : spanSign (digitsOf n) = (false, digitsOf n) := by
  obtain ⟨c, rest, hd⟩ := List.exists_cons_of_ne_nil (digitsOf_ne_nil n)
  rw [hd]
  exact spanSign_of_isDigit (isDigit_digitsOf c (by rw [hd]; exact List.mem_cons_self)) rest

/-! ## Exponents -/

/-- An exponent is read back. -/
theorem exponent?_integerText (n : ℤ) : exponent? ('e' :: integerText n) = some n := by
  have hne : (digitsOf n.natAbs).isEmpty = false := by
    simpa using digitsOf_ne_nil n.natAbs
  have hspan : spanDigits (digitsOf n.natAbs) = (digitsOf n.natAbs, []) :=
    spanDigits_all isDigit_digitsOf
  by_cases hn : n < 0
  · have hsign : spanSign (integerText n) = (true, digitsOf n.natAbs) := by
      unfold integerText
      rw [if_pos hn]
      rfl
    simp [exponent?, hsign, hspan, hne, naturalOf_digitsOf, abs_of_neg hn]
  · have hsign : spanSign (integerText n) = (false, digitsOf n.natAbs) := by
      unfold integerText
      rw [if_neg hn]
      exact spanSign_digitsOf n.natAbs
    simp [exponent?, hsign, hspan, hne, naturalOf_digitsOf, abs_of_nonneg (not_lt.1 hn)]

theorem mem_integerText {n : ℤ} {c : Char} (h : c ∈ integerText n) :
    c.isDigit = true ∨ c = '-' := by
  unfold integerText at h
  split at h
  · rcases List.mem_cons.1 h with rfl | h
    · exact .inr rfl
    · exact .inl (isDigit_digitsOf c h)
  · exact .inl (isDigit_digitsOf c h)

/-! ## Numerals -/

/-- A number as it is written: digits before a point, those after it, and perhaps an exponent. -/
structure Numeral where
  whole : List Char
  fraction : List Char
  exponent : Option ℤ
  whole_ne_nil : whole ≠ []
  isDigit_whole : ∀ c ∈ whole, c.isDigit = true
  isDigit_fraction : ∀ c ∈ fraction, c.isDigit = true

namespace Numeral

/-- The exponent of a numeral as text. -/
def tail (n : Numeral) : List Char :=
  n.exponent.elim [] fun e => 'e' :: integerText e

/-- A numeral as text. Without digits after it there is no point. -/
def text (n : Numeral) : List Char :=
  n.whole ++ ((if n.fraction = [] then [] else '.' :: n.fraction) ++ n.tail)

/-- What a numeral denotes. -/
def digits (n : Numeral) : Digits :=
  ⟨naturalOf (n.whole ++ n.fraction), n.exponent.getD 0 - n.fraction.length⟩

theorem exponent?_tail (n : Numeral) : exponent? n.tail = some (n.exponent.getD 0) := by
  unfold tail
  cases n.exponent with
  | none => rfl
  | some e => exact exponent?_integerText e

theorem head?_tail {n : Numeral} {c : Char} (h : n.tail.head? = some c) : c = 'e' := by
  unfold tail at h
  cases he : n.exponent with
  | none =>
    rw [he] at h
    cases h
  | some e =>
    rw [he] at h
    cases h
    rfl

/-- The digits after the point are read as far as they go, and none where there is no point. -/
theorem spanFraction_text (n : Numeral) :
    spanFraction ((if n.fraction = [] then [] else '.' :: n.fraction) ++ n.tail) =
      (n.fraction, n.tail) := by
  split
  · rename_i hnil
    rw [hnil, List.nil_append]
    unfold spanFraction
    split
    · rename_i rest heq
      have hpoint := head?_tail (n := n) (c := '.') (by rw [heq]; rfl)
      cases hpoint
    · rfl
  · show spanDigits (n.fraction ++ n.tail) = _
    refine spanDigits_append n.isDigit_fraction fun c hc => ?_
    rw [head?_tail hc]
    rfl

/-- A numeral is read as what it denotes. -/
theorem unsigned?_text (n : Numeral) : unsigned? n.text = some n.digits := by
  have hwhole : spanDigits n.text =
      (n.whole, (if n.fraction = [] then [] else '.' :: n.fraction) ++ n.tail) := by
    refine spanDigits_append n.isDigit_whole fun c hc => ?_
    split at hc
    · rw [head?_tail hc]
      rfl
    · cases hc
      rfl
  have hne : n.whole.isEmpty = false := by simpa using n.whole_ne_nil
  unfold unsigned?
  simp [hwhole, n.spanFraction_text, hne, n.exponent?_tail, digits]

/-- A numeral begins with a digit. -/
theorem text_eq_cons (n : Numeral) : ∃ c rest, n.text = c :: rest ∧ c.isDigit = true := by
  obtain ⟨c, rest, hw⟩ := List.exists_cons_of_ne_nil n.whole_ne_nil
  have hc : c.isDigit = true := n.isDigit_whole c (by rw [hw]; exact List.mem_cons_self)
  exact ⟨c, rest ++ ((if n.fraction = [] then [] else '.' :: n.fraction) ++ n.tail), by
    rw [text, hw, List.cons_append], hc⟩

theorem mem_text {n : Numeral} {c : Char} (h : c ∈ n.text) :
    c.isDigit = true ∨ c = '.' ∨ c = 'e' ∨ c = '-' := by
  unfold text at h
  rcases List.mem_append.1 h with h | h
  · exact .inl (n.isDigit_whole c h)
  rcases List.mem_append.1 h with h | h
  · split at h
    · cases h
    · rcases List.mem_cons.1 h with rfl | h
      · exact .inr (.inl rfl)
      · exact .inl (n.isDigit_fraction c h)
  · unfold tail at h
    cases he : n.exponent with
    | none =>
      rw [he] at h
      cases h
    | some e =>
      rw [he] at h
      rcases List.mem_cons.1 h with rfl | h
      · exact .inr (.inr (.inl rfl))
      · rcases mem_integerText h with h | h
        · exact .inl h
        · exact .inr (.inr (.inr h))

theorem toLower_of_isDigit {c : Char} (h : c.isDigit = true) : c.toLower = c := by
  unfold Char.isDigit at h
  unfold Char.toLower
  rw [dif_neg]
  intro hupper
  have h9 := (Bool.and_eq_true _ _ ▸ h).2
  exact absurd (UInt32.le_trans hupper.1 (of_decide_eq_true h9)) (by decide)

/-- A numeral is none of the names for infinity and NaN. -/
theorem literal?_text (n : Numeral) : literal? n.text = some (.decimal n.digits) := by
  obtain ⟨c, rest, htext, hc⟩ := n.text_eq_cons
  have hname (d : Char) (more : List Char) (hd : d.isDigit = false) :
      n.text.map Char.toLower ≠ d :: more := by
    rw [htext, List.map_cons, toLower_of_isDigit hc]
    exact fun h => ne_of_isDigit hc hd (List.cons.inj h).1
  unfold literal?
  simp only
  rw [if_neg (hname _ _ rfl), if_neg (not_or.2 ⟨hname _ _ rfl, hname _ _ rfl⟩),
    n.unsigned?_text]
  rfl

end Numeral

/-! ## Layouts -/

section

variable {digits : List Char}

theorem isDigit_zeros (n : Nat) : ∀ c ∈ List.replicate n '0', c.isDigit = true := by
  intro c hc
  rw [List.eq_of_mem_replicate hc]
  rfl

/-- Zeros behind the digits of a whole number, before the point and after it. -/
theorem exists_numeral_whole (l : Layout) (hne : digits ≠ [])
    (hd : ∀ c ∈ digits, c.isDigit = true) {e : ℤ} (he : 0 ≤ e) :
    ∃ n : Numeral, n.text = l.positional digits e ∧
      n.digits.value = (⟨naturalOf digits, e⟩ : Digits).value := by
  have hwhole : ∀ c ∈ digits ++ List.replicate e.toNat '0', c.isDigit = true := by
    intro c hc
    rcases List.mem_append.1 hc with hc | hc
    · exact hd c hc
    · exact isDigit_zeros e.toNat c hc
  have hnatural : naturalOf (digits ++ List.replicate e.toNat '0') =
      naturalOf digits * 10 ^ e.toNat := by
    rw [naturalOf_append, naturalOf_zeros, List.length_replicate, Nat.add_zero]
  have hpow : (10 : ℚ) ^ e = 10 ^ e.toNat := by
    rw [← zpow_natCast, Int.toNat_of_nonneg he]
  refine ⟨⟨digits ++ List.replicate e.toNat '0', if l.pointZero then ['0'] else [], none,
    by simp [hne], hwhole, ?_⟩, ?_, ?_⟩
  · split
    · exact isDigit_zeros 1
    · exact fun c hc => by cases hc
  · unfold Numeral.text Layout.positional
    rw [if_pos he]
    cases l.pointZero <;> simp [Numeral.tail]
  · unfold Numeral.digits Digits.value
    simp only [Option.getD_none, hpow]
    cases l.pointZero with
    | false =>
      simp [hnatural]
    | true =>
      rw [if_pos rfl, naturalOf_append, hnatural]
      simp [naturalOf, zpow_neg]

/-- A point among the digits of a number, or before them. -/
theorem exists_numeral_point (l : Layout) (hd : ∀ c ∈ digits, c.isDigit = true) {e : ℤ}
    (he : e < 0) :
    ∃ n : Numeral, n.text = l.positional digits e ∧ n.digits = ⟨naturalOf digits, e⟩ := by
  unfold Layout.positional
  rw [if_neg (not_le.2 he)]
  simp only
  split
  · -- The point is among the digits.
    rename_i hshort
    have hfraction : digits.drop (digits.length - (-e).toNat) ≠ [] := by
      rw [Ne, List.drop_eq_nil_iff]
      omega
    refine ⟨⟨digits.take (digits.length - (-e).toNat), digits.drop (digits.length - (-e).toNat),
      none, ?_, fun c hc => hd c (List.mem_of_mem_take hc),
      fun c hc => hd c (List.mem_of_mem_drop hc)⟩, ?_, ?_⟩
    · rw [Ne, List.take_eq_nil_iff, ← List.length_eq_zero_iff]
      omega
    · simp [Numeral.text, Numeral.tail, hfraction]
    · unfold Numeral.digits
      simp only [List.take_append_drop, Option.getD_none, List.length_drop, Digits.mk.injEq,
        true_and]
      omega
  · -- The point is before all digits, with zeros between them.
    rename_i hlong
    have hdigits : ∀ c ∈ List.replicate ((-e).toNat - digits.length) '0' ++ digits,
        c.isDigit = true := by
      intro c hc
      rcases List.mem_append.1 hc with hc | hc
      · exact isDigit_zeros _ c hc
      · exact hd c hc
    have hfraction : List.replicate ((-e).toNat - digits.length) '0' ++ digits ≠ [] := by
      rw [← List.length_pos_iff, List.length_append, List.length_replicate]
      omega
    refine ⟨⟨['0'], List.replicate ((-e).toNat - digits.length) '0' ++ digits, none,
      List.cons_ne_nil _ _, isDigit_zeros 1, hdigits⟩, ?_, ?_⟩
    · simp only [Numeral.text, Numeral.tail, if_neg hfraction]
      simp
    · unfold Numeral.digits
      simp only [List.cons_append, List.nil_append, Option.getD_none, List.length_append,
        List.length_replicate, Digits.mk.injEq]
      refine ⟨?_, by omega⟩
      rw [← List.cons_append, ← List.replicate_succ, naturalOf_append, naturalOf_zeros,
        Nat.zero_mul, Nat.zero_add]

/-- A point after the first digit, and the place of that digit as the exponent. -/
theorem exists_numeral_scientific (hne : digits ≠ []) (hd : ∀ c ∈ digits, c.isDigit = true)
    (place : ℤ) :
    ∃ n : Numeral, n.text = Layout.scientific digits place ∧
      n.digits = ⟨naturalOf digits, place + 1 - digits.length⟩ := by
  obtain ⟨c, rest, rfl⟩ := List.exists_cons_of_ne_nil hne
  refine ⟨⟨[c], rest, some place, List.cons_ne_nil _ _,
    fun d hc => hd d (by rw [List.mem_singleton.1 hc]; exact List.mem_cons_self),
    fun d hc => hd d (List.mem_cons_of_mem c hc)⟩, ?_, ?_⟩
  · cases rest <;> rfl
  · unfold Numeral.digits
    simp only [List.cons_append, List.nil_append, Option.getD_some, List.length_cons,
      Digits.mk.injEq, true_and]
    push_cast
    ring

end

/-- A decimal is written as a numeral of its value. -/
theorem exists_numeral (l : Layout) (d : Digits) :
    ∃ n : Numeral, n.text = l.magnitudeText d ∧ n.digits.value = d.value := by
  have hne := digitsOf_ne_nil d.coefficient
  have hd : ∀ c ∈ digitsOf d.coefficient, c.isDigit = true := isDigit_digitsOf
  have hself : (⟨naturalOf (digitsOf d.coefficient), d.exponent⟩ : Digits) = d := by
    rw [naturalOf_digitsOf]
  unfold Layout.magnitudeText
  simp only
  split
  · rcases le_or_gt 0 d.exponent with he | he
    · obtain ⟨n, htext, hvalue⟩ := exists_numeral_whole l hne hd he
      exact ⟨n, htext, by rw [hvalue, hself]⟩
    · obtain ⟨n, htext, hdigits⟩ := exists_numeral_point l hd he
      exact ⟨n, htext, by rw [hdigits, hself]⟩
  · obtain ⟨n, htext, hdigits⟩ := exists_numeral_scientific hne hd
      (d.exponent + (digitsOf d.coefficient).length - 1)
    refine ⟨n, htext, ?_⟩
    rw [hdigits, sub_add_cancel, add_sub_cancel_right, hself]

/-- Zero is written as a numeral of a zero, of one digit or of two. -/
theorem exists_numeral_zero (l : Layout) :
    ∃ n : Numeral, n.text = l.magnitudeText ⟨0, 0⟩ ∧ (n.digits = ⟨0, 0⟩ ∨ n.digits = ⟨0, -1⟩) := by
  have hzero : ∀ c ∈ ['0'], c.isDigit = true := isDigit_zeros 1
  have htext : l.magnitudeText ⟨0, 0⟩ = '0' :: if l.pointZero then ['.', '0'] else [] := rfl
  rw [htext]
  cases l.pointZero with
  | false =>
    exact ⟨⟨['0'], [], none, List.cons_ne_nil _ _, hzero, fun c hc => by cases hc⟩, rfl, .inl rfl⟩
  | true => exact ⟨⟨['0'], ['0'], none, List.cons_ne_nil _ _, hzero, hzero⟩, rfl, .inr rfl⟩

/-! ## Doubles -/

open Float.Model (Format UnpackedFloat)
open Number

theorem toDouble_zero {d : Digits} (h : d = ⟨0, 0⟩ ∨ d = ⟨0, -1⟩) :
    d.toDouble = Float.ofModel (Float.Model.pack (.zero .positive)) := by
  rcases h with rfl | rfl <;> decide +kernel

/-- A decimal of the value that is written for a double is read as that double. -/
theorem toDouble_of_value {tie : Tie} {m : Nat} {e : ℤ} {d : Digits} (hm : 0 < m)
    (hc : Canonical Format.binary64 m e)
    (h : d.value = (((Interval.ofParts (2 ^ 52) (-1074) m e).shortest tie).strip 18).value) :
    d.toDouble = Float.ofModel (Float.Model.pack (.finite .positive m e hm)) := by
  have hnear : Near Format.binary64 m e d.value := by
    rw [h, Digits.value_strip]
    exact Interval.near_of_holds hm (Interval.holds_shortest hm hc.lt hc.least)
  have hvalue : 0 < d.value :=
    lt_of_lt_of_le (zpow_two_pos (-1075)) (near_bounds hm hc hnear).1
  have hpos : 0 < d.coefficient := by
    rw [Nat.pos_iff_ne_zero]
    intro hzero
    unfold Digits.value at hvalue
    rw [hzero, Nat.cast_zero, zero_mul] at hvalue
    exact lt_irrefl _ hvalue
  exact ofScientific_near hpos hc hnear

/-- A change of sign changes the sign of the parts alone. -/
theorem neg_double (x : Float) :
    -x = Float.ofModel (Float.Model.pack (partsOfDouble x).neg) := rfl

/-- The text of a finite double is a sign and a numeral, and these make the double. -/
theorem exists_numeral_double (l : Layout) {x : Float} (h : x.isFinite = true) :
    ∃ (negative : Bool) (n : Numeral),
      (l.double x).toList = (if negative then ['-'] else []) ++ n.text ∧
        x = if negative then -n.digits.toDouble else n.digits.toDouble := by
  unfold Layout.double writtenDouble
  rcases parts_of_isFinite h with ⟨s, hparts⟩ | ⟨s, m, e, hm, hparts, hc⟩
  · obtain ⟨n, htext, hzero⟩ := exists_numeral_zero l
    refine ⟨isNegative s, n, ?_, ?_⟩
    · rw [hparts, htext]
      exact String.toList_ofList
    · rw [toDouble_zero hzero, neg_double, partsOfDouble_zero, ← ofModel_pack_parts x, hparts]
      cases s <;> rfl
  · obtain ⟨n, htext, hvalue⟩ := exists_numeral l
      (((Interval.ofParts (Nat.pow 2 52) (-1074) m e).shortest l.tie).strip 18)
    refine ⟨isNegative s, n, ?_, ?_⟩
    · rw [hparts, htext]
      exact String.toList_ofList
    · rw [toDouble_of_value hm hc hvalue, neg_double, partsOfDouble_pack hc,
        ← ofModel_pack_parts x, hparts]
      cases s <;> rfl

/-- A finite double is read back from its text. -/
theorem readDouble_double (l : Layout) {x : Float} (h : x.isFinite = true) :
    readDouble (l.double x) = .ok x := by
  obtain ⟨negative, n, htext, hx⟩ := exists_numeral_double l h
  obtain ⟨c, rest, hn, hc⟩ := n.text_eq_cons
  have hsign : spanSign ((if negative then ['-'] else []) ++ n.text) = (negative, n.text) := by
    cases negative with
    | false =>
      show spanSign n.text = _
      rw [hn]
      exact spanSign_of_isDigit hc rest
    | true => rfl
  unfold readDouble readWith
  rw [htext]
  split
  · rename_i hnil
    rw [hn] at hnil
    cases negative <;> cases hnil
  · rw [hsign]
    simp only [n.literal?_text]
    rw [← hx]

/-! ## Blanks -/

open Text (Ranges blankRanges isBlank)

theorem isBlank_of_isDigit {c : Char} (h : c.isDigit = true) : isBlank c = false := by
  unfold Char.isDigit at h
  rw [Bool.and_eq_true, decide_eq_true_iff, decide_eq_true_iff] at h
  have hlow : 48 ≤ c.toNat := h.1
  have hhigh : c.toNat ≤ 57 := h.2
  simp [isBlank, blankRanges, Ranges.contains]
  omega

/-- The text of a double has no blanks. -/
theorem Layout.isBlank_double (l : Layout) (x : Float) :
    ∀ c ∈ (l.double x).toList, isBlank c = false := by
  by_cases h : x.isFinite = true
  · obtain ⟨negative, n, htext, -⟩ := exists_numeral_double l h
    intro c hc
    rw [htext] at hc
    rcases List.mem_append.1 hc with hc | hc
    · cases negative <;> simp at hc
      rw [hc]
      rfl
    · rcases Numeral.mem_text hc with hc | rfl | rfl | rfl
      · exact isBlank_of_isDigit hc
      all_goals rfl
  · unfold Layout.double writtenDouble
    have hf : ¬(partsOfDouble x).isFinite = true := h
    cases hparts : partsOfDouble x with
    | notANumber =>
      show ∀ c ∈ "NaN".toList, _
      simp [isBlank, blankRanges, Ranges.contains]
    | infinity s =>
      show ∀ c ∈ (if isNegative s then "-inf" else "inf").toList, _
      cases s <;> simp [isNegative, isBlank, blankRanges, Ranges.contains]
    | zero s =>
      rw [hparts] at hf
      exact absurd rfl hf
    | finite s m e hm =>
      rw [hparts] at hf
      exact absurd rfl hf

end Triage.Decimal
