/-
Passing between the two binary formats and the integers. Each rule rounds at most once and is
given by its exact value: a double becomes the nearest single with a tie going to the even
significand, a single becomes the double of the same value, and a real becomes an integer by
floor, by ceiling, or by nearest with a half going away from zero.
-/

namespace Triage.Number

open Float.Model

/-! ## Significand and exponent -/

/-- The parts of a double: its class, and of a finite one the sign, significand and exponent. -/
def partsOfDouble (x : Float) : UnpackedFloat :=
  UnpackedFloat.unpack Format.binary64 x.toBits.toBitVec

/-- The parts of a single. -/
def partsOfSingle (x : Float32) : UnpackedFloat :=
  UnpackedFloat.unpack Format.binary32 x.toBits.toBitVec

/-- The double with these parts, which must fit the format. -/
def doubleOfParts (u : UnpackedFloat) : Float :=
  Float.ofBits (UInt64.ofBitVec (UnpackedFloat.pack Format.binary64 u))

/-- The single with these parts, which must fit the format. -/
def singleOfParts (u : UnpackedFloat) : Float32 :=
  Float32.ofBits (UInt32.ofBitVec (UnpackedFloat.pack Format.binary32 u))

/-! ## Between the formats -/

/-- The single nearest to a double; a tie goes to the even significand and too large a value to
infinity. -/
def narrow (x : Float) : Float32 :=
  match partsOfDouble x with
  | .finite s m e _ => singleOfParts (UnpackedFloat.round Format.binary32 s m e)
  | u => singleOfParts u

/-- The double of a single's value. -/
def widen (x : Float32) : Float :=
  match partsOfSingle x with
  | .finite s m e _ => doubleOfParts (UnpackedFloat.round Format.binary64 s m e)
  | u => doubleOfParts u

/-- The product of two doubles plus a third, rounded once. -/
def mulAdd (a b c : Float) : Float :=
  match partsOfDouble a, partsOfDouble b, partsOfDouble c with
  | .finite s m e hm, .finite t n f hn, .finite r k g hk =>
    doubleOfParts (UnpackedFloat.add Format.binary64
      (.finite (s * t) (m * n) (e + f) (Nat.mul_pos hm hn)) (.finite r k g hk))
  | _, _, _ => a * b + c

/-! ## To the integers -/

/-- The greatest integer not above `m · 2^e`. -/
def floorOf (m : Nat) (e : Int) : Nat :=
  if 0 ≤ e then m <<< e.toNat else m >>> (-e).toNat

/-- The greatest natural number not above a double; zero for a negative one, NaN or infinity. -/
def floor (x : Float) : Nat :=
  match partsOfDouble x with
  | .finite .positive m e _ => floorOf m e
  | _ => 0

/-- The least natural number not below a double; zero for a negative one, NaN or infinity. -/
def ceil (x : Float) : Nat :=
  match partsOfDouble x with
  | .finite .positive m e _ =>
    let n := floorOf m e
    if 0 ≤ e ∨ n <<< (-e).toNat = m then n else n + 1
  | _ => 0

/-- What a non-negative double has beyond its floor. The difference is itself a double, so nothing
is rounded. -/
def fraction (x : Float) : Float :=
  x - Float.ofNat (floor x)

/-- The natural number nearest to `m · 2^e`, a half going up. An exponent above `limit` stands for
a value out of reach and gives `2^limit`. -/
def nearestOf (limit m : Nat) (e : Int) : Nat :=
  if 0 ≤ e then (if e.toNat ≤ limit then m <<< e.toNat else 1 <<< limit)
  else (((m <<< 1) >>> (-e).toNat) + 1) >>> 1

/-- A single rounded to the nearest integer, a half going away from zero, then limited to
`-127 … 127`; NaN gives zero. -/
def toInt8 (x : Float32) : Int8 :=
  match partsOfSingle x with
  | .notANumber | .zero _ => 0
  | .infinity .positive => 127
  | .infinity .negative => -127
  | .finite .positive m e _ => Int8.ofNat (min 127 (nearestOf 8 m e))
  | .finite .negative m e _ => -Int8.ofNat (min 127 (nearestOf 8 m e))

/-! ## Of two singles -/

/-- The larger of two singles; NaN gives way to the other operand. -/
def larger (a b : Float32) : Float32 :=
  if a.isNaN then b else if b.isNaN then a else if a < b then b else a

end Triage.Number
