/-
The exponential of a single. The argument is split as `(k + r)/32 · ln 2` with `|r| ≤ 1/2`; the
power `2^(k/32)` comes from a table and `2^(r/32)` from a cubic, both in double precision, and the
product is rounded to a single once.
-/
import Triage.Number.Rounding

namespace Triage.Number

/-- The bits of `2^(i/32)` for `i < 32`, less `i` in the position where `k` is added. -/
def powerTable : Array UInt64 :=
  #[0x3ff0000000000000, 0x3fefd9b0d3158574, 0x3fefb5586cf9890f, 0x3fef9301d0125b51,
   0x3fef72b83c7d517b, 0x3fef54873168b9aa, 0x3fef387a6e756238, 0x3fef1e9df51fdee1,
   0x3fef06fe0a31b715, 0x3feef1a7373aa9cb, 0x3feedea64c123422, 0x3feece086061892d,
   0x3feebfdad5362a27, 0x3feeb42b569d4f82, 0x3feeab07dd485429, 0x3feea47eb03a5585,
   0x3feea09e667f3bcd, 0x3fee9f75e8ec5f74, 0x3feea11473eb0187, 0x3feea589994cce13,
   0x3feeace5422aa0db, 0x3feeb737b0cdc5e5, 0x3feec49182a3f090, 0x3feed503b23e255d,
   0x3feee89f995ad3ad, 0x3feeff76f2fb5e47, 0x3fef199bdd85529c, 0x3fef3720dcef9069,
   0x3fef5818dcfba487, 0x3fef7c97337b9b5f, 0x3fefa4afa2a490da, 0x3fefd0765b6e4540]

/-- `2^(k/32)`, where the low bits of `k` hold the quotient rounded to an integer. -/
def powerOfTwo (k : UInt64) : Float :=
  Float.ofBits (powerTable.getD (k % 32).toNat 0 + (k <<< 47))

/-- `32 / ln 2`. -/
def inverseStep : Float := Float.ofBits 0x40471547652b82fe

/-- A double so large that adding it rounds to an integer, held by the low bits of the sum. -/
def integerShift : Float := Float.ofBits 0x4338000000000000

/-- `e^x` for a moderate `x`. -/
def expInRange (x : Float32) : Float32 :=
  let d := widen x
  let shifted := mulAdd inverseStep d integerShift
  let r := mulAdd inverseStep d (-(shifted - integerShift))
  let high := mulAdd (Float.ofBits 0x3ebc6af84b912394) r (Float.ofBits 0x3f2ebfce50fac4f3)
  let low := mulAdd r (Float.ofBits 0x3f962e42ff0c52d6) 1
  narrow (mulAdd high (r * r) low * powerOfTwo shifted.toBits)

/-- `e^x`: infinity above `ln 2^128`, zero below `ln 2^-150`, and the least positive single between
that and `ln 2^-149`. -/
def exp (x : Float32) : Float32 :=
  if x.isNaN then x
  else if Float32.ofBits 0x42b17217 < x then Float32.ofBits 0x7f800000
  else if x < Float32.ofBits 0xc2cff1b4 then 0
  else if x < Float32.ofBits 0xc2ce8ecf then Float32.ofBits 1
  else expInRange x

end Triage.Number
