/-
The cyclic redundancy check of 32 bits with the reflected polynomial `0xEDB88320`: the register
starts with all bits set, takes in the bytes one by one, and is inverted at the end.
-/

namespace Triage

namespace Checksum

/-- Shifts one bit out of the register. -/
def bitStep (r : UInt32) : UInt32 :=
  if r &&& 1 = 1 then (r >>> 1) ^^^ 0xedb88320 else r >>> 1

/-- Takes a byte into the register. -/
def byteStep (r : UInt32) (b : UInt8) : UInt32 :=
  Nat.repeat bitStep 8 (r ^^^ b.toUInt32)

end Checksum

/-- The checksum of bytes. -/
def checksum (bytes : List UInt8) : UInt32 :=
  bytes.foldl Checksum.byteStep 0xffffffff ^^^ 0xffffffff

end Triage
