import Reshape.Number.Binary64

/-!
The encoding of floating-point numbers in 64 bits, through which the machine computes powers.
-/

namespace Reshape.Binary64

/-- The encoding in 64 bits: the sign, eleven bits of exponent, 52 of the significand. -/
def toBits : Binary64 → Nat
  | nan => 0x7FF8000000000000
  | infinite s => s.toNat * 0x8000000000000000 + 0x7FF0000000000000
  | finite s m e =>
    s.toNat * 0x8000000000000000 +
      if m < leadingBit then m else (e + 1075).toNat * leadingBit + (m - leadingBit)

/-- The number that 64 bits encode. -/
def ofBits (bits : Nat) : Binary64 :=
  let negative := bits / 0x8000000000000000 % 2 == 1
  let field : Nat := bits / leadingBit % 2048
  let low : Nat := bits % leadingBit
  if field = 2047 then (if low = 0 then infinite negative else nan)
  else if field = 0 then finite negative low (-1074)
  else finite negative (leadingBit + low) (field - 1075)

/-- `x ^ y` as the machine computes it. -/
def pow (x y : Binary64) : Binary64 :=
  ofBits (Float.pow (Float.ofBits x.toBits.toUInt64) (Float.ofBits y.toBits.toUInt64)).toBits.toNat

end Reshape.Binary64
