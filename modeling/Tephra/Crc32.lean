import Mathlib.Data.Nat.Bitwise

/-!
# The CRC-32 checksum

The results about segments hold for every checksum function.  Runs on given
inputs use the one the code links: the reflected CRC-32 with polynomial
`0xEDB88320`, an initial value of all ones and a final complement.
-/

namespace Tephra

namespace Seglog

/-- One bit of the reflected polynomial division. -/
def crc32Bit (register : Nat) : Nat :=
  if register % 2 = 1 then
    (register / 2) ^^^ 0xEDB88320
  else
    register / 2

/-- One byte of the division. -/
def crc32Byte (register : Nat) (byte : UInt8) : Nat :=
  (List.range 8).foldl (fun register _ => crc32Bit register) (register ^^^ byte.toNat)

/-- The CRC-32 checksum of a byte string. -/
def crc32 (bytes : List UInt8) : UInt32 :=
  UInt32.ofNat (bytes.foldl crc32Byte 0xFFFFFFFF ^^^ 0xFFFFFFFF)

/-- The check value of CRC-32, the checksum of the digits 1 to 9. -/
example : crc32 [0x31, 0x32, 0x33, 0x34, 0x35, 0x36, 0x37, 0x38, 0x39] = 0xCBF43926 := by
  decide +kernel

end Seglog

end Tephra
