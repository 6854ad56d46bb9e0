import Mathlib.Data.UInt

/-! # CRC-32

The checksums of blocks, of table names and of keys: the remainder of bytes by
the reversed polynomial 0xEDB88320, by a table of the remainders of single
bytes.
-/

namespace DataReel

/-- One bit of a remainder. -/
def crc32Bit (crc : UInt32) : UInt32 :=
  if crc &&& 1 = 1 then (crc >>> 1) ^^^ 0xEDB88320 else crc >>> 1

def crc32tab (i : UInt32) : UInt32 := Nat.iterate crc32Bit 8 i

/-- `calcCRC32` of one byte. -/
def crc32Byte (crc : UInt32) (byte : UInt8) : UInt32 :=
  crc32tab ((crc ^^^ byte.toUInt32) &&& 0xFF) ^^^ (crc >>> 8)

/-- `calcCRC32`; the length of the buffer is passed as a 32-bit number. -/
def calcCRC32 (buf : List UInt8) : Nat :=
  ((buf.take (buf.length % 2 ^ 32)).foldl crc32Byte 0xFFFFFFFF ^^^ 0xFFFFFFFF).toNat

example : crc32tab 1 = 0x77073096 ∧ crc32tab 2 = 0xEE0E612C ∧ crc32tab 255 = 0x2D02EF8D := by
  decide +kernel

theorem calcCRC32_lt (buf : List UInt8) : calcCRC32 buf < 2 ^ 32 := UInt32.toNat_lt _

end DataReel
