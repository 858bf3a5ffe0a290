import Mathlib.Tactic

/-!
CRC-32/ISO-HDLC (`vauban-storage/src/disk/crc.rs`).
-/

namespace VaubanDB

/-- One bit shifted out through the polynomial. -/
def crcBit (remainder : UInt32) : UInt32 :=
  if remainder &&& 1 = 1 then (remainder >>> 1) ^^^ 0xEDB88320 else remainder >>> 1

def crcTable (byte : UInt32) : UInt32 := crcBit^[8] byte

def crcByte (register : UInt32) (byte : UInt8) : UInt32 :=
  (register >>> 8) ^^^ crcTable ((register ^^^ byte.toUInt32) &&& 0xFF)

def crc32 (bytes : List UInt8) : UInt32 := bytes.foldl crcByte 0xFFFFFFFF ^^^ 0xFFFFFFFF

/-- The check value of the parameters. -/
example : crc32 [0x31, 0x32, 0x33, 0x34, 0x35, 0x36, 0x37, 0x38, 0x39] = 0xCBF43926 := by
  decide +kernel

end VaubanDB
