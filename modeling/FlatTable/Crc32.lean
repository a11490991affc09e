/-! The cyclic redundancy check CRC-32 with the reflected IEEE polynomial. -/
namespace FlatTable.Crc32

/-- One bit: shifts the remainder and subtracts the polynomial when a one falls out. -/
def shift (r : UInt32) : UInt32 :=
  if r &&& 1 = 1 then (r >>> 1) ^^^ 0xEDB88320 else r >>> 1

def step (r : UInt32) (byte : UInt8) : UInt32 :=
  Nat.repeat shift 8 (r ^^^ byte.toUInt32)

def checksum (bytes : Array UInt8) : UInt32 :=
  bytes.foldl step 0xFFFFFFFF ^^^ 0xFFFFFFFF

end FlatTable.Crc32
