/-!
# Cyclic redundancy check

The checksum of 32 bits that zip archives carry: the bits of the data, lowest
first, divided by the polynomial `0xEDB88320`.

* `crc32` — the checksum of some bytes.
-/

namespace LambdaDeploy.Archive

/-- One step of the division: the lowest bit decides whether the polynomial is
subtracted. -/
def crcBit (crc : UInt32) : UInt32 :=
  if crc &&& 1 = 1 then (crc >>> 1) ^^^ 0xEDB88320 else crc >>> 1

/-- The eight steps for one byte. -/
def crcByte (crc : UInt32) (byte : UInt8) : UInt32 :=
  (List.range 8).foldl (fun crc _ => crcBit crc) (crc ^^^ byte.toUInt32)

/-- The checksum of some bytes. -/
def crc32 (data : ByteArray) : UInt32 := (data.foldl crcByte 0xFFFFFFFF) ^^^ 0xFFFFFFFF

end LambdaDeploy.Archive
