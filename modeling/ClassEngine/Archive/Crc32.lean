/-!
# Checksums of archived files

The cyclic redundancy check over the reflected polynomial `0xEDB88320`.
-/

namespace ClassEngine.Archive

private def crcShift (w : UInt32) : UInt32 :=
  if w &&& 1 = 1 then (w >>> 1) ^^^ 0xEDB88320 else w >>> 1

def crcByte (w : UInt32) (b : UInt8) : UInt32 :=
  Nat.repeat crcShift 8 (w ^^^ b.toUInt32)

def crc32 (bytes : Array UInt8) : UInt32 :=
  bytes.foldl crcByte 0xFFFFFFFF ^^^ 0xFFFFFFFF

end ClassEngine.Archive
