namespace Spintax.Text

/-- Divide one more bit by the reflected polynomial of the CRC-32 checksum. -/
def crcBit (crc : UInt32) : UInt32 :=
  if crc &&& 1 = 1 then (crc >>> 1) ^^^ 0xEDB88320 else crc >>> 1

def crcByte (crc : UInt32) (byte : UInt8) : UInt32 :=
  let crc := crc ^^^ byte.toUInt32
  crcBit (crcBit (crcBit (crcBit (crcBit (crcBit (crcBit (crcBit crc)))))))

def crc32 (text : String) : UInt32 :=
  text.toUTF8.foldl crcByte 0xFFFFFFFF ^^^ 0xFFFFFFFF

end Spintax.Text
