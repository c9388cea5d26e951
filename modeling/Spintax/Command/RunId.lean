import Spintax.Json.Writer

namespace Spintax.Command

def hexByte (b : UInt8) : List Char :=
  [Json.hexDigit (b.toNat / 16), Json.hexDigit (b.toNat % 16)]

/-- The name of a run, made of 16 random bytes. Six of their bits say that they are
random. -/
def runId (bytes : List UInt8) : String :=
  let version := fun b : UInt8 => (b &&& 0x0F) ||| 0x40
  let variety := fun b : UInt8 => (b &&& 0x3F) ||| 0x80
  let digits := ((bytes.modify 6 version).modify 8 variety).flatMap hexByte
  let part := fun start length => String.ofList ((digits.drop start).take length)
  "-".intercalate [part 0 8, part 8 4, part 12 4, part 16 4, part 20 12]

def wordOf (bytes : List UInt8) : UInt64 :=
  bytes.foldl (fun n b => n * 256 + b.toUInt64) 0

end Spintax.Command
