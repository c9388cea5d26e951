import Spintax.Number.Binary64

namespace Spintax.Cache

structure Stats where
  hits : Nat
  misses : Nat
  parses : Nat
  parseFailures : Nat
  waits : Nat
  evictions : Nat
  expirations : Nat
deriving DecidableEq, Repr

/-- What a cache tells the operators. The number of entries is the one that was
last told. -/
structure Meter where
  hits : Nat
  misses : Nat
  parsed : Nat
  unparsed : Nat
  waits : Nat
  evicted : Nat
  outdated : Nat
  entries : Nat
deriving DecidableEq, Repr

namespace Stats

def zero : Stats := ⟨0, 0, 0, 0, 0, 0, 0⟩

def hitRate (s : Stats) : Number.Binary64 :=
  if s.hits + s.misses = 0 then .zero
  else .mul (.div (.ofNat s.hits) (.ofNat (s.hits + s.misses))) (.ofNat 100)

end Stats

def Meter.zero : Meter := ⟨0, 0, 0, 0, 0, 0, 0, 0⟩

end Spintax.Cache
