namespace Spintax.Cache

/-- How many templates a cache may hold and how many milliseconds it may hold
one of them. -/
structure Limits where
  capacity : Nat
  maxAge : Nat
  capacity_pos : 0 < capacity
  maxAge_pos : 0 < maxAge

inductive LimitsError where
  | noCapacity
  | noAge
deriving DecidableEq, Repr

def LimitsError.message : LimitsError → String
  | noCapacity => "Invalid cache capacity: 0 (must be at least 1)"
  | noAge => "Invalid cache max age: must be greater than zero"

namespace Limits

def make (capacity maxAge : Nat) : Except LimitsError Limits :=
  if hc : 0 < capacity then
    if ha : 0 < maxAge then .ok ⟨capacity, maxAge, hc, ha⟩ else .error .noAge
  else .error .noCapacity

def standard : Limits where
  capacity := 1024
  maxAge := 3600000
  capacity_pos := by decide
  maxAge_pos := by decide

end Limits

end Spintax.Cache
