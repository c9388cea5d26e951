import Spintax.Template.Fault

namespace Spintax

/-- How many messages may be in the making at once: as many as usual if nobody asks
for another number, and never more than `most`. -/
structure Concurrency where
  usual : Nat
  most : Nat
deriving DecidableEq, Repr

/-- Why a mailing does not start. -/
inductive Refusal where
  | noWorkers
  | badTemplate (fault : Fault)
deriving DecidableEq, Repr

def Refusal.message : Refusal → String
  | noWorkers => "Invalid concurrency limit: 0 (must be at least 1)"
  | badTemplate fault => "Template rejected: " ++ fault.message

namespace Concurrency

def standard : Concurrency := ⟨32, 256⟩

def limit (c : Concurrency) (request : Option Nat) : Except Refusal Nat :=
  match request.getD c.usual with
  | 0 => .error .noWorkers
  | n + 1 => .ok (min (n + 1) (max c.most 1))

end Concurrency

end Spintax
