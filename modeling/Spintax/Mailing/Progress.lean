namespace Spintax

inductive RecipientState where
  | pending
  | rendering
  | succeeded
  | failed
deriving DecidableEq, Repr

/-- The counters of a mailing. A recipient is counted as scheduled once and for all,
as rendering for some time, and in the end as succeeded or failed. -/
structure Progress where
  scheduled : Nat
  rendering : Nat
  succeeded : Nat
  failed : Nat
deriving DecidableEq, Repr

structure ProgressReport where
  pending : Nat
  rendering : Nat
  succeeded : Nat
  failed : Nat
deriving DecidableEq, Repr

namespace RecipientState

def all : List RecipientState :=
  [pending, rendering, succeeded, failed]

def name : RecipientState → String
  | pending => "pending"
  | rendering => "rendering"
  | succeeded => "succeeded"
  | failed => "failed"

def isTerminal : RecipientState → Bool
  | pending | rendering => false
  | succeeded | failed => true

end RecipientState

namespace Progress

def zero : Progress := ⟨0, 0, 0, 0⟩

def schedule (p : Progress) : Progress :=
  { p with scheduled := p.scheduled + 1 }

def enter (p : Progress) : Progress :=
  { p with rendering := p.rendering + 1 }

def leave (p : Progress) : Progress :=
  { p with rendering := p.rendering - 1 }

def finish (p : Progress) (success : Bool) : Progress :=
  if success then { p with succeeded := p.succeeded + 1 }
  else { p with failed := p.failed + 1 }

/-- Four counts, which may have been read at different moments. Who is neither at
work nor finished is pending. -/
def reportOf (succeeded failed rendering scheduled : Nat) : ProgressReport :=
  ⟨scheduled - (rendering + succeeded + failed), rendering, succeeded, failed⟩

def report (p : Progress) : ProgressReport :=
  reportOf p.succeeded p.failed p.rendering p.scheduled

end Progress

namespace ProgressReport

def count (r : ProgressReport) : RecipientState → Nat
  | .pending => r.pending
  | .rendering => r.rendering
  | .succeeded => r.succeeded
  | .failed => r.failed

def completed (r : ProgressReport) : Nat :=
  r.succeeded + r.failed

end ProgressReport

end Spintax
