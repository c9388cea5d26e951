import Spintax.Render

namespace Spintax

/-- Choices are ordered by group and then by branch. -/
def Choice.before (c d : Choice) : Bool :=
  c.group < d.group || c.group = d.group && c.branch < d.branch

structure Tally where
  entries : List (Choice × Nat)
deriving DecidableEq, Repr

namespace Tally

def empty : Tally := ⟨[]⟩

/-- Count `c` another `n` times among `entries`. -/
def addTo (c : Choice) (n : Nat) : List (Choice × Nat) → List (Choice × Nat)
  | [] => [(c, n)]
  | e :: es =>
    if c = e.1 then (c, e.2 + n) :: es
    else if c.before e.1 then (c, n) :: e :: es
    else e :: addTo c n es

def add (t : Tally) (c : Choice) (n : Nat) : Tally :=
  ⟨addTo c n t.entries⟩

def addAll (t : Tally) (cs : List Choice) : Tally :=
  cs.foldl (fun t c => t.add c 1) t

def merge (t u : Tally) : Tally :=
  u.entries.foldl (fun t e => t.add e.1 e.2) t

def count (t : Tally) (c : Choice) : Nat :=
  (t.entries.lookup c).getD 0

end Tally

end Spintax
