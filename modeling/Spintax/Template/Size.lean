import Spintax.Template.Tree

namespace Spintax

/-- The number of ways in which a template can be rendered. -/
inductive Size where
  | exact (count : Nat)
  | unbounded
deriving DecidableEq, Repr

namespace Size

def limit : Nat := 1000000000

/-- Addition of 64-bit counts, undefined where the sum does not fit. -/
def add? (m n : Nat) : Option Nat :=
  if m + n < UInt64.size then some (m + n) else none

def mul? (m n : Nat) : Option Nat :=
  if m * n < UInt64.size then some (m * n) else none

def within (n : Nat) : Option Nat :=
  if n ≤ limit then some n else none

mutual

/-- Multiply `total` by the number of ways to render a node, and give up as
soon as the product passes the limit. -/
def timesNode (total : Nat) : Node → Option Nat
  | .literal _ => some total
  | .slot _ => some total
  | .group _ _ bs => plusBranches 0 bs >>= mul? total >>= within

def timesNodes (total : Nat) : List Node → Option Nat
  | [] => some total
  | n :: ns => (timesNode total n).bind fun total => timesNodes total ns

def plusBranches (options : Nat) : List (Branch Node) → Option Nat
  | [] => some options
  | ⟨ns, _⟩ :: bs =>
    ((timesNodes 1 ns).bind (add? options)).bind fun options => plusBranches options bs

end

def ofCount? : Option Nat → Size
  | some n => if n ≤ limit then exact n else unbounded
  | none => unbounded

def count? : Size → Option Nat
  | exact n => some n
  | unbounded => none

def describe : Size → String
  | exact n => toString n
  | unbounded => s!"more than {limit}"

end Size

/-- The number of distinct messages that differ in their choices. -/
def Template.size (t : Template) : Size :=
  Size.ofCount? (Size.timesNodes 1 t.nodes)

end Spintax
