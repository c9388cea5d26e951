namespace Spintax

/-- One way of filling a group, and the weight written after it, if any. -/
structure Branch (ν : Type) where
  nodes : List ν
  weight : Option UInt32

/-- A piece of a message. Groups are numbered in the order of their opening
braces, and `offset` is the byte position of that brace. -/
inductive Node where
  | literal (text : String)
  | slot (name : String)
  | group (index offset : Nat) (branches : List (Branch Node))

/-- A message with variations. -/
structure Template where
  nodes : List Node

/-- What a draw has to know of a group: how many branches there are, and
their weights as soon as one of them has a weight of its own. -/
structure Shape where
  branches : Nat
  weights : Option (List UInt32)
deriving DecidableEq, Repr

namespace Branch

variable {ν : Type}

/-- A branch without a weight counts once. -/
def share (b : Branch ν) : UInt32 :=
  b.weight.getD 1

end Branch

namespace Shape

variable {ν : Type}

def ofBranches (bs : List (Branch ν)) : Shape where
  branches := bs.length
  weights := if bs.any (·.weight.isSome) then some (bs.map Branch.share) else none

end Shape

mutual

/-- The shapes of the groups of a node, an outer group before inner ones. -/
def Node.shapes : Node → List Shape
  | .literal _ => []
  | .slot _ => []
  | .group _ _ bs => Shape.ofBranches bs :: Branch.shapesIn bs

def Node.shapesOf : List Node → List Shape
  | [] => []
  | n :: ns => n.shapes ++ Node.shapesOf ns

def Branch.shapesIn : List (Branch Node) → List Shape
  | [] => []
  | ⟨ns, _⟩ :: bs => Node.shapesOf ns ++ Branch.shapesIn bs

end

mutual

def Node.slots : Node → List String
  | .literal _ => []
  | .slot name => [name]
  | .group _ _ bs => Branch.slotsIn bs

def Node.slotsOf : List Node → List String
  | [] => []
  | n :: ns => n.slots ++ Node.slotsOf ns

def Branch.slotsIn : List (Branch Node) → List String
  | [] => []
  | ⟨ns, _⟩ :: bs => Node.slotsOf ns ++ Branch.slotsIn bs

end

/-- Put a name at its place in an ascending list that has each name once. -/
def insertName (name : String) : List String → List String
  | [] => [name]
  | other :: names =>
    if name = other then other :: names
    else if name < other then name :: other :: names
    else other :: insertName name names

namespace Template

/-- The shapes of all groups; the group with index `i` is at position `i`. -/
def shapes (t : Template) : List Shape :=
  Node.shapesOf t.nodes

def groupCount (t : Template) : Nat :=
  t.shapes.length

def slotNames (t : Template) : List String :=
  (Node.slotsOf t.nodes).foldr insertName []

def isStatic (t : Template) : Bool :=
  t.shapes.isEmpty

end Template

end Spintax
