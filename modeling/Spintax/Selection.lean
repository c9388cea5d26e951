import Spintax.Draw
import Spintax.Template.Tree

namespace Spintax

/-- The chosen branch of every group, in the order of the groups. -/
abbrev Path := List Nat

namespace Path

def describe (p : Path) : String :=
  "-".intercalate (p.map toString)

def drawBranch (shape : Shape) : Supply → Drawn Nat :=
  match shape.weights with
  | some weights => Draw.weighted weights
  | none => fun s => (Draw.uniform (.ofNat shape.branches) s).map fun (i, s) => (i.toNat, s)

/-- Choose a branch of each group, also of groups that no message will show. -/
def draw : List Shape → Supply → Drawn Path
  | [], s => .ok ([], s)
  | shape :: shapes, s =>
    match drawBranch shape s with
    | .error e => .error e
    | .ok (i, s) => (draw shapes s).map fun (p, s) => (i :: p, s)

end Path

namespace Template

def select (t : Template) (s : Supply) : Drawn Path :=
  Path.draw t.shapes s

end Template

end Spintax
