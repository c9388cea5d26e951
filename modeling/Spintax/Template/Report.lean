import Spintax.Json.Value
import Spintax.Template.Parser
import Spintax.Template.Size

namespace Spintax

/-- What an author is told about a text: its fault, or how large the template is
and which slots it has. -/
structure Report where
  faults : List Fault
  size : Option Size
  groupCount : Nat
  slotNames : List String
deriving DecidableEq, Repr

def Size.toJson : Size → Json.Value
  | .exact n => .ofNat n
  | .unbounded => .text "unbounded"

def Fault.toJson (f : Fault) : Json.Value :=
  .object [("code", .text f.flaw.code), ("message", .text f.flaw.reason),
    ("offset", .ofNat f.offset)]

namespace Report

def isValid (r : Report) : Bool :=
  r.faults.isEmpty

def ofText (text : String) : Report :=
  match Template.parse text with
  | .ok t => ⟨[], some t.size, t.groupCount, t.slotNames⟩
  | .error fault => ⟨[fault], none, 0, []⟩

def toJson (r : Report) : Json.Value :=
  .object ([("valid", .bool r.isValid), ("errors", .list (r.faults.map Fault.toJson))] ++
    (r.size.map fun s => ("combinations", s.toJson)).toList ++
    [("group_count", .ofNat r.groupCount), ("variables", .list (r.slotNames.map .text))])

end Report

end Spintax
