import Spintax.Selection
import Spintax.Variables

namespace Spintax

/-- What to do about a slot that has no value. -/
inductive Policy where
  | strict
  | lenient
deriving DecidableEq, Repr

inductive RenderError where
  | missingVariable (name : String)
  | pathLength (expected actual : Nat)
  | noSuchBranch (group index count : Nat)
deriving DecidableEq, Repr

/-- A group that was rendered and the branch that was taken there. -/
structure Choice where
  group : Nat
  branch : Nat
deriving DecidableEq, Repr

structure Passage where
  text : String
  choices : List Choice
deriving DecidableEq, Repr

structure Rendered where
  text : String
  path : Path
  choices : List Choice
deriving DecidableEq, Repr

namespace RenderError

def code : RenderError → String
  | missingVariable _ => "missing_variable"
  | pathLength .. => "invalid_path"
  | noSuchBranch .. => "invalid_path"

def message : RenderError → String
  | missingVariable name => s!"Missing variable: {name}"
  | pathLength expected actual =>
    s!"Selection path has {actual} entries, template has {expected} groups"
  | noSuchBranch group index count =>
    s!"Alternative {index} out of range for group {group} ({count} alternatives)"

end RenderError

namespace Passage

def append (p q : Passage) : Passage :=
  ⟨p.text ++ q.text, p.choices ++ q.choices⟩

instance : Append Passage := ⟨append⟩

def ofText (text : String) : Passage := ⟨text, []⟩

@[simp]
theorem text_append (p q : Passage) : (p ++ q).text = p.text ++ q.text := rfl

@[simp]
theorem choices_append (p q : Passage) : (p ++ q).choices = p.choices ++ q.choices := rfl

end Passage

def Policy.fill (policy : Policy) (vs : Variables) (name : String) :
    Except RenderError String :=
  match vs.get? name, policy with
  | some value, _ => .ok value
  | none, .strict => .error (.missingVariable name)
  | none, .lenient => .ok ""

namespace Render

variable (policy : Policy) (path : Path) (vs : Variables)

mutual

def node : Node → Except RenderError Passage
  | .literal text => .ok (.ofText text)
  | .slot name => (policy.fill vs name).map .ofText
  | .group index _ bs =>
    let i := path.getD index 0
    (branch (.noSuchBranch index i bs.length) i bs).map (⟨"", [⟨index, i⟩]⟩ ++ ·)

/-- Render a sequence. Its first error is the one that shows. -/
def nodes : List Node → Except RenderError Passage
  | [] => .ok (.ofText "")
  | n :: ns => do return (← node n) ++ (← nodes ns)

def branch (absent : RenderError) (i : Nat) : List (Branch Node) → Except RenderError Passage
  | [] => .error absent
  | ⟨ns, _⟩ :: bs =>
    match i with
    | 0 => nodes ns
    | i + 1 => branch absent i bs

end

end Render

namespace Template

/-- Render a template along a path that has a branch for each of its groups. -/
def render (t : Template) (policy : Policy) (path : Path) (vs : Variables) :
    Except RenderError Rendered :=
  if path.length = t.groupCount then
    (Render.nodes policy path vs t.nodes).map fun p => ⟨p.text, path, p.choices⟩
  else .error (.pathLength t.groupCount path.length)

def renderRandom (t : Template) (policy : Policy) (vs : Variables) (s : Supply) :
    Drawn (Except RenderError Rendered) :=
  (t.select s).map fun (path, s) => (t.render policy path vs, s)

end Template

end Spintax
