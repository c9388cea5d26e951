import Spintax.Template.Lexeme
import Spintax.Template.Tree
import Spintax.Text.Length

namespace Spintax

/-- A group whose closing brace is still to come. `before` holds the nodes in
front of it and `branches` the finished branches, both last first. -/
structure OpenGroup where
  index : Nat
  offset : Nat
  before : List Node
  branches : List (Branch Node)

/-- How far a template is read: the open groups from the inside out, the nodes
of the sequence being read, last first, and the number of groups so far. -/
structure Outline where
  opened : List OpenGroup
  nodes : List Node
  groups : Nat

namespace Template

def maxDepth : Nat := 16

def addChar (c : Char) : List Node → List Node
  | .literal text :: ns => .literal (text.push c) :: ns
  | ns => .literal (String.singleton c) :: ns

end Template

namespace Outline

def start : Outline := ⟨[], [], 0⟩

def inside (p : Outline) : Bool :=
  !p.opened.isEmpty

def openGroup (p : Outline) (offset : Nat) : Except Fault Outline :=
  if p.opened.length < Template.maxDepth then
    .ok ⟨⟨p.groups, offset, p.nodes, []⟩ :: p.opened, [], p.groups + 1⟩
  else .error ⟨.tooDeep, offset⟩

/-- End the current branch of `g` by the bar or brace at byte position `offset`. -/
def endBranch (p : Outline) (g : OpenGroup) (outer : List OpenGroup) (offset : Nat)
    (weight : Option UInt32) (last : Bool) : Except Fault Outline :=
  if p.nodes.isEmpty then
    if last && g.branches.isEmpty && weight.isNone then .error ⟨.emptyGroup, g.offset⟩
    else .error ⟨.emptyBranch, offset⟩
  else
    let branches := ⟨p.nodes.reverse, weight⟩ :: g.branches
    if !last then .ok ⟨{ g with branches } :: outer, [], p.groups⟩
    else if g.branches.isEmpty then .error ⟨.loneBranch, g.offset⟩
    else .ok ⟨outer, .group g.index g.offset branches.reverse :: g.before, p.groups⟩

def take (p : Outline) (pos : Nat) (x : Lexeme) : Except Fault Outline :=
  match x.sign with
  | .char c => .ok { p with nodes := Template.addChar c p.nodes }
  | .slot name => .ok { p with nodes := .slot name :: p.nodes }
  | .opening => p.openGroup pos
  | .ending weight last =>
    match p.opened with
    | [] => .error ⟨.strayClose, pos⟩
    | g :: outer => p.endBranch g outer (pos + Text.byteLength x.written - 1) weight last

/-- Only a text that leaves no group open is a template. -/
def finish (p : Outline) : Except Fault Template :=
  match p.opened with
  | [] => .ok ⟨p.nodes.reverse⟩
  | g :: _ => .error ⟨.unclosedGroup, g.offset⟩

def run (p : Outline) (pos : Nat) : List Char → Except Fault Template
  | [] => p.finish
  | c :: cs =>
    match _h : Lexeme.read p.inside c cs with
    | .error flaw => .error ⟨flaw, pos⟩
    | .ok x =>
      match p.take pos x with
      | .error fault => .error fault
      | .ok p => run p (pos + Text.byteLength x.written) x.rest
termination_by cs => cs.length
decreasing_by exact Lexeme.rest_length_lt _h

end Outline

/-- Read a template. A text that is none has its first fault reported. -/
def Template.parse (text : String) : Except Fault Template :=
  Outline.start.run 0 text.toList

end Spintax
