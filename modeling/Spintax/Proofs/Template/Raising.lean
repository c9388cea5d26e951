import Spintax.Proofs.Rendering.Counting

namespace Spintax

mutual

def Node.raise (bytes groups : Nat) : Node → Node
  | .literal text => .literal text
  | .slot name => .slot name
  | .group index offset bs =>
    .group (groups + index) (bytes + offset) (Branch.raiseIn bytes groups bs)

def Node.raiseOf (bytes groups : Nat) : List Node → List Node
  | [] => []
  | n :: ns => n.raise bytes groups :: Node.raiseOf bytes groups ns

def Branch.raiseIn (bytes groups : Nat) : List (Branch Node) → List (Branch Node)
  | [] => []
  | ⟨ns, weight⟩ :: bs => ⟨Node.raiseOf bytes groups ns, weight⟩ :: Branch.raiseIn bytes groups bs

end

def Branch.raise (bytes groups : Nat) (b : Branch Node) : Branch Node :=
  { b with nodes := Node.raiseOf bytes groups b.nodes }

def OpenGroup.raise (bytes groups : Nat) (g : OpenGroup) : OpenGroup where
  index := groups + g.index
  offset := bytes + g.offset
  before := Node.raiseOf bytes groups g.before
  branches := Branch.raiseIn bytes groups g.branches

def Outline.raise (bytes groups : Nat) (p : Outline) : Outline where
  opened := p.opened.map (OpenGroup.raise bytes groups)
  nodes := Node.raiseOf bytes groups p.nodes
  groups := groups + p.groups

def Template.raise (bytes groups : Nat) (t : Template) : Template :=
  ⟨Node.raiseOf bytes groups t.nodes⟩

def Fault.raise (bytes : Nat) (f : Fault) : Fault :=
  { f with offset := bytes + f.offset }

section Raise

variable (bytes groups : Nat)

theorem Node.raiseOf_eq_map (ns : List Node) :
    Node.raiseOf bytes groups ns = ns.map (Node.raise bytes groups) := by
  induction ns with
  | nil => rfl
  | cons n ns ih => rw [Node.raiseOf, ih, List.map_cons]

theorem Branch.raiseIn_eq_map (bs : List (Branch Node)) :
    Branch.raiseIn bytes groups bs = bs.map (Branch.raise bytes groups) := by
  induction bs with
  | nil => rfl
  | cons b bs ih =>
    rw [Branch.raiseIn, ih, List.map_cons]
    rfl

theorem Node.raiseOf_reverse (ns : List Node) :
    Node.raiseOf bytes groups ns.reverse = (Node.raiseOf bytes groups ns).reverse := by
  rw [Node.raiseOf_eq_map, Node.raiseOf_eq_map, List.map_reverse]

theorem Branch.raiseIn_reverse (bs : List (Branch Node)) :
    Branch.raiseIn bytes groups bs.reverse = (Branch.raiseIn bytes groups bs).reverse := by
  rw [Branch.raiseIn_eq_map, Branch.raiseIn_eq_map, List.map_reverse]

theorem Node.raiseOf_isEmpty (ns : List Node) :
    (Node.raiseOf bytes groups ns).isEmpty = ns.isEmpty := by
  cases ns <;> rfl

theorem Branch.raiseIn_isEmpty (bs : List (Branch Node)) :
    (Branch.raiseIn bytes groups bs).isEmpty = bs.isEmpty := by
  cases bs <;> rfl

theorem Node.raiseOf_addChar (c : Char) (ns : List Node) :
    Node.raiseOf bytes groups (Template.addChar c ns) =
      Template.addChar c (Node.raiseOf bytes groups ns) := by
  obtain _ | ⟨_ | _ | _, ns⟩ := ns <;> rfl

theorem Shape.ofBranches_raiseIn (bs : List (Branch Node)) :
    Shape.ofBranches (Branch.raiseIn bytes groups bs) = Shape.ofBranches bs := by
  have hshare : Branch.share ∘ Branch.raise bytes groups = Branch.share := rfl
  have hweight : (fun b : Branch Node => b.weight.isSome) ∘ Branch.raise bytes groups =
      fun b => b.weight.isSome := rfl
  rw [Branch.raiseIn_eq_map, Shape.ofBranches, Shape.ofBranches, List.length_map, List.any_map,
    List.map_map, hshare, hweight]

mutual

theorem Node.raise_same : ∀ n : Node, (n.raise bytes groups).shapes = n.shapes ∧
    (n.raise bytes groups).slots = n.slots ∧
    (n.raise bytes groups).routes.length = n.routes.length
  | .literal _ => ⟨rfl, rfl, rfl⟩
  | .slot _ => ⟨rfl, rfl, rfl⟩
  | .group _ _ bs => by
    obtain ⟨hshapes, hslots, hways⟩ := Branch.raiseIn_same bs
    rw [Node.raise, Node.shapes, Node.shapes, Node.slots, Node.slots, Node.length_routes_group,
      Node.length_routes_group, Shape.ofBranches_raiseIn, hshapes, hslots, hways]
    exact ⟨rfl, rfl, rfl⟩

theorem Node.raiseOf_same : ∀ ns : List Node,
    Node.shapesOf (Node.raiseOf bytes groups ns) = Node.shapesOf ns ∧
    Node.slotsOf (Node.raiseOf bytes groups ns) = Node.slotsOf ns ∧
    (Node.routesOf (Node.raiseOf bytes groups ns)).length = (Node.routesOf ns).length
  | [] => ⟨rfl, rfl, rfl⟩
  | n :: ns => by
    obtain ⟨hshapes, hslots, hways⟩ := Node.raise_same n
    obtain ⟨hshapes', hslots', hways'⟩ := Node.raiseOf_same ns
    rw [Node.raiseOf, Node.shapesOf, Node.shapesOf, Node.slotsOf, Node.slotsOf,
      Node.length_routesOf_cons, Node.length_routesOf_cons, hshapes, hslots, hways, hshapes',
      hslots', hways']
    exact ⟨rfl, rfl, rfl⟩

theorem Branch.raiseIn_same : ∀ bs : List (Branch Node),
    Branch.shapesIn (Branch.raiseIn bytes groups bs) = Branch.shapesIn bs ∧
    Branch.slotsIn (Branch.raiseIn bytes groups bs) = Branch.slotsIn bs ∧
    ((Branch.raiseIn bytes groups bs).map Branch.ways).sum = (bs.map Branch.ways).sum
  | [] => ⟨rfl, rfl, rfl⟩
  | ⟨ns, _⟩ :: bs => by
    obtain ⟨hshapes, hslots, hways⟩ := Node.raiseOf_same ns
    obtain ⟨hshapes', hslots', hways'⟩ := Branch.raiseIn_same bs
    rw [Branch.raiseIn, Branch.shapesIn, Branch.shapesIn, Branch.slotsIn, Branch.slotsIn,
      List.map_cons, List.map_cons, List.sum_cons, List.sum_cons, Branch.ways, Branch.ways,
      hshapes, hslots, hways, hshapes', hslots', hways']
    exact ⟨rfl, rfl, rfl⟩

end

end Raise

namespace Outline

def carry {α β : Type} (bytes : Nat) (f : α → β) : Except Fault α → Except Fault β
  | .ok a => .ok (f a)
  | .error fault => .error (fault.raise bytes)

theorem run_cons (p : Outline) (pos : Nat) (c : Char) (cs : List Char) :
    p.run pos (c :: cs) = match Lexeme.read p.inside c cs with
      | .error flaw => .error ⟨flaw, pos⟩
      | .ok x => match p.take pos x with
        | .error fault => .error fault
        | .ok q => q.run (pos + Text.byteLength x.written) x.rest := by
  rw [run]
  split
  · next heq => rw [heq]
  · next x heq => cases hq : p.take pos x <;> simp only [heq, hq]

theorem byteLength_written_pos {inside : Bool} {c : Char} {cs : List Char} {x : Lexeme}
    (h : Lexeme.read inside c cs = .ok x) : 0 < Text.byteLength x.written := by
  obtain ⟨d, ds, hw⟩ := List.exists_cons_of_ne_nil (Lexeme.read_heads h).ne_nil
  rw [hw, Text.byteLength_cons]
  exact Nat.add_pos_left d.utf8Size_pos _

theorem run_carry (bytes : Nat) {F : Outline → Outline} {f : Template → Template}
    (hinside : ∀ p, (F p).inside = p.inside)
    (htake : ∀ p pos x, 0 < Text.byteLength x.written →
      (F p).take (bytes + pos) x = carry bytes F (p.take pos x))
    (hfinish : ∀ p, (F p).finish = carry bytes f p.finish) (p : Outline) (pos : Nat)
    (cs : List Char) : (F p).run (bytes + pos) cs = carry bytes f (p.run pos cs) := by
  fun_induction run p pos cs with
  | case1 p pos =>
    rw [run_nil]
    exact hfinish p
  | case2 p pos c cs flaw hread =>
    rw [run_cons, hinside, hread]
    rfl
  | case3 p pos c cs x hread fault hq =>
    have hstep := htake p pos x (byteLength_written_pos hread)
    rw [hq] at hstep
    rw [run_cons, hinside, hread]
    simp only [hstep]
    rfl
  | case4 p pos c cs x hread q hq ih =>
    have hstep := htake p pos x (byteLength_written_pos hread)
    rw [hq] at hstep
    rw [run_cons, hinside, hread]
    simp only [hstep]
    rw [← ih, Nat.add_assoc]
    rfl

variable (bytes groups : Nat)

theorem inside_raise (p : Outline) : (p.raise bytes groups).inside = p.inside := by
  obtain ⟨_ | _, _, _⟩ := p <;> rfl

theorem openGroup_raise (p : Outline) (offset : Nat) :
    (p.raise bytes groups).openGroup (bytes + offset) =
      carry bytes (raise bytes groups) (p.openGroup offset) := by
  rw [openGroup, openGroup, raise, List.length_map]
  split <;> rfl

theorem endBranch_raise (p : Outline) (g : OpenGroup) (outer : List OpenGroup) (offset : Nat)
    (weight : Option UInt32) (last : Bool) :
    (p.raise bytes groups).endBranch (g.raise bytes groups)
        (outer.map (OpenGroup.raise bytes groups)) (bytes + offset) weight last =
      carry bytes (raise bytes groups) (p.endBranch g outer offset weight last) := by
  unfold endBranch
  simp only [raise, OpenGroup.raise, Node.raiseOf_isEmpty, Branch.raiseIn_isEmpty]
  split
  · split <;> rfl
  · rw [← Node.raiseOf_reverse]
    split
    · rfl
    · split
      · rfl
      · simp only [carry, raise, Node.raiseOf, Node.raise, Branch.raiseIn_reverse, Branch.raiseIn]

theorem take_raise (p : Outline) (pos : Nat) {x : Lexeme} (hx : 0 < Text.byteLength x.written) :
    (p.raise bytes groups).take (bytes + pos) x =
      carry bytes (raise bytes groups) (p.take pos x) := by
  obtain ⟨sign, written, rest⟩ := x
  cases sign with
  | char c => simp only [take, carry, raise, Node.raiseOf_addChar]
  | slot name => rfl
  | opening => exact openGroup_raise bytes groups p pos
  | ending weight last =>
    obtain ⟨_ | ⟨g, outer⟩, nodes, k⟩ := p
    · rfl
    · have hoffset : bytes + pos + Text.byteLength written - 1 =
          bytes + (pos + Text.byteLength written - 1) := by
        simp only at hx
        omega
      have hend := endBranch_raise bytes groups ⟨g :: outer, nodes, k⟩ g outer
        (pos + Text.byteLength written - 1) weight last
      rw [← hoffset] at hend
      exact hend

theorem finish_raise (p : Outline) :
    (p.raise bytes groups).finish = carry bytes (Template.raise bytes groups) p.finish := by
  obtain ⟨_ | ⟨g, outer⟩, nodes, k⟩ := p
  · simp only [finish, raise, carry, Template.raise, Node.raiseOf_reverse, List.map_nil]
  · rfl

theorem run_raise (p : Outline) (pos : Nat) (cs : List Char) :
    (p.raise bytes groups).run (bytes + pos) cs =
      carry bytes (Template.raise bytes groups) (p.run pos cs) :=
  run_carry bytes (inside_raise bytes groups) (fun p pos _ => take_raise bytes groups p pos)
    (finish_raise bytes groups) p pos cs

end Outline

end Spintax
