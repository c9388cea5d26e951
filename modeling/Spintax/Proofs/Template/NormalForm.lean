import Spintax.Proofs.Template.Parsing

namespace Spintax

def Node.isLiteral : Node → Bool
  | .literal _ => true
  | _ => false

mutual

/-- A node as it can stand within `depth` groups. -/
def Node.Normal (depth : Nat) : Node → Prop
  | .literal text => text ≠ ""
  | .slot name => Lexeme.isIdentifier name.toList
  | .group _ _ bs => depth < Template.maxDepth ∧ 2 ≤ bs.length ∧ Branch.NormalIn (depth + 1) bs

/-- No two literals stand next to each other. -/
def Node.NormalOf (depth : Nat) : List Node → Prop
  | [] => True
  | n :: ns => n.Normal depth ∧ ¬ (n.isLiteral ∧ ns.head?.any Node.isLiteral) ∧
      Node.NormalOf depth ns

def Branch.NormalIn (depth : Nat) : List (Branch Node) → Prop
  | [] => True
  | ⟨ns, weight⟩ :: bs => ns ≠ [] ∧ Node.NormalOf depth ns ∧ weight ≠ some 0 ∧
      Branch.NormalIn depth bs

end

mutual

/-- The groups of a node have the numbers from `first` on, each before the groups in it. -/
def Node.Numbered (first : Nat) : Node → Prop
  | .literal _ => True
  | .slot _ => True
  | .group index _ bs => index = first ∧ Branch.NumberedIn (first + 1) bs

def Node.NumberedOf (first : Nat) : List Node → Prop
  | [] => True
  | n :: ns => n.Numbered first ∧ Node.NumberedOf (first + n.shapes.length) ns

def Branch.NumberedIn (first : Nat) : List (Branch Node) → Prop
  | [] => True
  | ⟨ns, _⟩ :: bs => Node.NumberedOf first ns ∧
      Branch.NumberedIn (first + (Node.shapesOf ns).length) bs

end

namespace Grammar

theorem shapesOf_addLetter (c : Char) (ns : List Node) :
    Node.shapesOf (addLetter c ns) = Node.shapesOf ns := by
  obtain _ | ⟨_ | _ | _, ns⟩ := ns <;> simp [addLetter, Node.shapesOf, Node.shapes]

theorem normalOf_addLetter {depth : Nat} (c : Char) {ns : List Node}
    (h : Node.NormalOf depth ns) : Node.NormalOf depth (addLetter c ns) := by
  obtain _ | ⟨_ | _ | _, ns⟩ := ns <;>
    simp_all [addLetter, Node.NormalOf, Node.Normal, Node.isLiteral]

theorem numberedOf_addLetter {first : Nat} (c : Char) {ns : List Node}
    (h : Node.NumberedOf first ns) : Node.NumberedOf first (addLetter c ns) := by
  obtain _ | ⟨_ | _ | _, ns⟩ := ns <;>
    simp_all [addLetter, Node.NumberedOf, Node.Numbered, Node.shapes]

theorem Ending.weight_ne_zero {stop : Char} {weight : Option UInt32} {w : List Char}
    (h : Ending stop weight w) : weight ≠ some 0 := by
  cases h with
  | bare => simp
  | weighted hd hne hn hpos =>
    rintro ⟨⟩
    exact absurd hpos (by decide)

mutual

theorem Sequence.normalOf {depth : Nat} {x y : Cursor} {ns : List Node} :
    Sequence depth x ns y → Node.NormalOf depth ns
  | .nil => trivial
  | .letter _ hs => normalOf_addLetter _ hs.normalOf
  | .slot hn hs => ⟨hn, by simp [Node.isLiteral], hs.normalOf⟩
  | .group hd hb h2 hs => ⟨⟨hd, h2, hb.normalIn⟩, by simp [Node.isLiteral], hs.normalOf⟩

theorem Branches.normalIn {depth : Nat} {x y : Cursor} {bs : List (Branch Node)} :
    Branches depth x bs y → Branch.NormalIn depth bs
  | .last hs hne he => ⟨hne, hs.normalOf, he.weight_ne_zero, trivial⟩
  | .more hs hne he hb => ⟨hne, hs.normalOf, he.weight_ne_zero, hb.normalIn⟩

end

mutual

/-- The number that a derivation gives to a group is its place among all groups. -/
theorem Sequence.numberedOf {depth : Nat} {x y : Cursor} {ns : List Node} :
    Sequence depth x ns y →
      Node.NumberedOf x.groups ns ∧ y.groups = x.groups + (Node.shapesOf ns).length
  | .nil => ⟨trivial, rfl⟩
  | .letter _ hs => by
    rw [shapesOf_addLetter]
    exact ⟨numberedOf_addLetter _ hs.numberedOf.1, hs.numberedOf.2⟩
  | .slot _ hs => ⟨⟨trivial, hs.numberedOf.1⟩, hs.numberedOf.2⟩
  | .group _ hb _ hs => by
    obtain ⟨hin, hk⟩ := hb.numberedIn
    obtain ⟨hns, hy⟩ := hs.numberedOf
    simp only at hin hk
    rw [hk] at hns hy
    simp only [Node.NumberedOf, Node.Numbered, Node.shapesOf, Node.shapes, List.length_append,
      List.length_cons]
    refine ⟨⟨⟨trivial, hin⟩, ?_⟩, by omega⟩
    rwa [Nat.add_right_comm, Nat.add_assoc] at hns

theorem Branches.numberedIn {depth : Nat} {x y : Cursor} {bs : List (Branch Node)} :
    Branches depth x bs y →
      Branch.NumberedIn x.groups bs ∧ y.groups = x.groups + (Branch.shapesIn bs).length
  | .last hs _ _ => by
    obtain ⟨hns, hk⟩ := hs.numberedOf
    simp only at hk
    simp [Branch.NumberedIn, Branch.shapesIn, hns, hk]
  | .more hs _ _ hb => by
    obtain ⟨hns, hk⟩ := hs.numberedOf
    obtain ⟨hbs, hy⟩ := hb.numberedIn
    simp only at hk hbs hy
    rw [hk] at hbs hy
    simp only [Branch.NumberedIn, Branch.shapesIn, List.length_append]
    exact ⟨⟨hns, hbs⟩, by omega⟩

end

end Grammar

theorem Template.normalOf_of_parse {text : String} {t : Template}
    (h : Template.parse text = .ok t) : Node.NormalOf 0 t.nodes := by
  obtain ⟨offset, groups, hs⟩ := Template.derives_of_parse h
  exact hs.normalOf

theorem Template.numberedOf_of_parse {text : String} {t : Template}
    (h : Template.parse text = .ok t) : Node.NumberedOf 0 t.nodes := by
  obtain ⟨offset, groups, hs⟩ := Template.derives_of_parse h
  exact hs.numberedOf.1

end Spintax
