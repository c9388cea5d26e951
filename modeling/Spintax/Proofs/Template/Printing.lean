import Spintax.Proofs.Number.Digits
import Spintax.Proofs.Template.NormalForm
import Spintax.Render

namespace Spintax

open Grammar

namespace Lexeme

def escapeChar (c : Char) : List Char :=
  if isSpecial c then ['\\', c] else [c]

def escape (cs : List Char) : List Char :=
  cs.flatMap escapeChar

end Lexeme

def Branch.printWeight : Option UInt32 → List Char
  | none => []
  | some n => '^' :: Nat.toDigits 10 n.toNat

mutual

def Node.print : Node → List Char
  | .literal text => Lexeme.escape text.toList
  | .slot name => braced name
  | .group _ _ bs => '{' :: Branch.printIn bs

def Node.printOf : List Node → List Char
  | [] => []
  | n :: ns => n.print ++ Node.printOf ns

def Branch.printIn : List (Branch Node) → List Char
  | [] => []
  | ⟨ns, weight⟩ :: bs => Node.printOf ns ++ (Branch.printWeight weight ++
      if bs.isEmpty then ['}'] else '|' :: Branch.printIn bs)

end

mutual

/-- The node with its groups numbered from `groups` on, each with the byte position of its
brace when the node is written from `offset` on. -/
def Node.place (offset groups : Nat) : Node → Node
  | .literal text => .literal text
  | .slot name => .slot name
  | .group _ _ bs => .group groups offset (Branch.placeIn (offset + 1) (groups + 1) bs)

def Node.placeOf (offset groups : Nat) : List Node → List Node
  | [] => []
  | n :: ns => n.place offset groups ::
      Node.placeOf (offset + Text.byteLength n.print) (groups + n.shapes.length) ns

def Branch.placeIn (offset groups : Nat) : List (Branch Node) → List (Branch Node)
  | [] => []
  | ⟨ns, weight⟩ :: bs => ⟨Node.placeOf offset groups ns, weight⟩ ::
      Branch.placeIn
        (offset + Text.byteLength (Node.printOf ns) +
          Text.byteLength (Branch.printWeight weight) + 1)
        (groups + (Node.shapesOf ns).length) bs

end

namespace Grammar

theorem letter_escapeChar {inside : Bool} (c : Char) (rest : List Char) :
    Letter inside (Lexeme.escapeChar c) c rest := by
  unfold Lexeme.escapeChar
  split
  · next hc => exact .escaped hc
  · next hc =>
    simp only [Lexeme.isSpecial, Bool.or_eq_true, decide_eq_true_eq, not_or] at hc
    obtain ⟨⟨⟨⟨hopen, hclose⟩, hbar⟩, hbackslash⟩, hcaret⟩ := hc
    exact .plain ⟨hopen, hclose, hbackslash⟩ fun _ => ⟨hbar, fun h => absurd h hcaret⟩

theorem sequence_escape {depth offset groups : Nat} (cs : List Char) {rest : List Char}
    {ns : List Node} {y : Cursor}
    (h : Sequence depth ⟨rest, offset + Text.byteLength (Lexeme.escape cs), groups⟩ ns y) :
    Sequence depth ⟨Lexeme.escape cs ++ rest, offset, groups⟩ (cs.foldr addLetter ns) y := by
  induction cs generalizing offset with
  | nil => exact h
  | cons c cs ih =>
    have he : Lexeme.escape (c :: cs) = Lexeme.escapeChar c ++ Lexeme.escape cs := rfl
    rw [he, Text.byteLength_append, ← Nat.add_assoc] at h
    rw [he, List.append_assoc]
    exact .letter (letter_escapeChar c _) (ih h)

theorem foldr_addLetter {cs : List Char} {ns : List Node} (hcs : cs ≠ [])
    (hns : ns.head?.any Node.isLiteral = false) :
    cs.foldr addLetter ns = .literal (.ofList cs) :: ns := by
  induction cs with
  | nil => exact absurd rfl hcs
  | cons c cs ih =>
    rw [List.foldr_cons]
    cases cs with
    | nil => obtain _ | ⟨_ | _ | _, ns⟩ := ns <;> simp_all [addLetter, Node.isLiteral]
    | cons d cs => simp [ih, addLetter, String.ofList_cons]

theorem ending_printWeight {stop : Char} {weight : Option UInt32} (h : weight ≠ some 0) :
    Ending stop weight (Branch.printWeight weight ++ [stop]) := by
  cases weight with
  | none => exact .bare
  | some n =>
    have hpos : 0 < n.toNat := by
      rw [Nat.pos_iff_ne_zero]
      intro hn
      exact h (congrArg some (UInt32.toNat_inj.mp hn))
    exact .weighted (fun d hd => Nat.isDigit_of_mem_toDigits (by decide) (by decide) hd)
      Nat.toDigits_ne_nil (Number.valueOf_toDigits _) hpos

theorem isLiteral_head_placeOf (offset groups : Nat) (ns : List Node) :
    (Node.placeOf offset groups ns).head?.any Node.isLiteral = ns.head?.any Node.isLiteral := by
  obtain _ | ⟨_ | _ | _, ns⟩ := ns <;> rfl

theorem placeOf_ne_nil {offset groups : Nat} {ns : List Node} (h : ns ≠ []) :
    Node.placeOf offset groups ns ≠ [] := by
  cases ns with
  | nil => exact absurd rfl h
  | cons n ns => exact List.cons_ne_nil _ _

theorem length_placeIn (offset groups : Nat) (bs : List (Branch Node)) :
    (Branch.placeIn offset groups bs).length = bs.length := by
  induction bs generalizing offset groups with
  | nil => rfl
  | cons b bs ih => simp [Branch.placeIn, ih]

mutual

/-- What is printed is derived, wherever it stands. -/
theorem sequence_print {depth offset groups : Nat} {rest : List Char} {ns : List Node}
    {y : Cursor} : ∀ n : Node, n.Normal depth →
      ¬ (n.isLiteral ∧ ns.head?.any Node.isLiteral) →
      Sequence depth ⟨rest, offset + Text.byteLength n.print, groups + n.shapes.length⟩ ns y →
      Sequence depth ⟨n.print ++ rest, offset, groups⟩ (n.place offset groups :: ns) y
  | .literal text, hn, hsep, h => by
    have hne : text.toList ≠ [] := by simpa [Node.Normal] using hn
    have hhead : ns.head?.any Node.isLiteral = false := by simpa [Node.isLiteral] using hsep
    have hs := sequence_escape text.toList h
    rwa [foldr_addLetter hne hhead, String.ofList_toList] at hs
  | .slot name, hn, _, h => .slot hn h
  | .group _ _ bs, hn, _, h => by
    obtain ⟨hd, h2, hbs⟩ := hn
    have hb := branches_printIn (offset + 1) (groups + 1) rest bs
      (List.ne_nil_of_length_pos (by omega)) hbs
    have hoffset : offset + 1 + Text.byteLength (Branch.printIn bs) =
        offset + Text.byteLength ('{' :: Branch.printIn bs) := Nat.add_assoc ..
    have hgroups : groups + 1 + (Branch.shapesIn bs).length =
        groups + (Shape.ofBranches bs :: Branch.shapesIn bs).length := by
      rw [List.length_cons, Nat.add_assoc, Nat.add_comm 1]
    rw [hoffset, hgroups] at hb
    exact .group hd hb (by rwa [length_placeIn]) h

theorem sequence_printOf {depth : Nat} (offset groups : Nat) (rest : List Char) :
    ∀ ns : List Node, Node.NormalOf depth ns →
      Sequence depth ⟨Node.printOf ns ++ rest, offset, groups⟩ (Node.placeOf offset groups ns)
        ⟨rest, offset + Text.byteLength (Node.printOf ns), groups + (Node.shapesOf ns).length⟩
  | [], _ => .nil
  | n :: ns, ⟨hn, hsep, hns⟩ => by
    have hs := sequence_printOf (offset + Text.byteLength n.print) (groups + n.shapes.length)
      rest ns hns
    have h := sequence_print n hn (by rwa [isLiteral_head_placeOf]) hs
    simpa [Node.printOf, Node.placeOf, Node.shapesOf, Text.byteLength_append, Nat.add_assoc]
      using h

theorem branches_printIn {depth : Nat} (offset groups : Nat) (rest : List Char) :
    ∀ bs : List (Branch Node), bs ≠ [] → Branch.NormalIn depth bs →
      Branches depth ⟨Branch.printIn bs ++ rest, offset, groups⟩
        (Branch.placeIn offset groups bs)
        ⟨rest, offset + Text.byteLength (Branch.printIn bs),
          groups + (Branch.shapesIn bs).length⟩
  | [], hne, _ => absurd rfl hne
  | [⟨ns, weight⟩], _, ⟨hne, hns, hw, _⟩ => by
    have hs := sequence_printOf offset groups
      ((Branch.printWeight weight ++ ['}']) ++ rest) ns hns
    have hb := Branches.last hs (placeOf_ne_nil hne) (ending_printWeight hw)
    simpa [Branch.printIn, Branch.placeIn, Branch.shapesIn, Text.byteLength_append,
      Nat.add_assoc] using hb
  | ⟨ns, weight⟩ :: b :: bs, _, ⟨hne, hns, hw, hbs⟩ => by
    have hs := sequence_printOf offset groups
      ((Branch.printWeight weight ++ ['|']) ++ (Branch.printIn (b :: bs) ++ rest)) ns hns
    have hb := Branches.more hs (placeOf_ne_nil hne) (ending_printWeight hw)
      (branches_printIn _ _ rest (b :: bs) (List.cons_ne_nil _ _) hbs)
    have hbar : '|'.utf8Size = 1 := by decide
    rw [Branch.printIn, Branch.placeIn, Branch.shapesIn]
    simpa [Text.byteLength_append, Nat.add_assoc, hbar] using hb

end

end Grammar

namespace Template

def print (t : Template) : String :=
  .ofList (Node.printOf t.nodes)

/-- The template with the numbers and positions that its groups have in its text. -/
def placed (t : Template) : Template :=
  ⟨Node.placeOf 0 0 t.nodes⟩

theorem parse_print_of_normalOf {t : Template} (h : Node.NormalOf 0 t.nodes) :
    parse t.print = .ok t.placed := by
  have hs := sequence_printOf 0 0 [] t.nodes h
  rw [List.append_nil] at hs
  apply parse_of_derives
  rw [print, String.toList_ofList]
  exact ⟨_, _, hs⟩

theorem parse_escape (s : String) :
    parse (.ofList (Lexeme.escape s.toList)) = .ok ⟨if s = "" then [] else [.literal s]⟩ := by
  have hs : Sequence 0 ⟨Lexeme.escape s.toList ++ [], 0, 0⟩ (s.toList.foldr addLetter []) _ :=
    sequence_escape s.toList .nil
  rw [List.append_nil] at hs
  apply parse_of_derives
  rw [String.toList_ofList]
  split
  · next he =>
    subst he
    exact ⟨_, _, hs⟩
  · next hne =>
    have hcs : s.toList ≠ [] := by simpa using hne
    rw [foldr_addLetter hcs rfl, String.ofList_toList] at hs
    exact ⟨_, _, hs⟩

theorem render_literal (policy : Policy) (vs : Variables) (s : String) :
    render ⟨[.literal s]⟩ policy [] vs = .ok ⟨s, [], []⟩ := by
  have hcount : ([] : Path).length = groupCount ⟨[.literal s]⟩ := rfl
  have hnodes : Render.nodes policy [] vs [.literal s] = .ok (.ofText s ++ .ofText "") := rfl
  rw [render, if_pos hcount, hnodes]
  simp [Except.map, Passage.ofText]

/-- What is written is read back, and a text that is escaped stands for itself. -/
theorem parse_print :
    (∀ t : Template, Node.NormalOf 0 t.nodes → parse t.print = .ok t.placed) ∧
    ∀ s : String, ∃ t, parse (.ofList (Lexeme.escape s.toList)) = .ok t ∧
      t.nodes = (if s = "" then [] else [.literal s]) ∧ t.groupCount = 0 ∧
      ∀ policy vs, t.render policy [] vs = .ok ⟨s, [], []⟩ := by
  refine ⟨fun t => parse_print_of_normalOf, fun s => ⟨_, parse_escape s, rfl, ?_⟩⟩
  split
  · next he =>
    subst he
    exact ⟨rfl, fun _ _ => rfl⟩
  · exact ⟨rfl, fun policy vs => render_literal policy vs s⟩

theorem parse_print_nested :
    Node.NormalOf 0 [.literal "1^", .group 9 9 [⟨[.group 9 9 [⟨[.slot "name"], some 3⟩,
      ⟨[.literal "x^2"], none⟩]], none⟩, ⟨[.literal "|"], some 12⟩]] ∧
    parse (print ⟨[.literal "1^", .group 9 9 [⟨[.group 9 9 [⟨[.slot "name"], some 3⟩,
      ⟨[.literal "x^2"], none⟩]], none⟩, ⟨[.literal "|"], some 12⟩]]⟩) =
    .ok ⟨[.literal "1^", .group 0 3 [⟨[.group 1 4 [⟨[.slot "name"], some 3⟩,
      ⟨[.literal "x^2"], none⟩]], none⟩, ⟨[.literal "|"], some 12⟩]]⟩ := by
  have h : Node.NormalOf 0 [.literal "1^", .group 9 9 [⟨[.group 9 9 [⟨[.slot "name"], some 3⟩,
      ⟨[.literal "x^2"], none⟩]], none⟩, ⟨[.literal "|"], some 12⟩]] := by
    simp [Node.NormalOf, Node.Normal, Branch.NormalIn, Node.isLiteral, maxDepth]
    decide
  exact ⟨h, parse_print.1 ⟨_⟩ h⟩

end Template

end Spintax
