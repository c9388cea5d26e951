import Mathlib
import Spintax.Proofs.Template.NormalForm

namespace Spintax

structure Group where
  index : Nat
  offset : Nat
  branches : List (Branch Node)

mutual

def Node.preorder : Node → List Group
  | .literal _ => []
  | .slot _ => []
  | .group index offset bs => ⟨index, offset, bs⟩ :: Branch.preorderIn bs

def Node.preorderOf : List Node → List Group
  | [] => []
  | n :: ns => n.preorder ++ Node.preorderOf ns

def Branch.preorderIn : List (Branch Node) → List Group
  | [] => []
  | ⟨ns, _⟩ :: bs => Node.preorderOf ns ++ Branch.preorderIn bs

end

def Template.preorder (t : Template) : List Group :=
  Node.preorderOf t.nodes

namespace Group

def shape (g : Group) : Shape :=
  .ofBranches g.branches

mutual

theorem shapes_eq : ∀ n : Node, n.shapes = n.preorder.map shape
  | .literal _ => rfl
  | .slot _ => rfl
  | .group _ _ bs => by
    rw [Node.shapes, Node.preorder, List.map_cons, shapesIn_eq bs]
    rfl

theorem shapesOf_eq : ∀ ns : List Node, Node.shapesOf ns = (Node.preorderOf ns).map shape
  | [] => rfl
  | n :: ns => by
    rw [Node.shapesOf, Node.preorderOf, List.map_append, shapes_eq n, shapesOf_eq ns]

theorem shapesIn_eq : ∀ bs : List (Branch Node),
    Branch.shapesIn bs = (Branch.preorderIn bs).map shape
  | [] => rfl
  | ⟨ns, _⟩ :: bs => by
    rw [Branch.shapesIn, Branch.preorderIn, List.map_append, shapesOf_eq ns, shapesIn_eq bs]

end

mutual

theorem map_index {first : Nat} : ∀ n : Node, n.Numbered first →
    n.preorder.map index = List.range' first n.preorder.length
  | .literal _, _ => rfl
  | .slot _, _ => rfl
  | .group _ _ bs, ⟨rfl, hbs⟩ => by
    rw [Node.preorder, List.map_cons, map_indexIn bs hbs, List.length_cons, List.range'_succ]

theorem map_indexOf {first : Nat} : ∀ ns : List Node, Node.NumberedOf first ns →
    (Node.preorderOf ns).map index = List.range' first (Node.preorderOf ns).length
  | [], _ => rfl
  | n :: ns, ⟨hn, hns⟩ => by
    rw [shapes_eq, List.length_map] at hns
    rw [Node.preorderOf, List.map_append, map_index n hn, map_indexOf ns hns,
      List.length_append, List.range'_append_1]

theorem map_indexIn {first : Nat} : ∀ bs : List (Branch Node), Branch.NumberedIn first bs →
    (Branch.preorderIn bs).map index = List.range' first (Branch.preorderIn bs).length
  | [], _ => rfl
  | ⟨ns, _⟩ :: bs, ⟨hns, hbs⟩ => by
    rw [shapesOf_eq, List.length_map] at hbs
    rw [Branch.preorderIn, List.map_append, map_indexOf ns hns, map_indexIn bs hbs,
      List.length_append, List.range'_append_1]

end

end Group

/-- The shape is that of a group with these branches: it has weights if a weight is written
behind one of them, and then a branch without a weight counts once. -/
def Shape.Describes (shape : Shape) (bs : List (Branch Node)) : Prop :=
  shape.branches = bs.length ∧ ∀ weights, shape.weights = some weights ↔
    (∃ b ∈ bs, b.weight ≠ none) ∧ weights = bs.map fun b => b.weight.getD 1

theorem Shape.describes_ofBranches (bs : List (Branch Node)) :
    (Shape.ofBranches bs).Describes bs := by
  refine ⟨rfl, fun weights => ?_⟩
  have hany : bs.any (·.weight.isSome) = true ↔ ∃ b ∈ bs, b.weight ≠ none := by
    simp [Option.isSome_iff_ne_none]
  rw [← hany, ofBranches]
  by_cases h : bs.any (·.weight.isSome) = true
  · simp only [h, if_true, Option.some.injEq, true_and]
    exact eq_comm
  · simp [h]

namespace Grammar

/-- The backslashes at the end of `before` stand for each other in pairs, so that none of them
escapes what comes next. -/
def Unescaped (before : List Char) : Prop :=
  Even (before.rtakeWhile (· = '\\')).length

/-- At byte position `offset` the text has an opening brace, and the brace is not escaped. -/
def OpeningAt (text : List Char) (offset : Nat) : Prop :=
  ∃ before after, text = before ++ '{' :: after ∧ Text.byteLength before = offset ∧
    Unescaped before

theorem unescaped_nil : Unescaped [] :=
  ⟨0, rfl⟩

theorem unescaped_concat {c : Char} (hc : c ≠ '\\') (before : List Char) :
    Unescaped (before ++ [c]) := by
  rw [Unescaped, List.rtakeWhile_concat_neg _ _ _ (by simpa using hc)]
  exact ⟨0, rfl⟩

theorem Unescaped.pair {before : List Char} (h : Unescaped before) :
    Unescaped (before ++ ['\\', '\\']) := by
  have hpair : before ++ ['\\', '\\'] = (before ++ ['\\']) ++ ['\\'] := by simp
  rw [Unescaped, hpair, List.rtakeWhile_concat_pos _ _ _ (by decide),
    List.rtakeWhile_concat_pos _ _ _ (by decide)]
  simp only [List.length_append, List.length_singleton, Nat.even_add_one, not_not]
  exact h

def Cursor.In (text : List Char) (x : Cursor) : Prop :=
  ∃ before, text = before ++ x.rest ∧ Text.byteLength before = x.offset ∧
    (Unescaped before ∨ ∀ c, x.rest.head? = some c → ¬ Lexeme.isSpecial c)

namespace Cursor.In

variable {text w rest : List Char} {offset groups groups' : Nat}

theorem move (h : In text ⟨w ++ rest, offset, groups⟩)
    (hw : ∀ before, Unescaped before ∨ (∀ c, (w ++ rest).head? = some c → ¬ Lexeme.isSpecial c) →
      Unescaped (before ++ w) ∨ ∀ c, rest.head? = some c → ¬ Lexeme.isSpecial c) :
    In text ⟨rest, offset + Text.byteLength w, groups'⟩ := by
  obtain ⟨before, htext, hoffset, hclear⟩ := h
  refine ⟨before ++ w, by simp [htext], ?_, hw before hclear⟩
  rw [Text.byteLength_append, hoffset]

theorem letter {inside : Bool} {c : Char} (hc : Letter inside w c rest)
    (h : In text ⟨w ++ rest, offset, groups⟩) :
    In text ⟨rest, offset + Text.byteLength w, groups'⟩ := by
  refine h.move fun before hclear => ?_
  cases hc with
  | escaped hc =>
    have hbefore : Unescaped before := hclear.resolve_right fun h => h '\\' rfl (by decide)
    by_cases hb : c = '\\'
    · subst hb
      exact .inl hbefore.pair
    · rw [List.append_cons]
      exact .inl (unescaped_concat hb _)
  | backslash hr => exact .inr hr
  | plain hc => exact .inl (unescaped_concat hc.2.2 before)

theorem stop {c : Char} (hc : c ≠ '\\') (h : In text ⟨(w ++ [c]) ++ rest, offset, groups⟩) :
    In text ⟨rest, offset + Text.byteLength (w ++ [c]), groups'⟩ := by
  refine h.move fun before _ => ?_
  rw [← List.append_assoc]
  exact .inl (unescaped_concat hc _)

theorem ending {c : Char} {weight : Option UInt32} (hc : c ≠ '\\') (he : Ending c weight w)
    (h : In text ⟨w ++ rest, offset, groups⟩) :
    In text ⟨rest, offset + Text.byteLength w, groups'⟩ := by
  cases he with
  | bare => exact h.stop (w := []) hc
  | weighted => exact h.stop (w := '^' :: _) hc

theorem slot {name : String} (h : In text ⟨braced name ++ rest, offset, groups⟩) :
    In text ⟨rest, offset + Text.byteLength (braced name), groups'⟩ := by
  have hbraced : braced name = ('{' :: '{' :: (name.toList ++ ['}'])) ++ ['}'] := by
    simp [braced]
  rw [hbraced] at h ⊢
  exact h.stop (by decide)

theorem openingAt (h : In text ⟨'{' :: rest, offset, groups⟩) : OpeningAt text offset := by
  obtain ⟨before, htext, hoffset, hclear⟩ := h
  refine ⟨before, rest, htext, hoffset, ?_⟩
  exact hclear.resolve_right fun h => h '{' rfl (by decide)

end Cursor.In

structure Laid (text : List Char) (low high : Nat) (gs : List Group) : Prop where
  ascending : gs.Pairwise (·.offset < ·.offset)
  between : ∀ g ∈ gs, low ≤ g.offset ∧ g.offset < high
  braces : ∀ g ∈ gs, OpeningAt text g.offset

namespace Laid

variable {text : List Char} {low low' mid high high' : Nat} {gs gs' : List Group}

theorem nil : Laid text low high [] :=
  ⟨List.Pairwise.nil, by simp, by simp⟩

theorem mono (h : Laid text low high gs) (hlow : low' ≤ low) (hhigh : high ≤ high') :
    Laid text low' high' gs := by
  refine ⟨h.ascending, fun g hg => ?_, h.braces⟩
  obtain ⟨hl, hh⟩ := h.between g hg
  exact ⟨Nat.le_trans hlow hl, Nat.lt_of_lt_of_le hh hhigh⟩

theorem append (h : Laid text low mid gs) (h' : Laid text mid high gs') (hlow : low ≤ mid)
    (hhigh : mid ≤ high) : Laid text low high (gs ++ gs') := by
  constructor
  · refine List.pairwise_append.mpr ⟨h.ascending, h'.ascending, fun g hg g' hg' => ?_⟩
    exact Nat.lt_of_lt_of_le (h.between g hg).2 (h'.between g' hg').1
  · intro g hg
    obtain hg | hg := List.mem_append.mp hg
    · exact (h.mono (Nat.le_refl _) hhigh).between g hg
    · exact (h'.mono hlow (Nat.le_refl _)).between g hg
  · intro g hg
    exact (List.mem_append.mp hg).elim (h.braces g) (h'.braces g)

theorem cons {g : Group} (h : Laid text (g.offset + 1) high gs) (hb : OpeningAt text g.offset)
    (hhigh : g.offset + 1 ≤ high) : Laid text g.offset high (g :: gs) := by
  have hone : Laid text g.offset (g.offset + 1) [g] := by
    refine ⟨List.pairwise_singleton _ _, fun g' hg => ?_, fun g' hg => ?_⟩
    · cases List.mem_singleton.mp hg
      exact ⟨Nat.le_refl _, Nat.lt_succ_self _⟩
    · cases List.mem_singleton.mp hg
      exact hb
  exact hone.append h (Nat.le_succ _) hhigh

end Laid

theorem preorderOf_addLetter (c : Char) (ns : List Node) :
    Node.preorderOf (addLetter c ns) = Node.preorderOf ns := by
  obtain _ | ⟨_ | _ | _, ns⟩ := ns <;> simp [addLetter, Node.preorderOf, Node.preorder]

mutual

theorem Sequence.laid {text : List Char} {depth : Nat} {x y : Cursor} {ns : List Node} :
    Sequence depth x ns y → x.In text →
      y.In text ∧ x.offset ≤ y.offset ∧ Laid text x.offset y.offset (Node.preorderOf ns)
  | .nil, hx => ⟨hx, Nat.le_refl _, .nil⟩
  | .letter hc hs, hx => by
    obtain ⟨hy, hle, hlaid⟩ := hs.laid (hx.letter hc)
    have hle := Nat.le_trans (Nat.le_add_right _ _) hle
    rw [preorderOf_addLetter]
    exact ⟨hy, hle, hlaid.mono (Nat.le_add_right _ _) (Nat.le_refl _)⟩
  | .slot _ hs, hx => by
    obtain ⟨hy, hle, hlaid⟩ := hs.laid hx.slot
    have hle := Nat.le_trans (Nat.le_add_right _ _) hle
    exact ⟨hy, hle, hlaid.mono (Nat.le_add_right _ _) (Nat.le_refl _)⟩
  | @Sequence.group _ offset groups _ bs _ y _ _ hb _ hs, hx => by
    have hbrace := hx.openingAt
    obtain ⟨hy, hle, hlaid⟩ := hb.laid (hx.stop (w := []) (by decide))
    obtain ⟨hz, hle', hlaid'⟩ := hs.laid hy
    have hin : Laid text offset y.offset (⟨groups, offset, bs⟩ :: Branch.preorderIn bs) :=
      Laid.cons (g := ⟨groups, offset, bs⟩) hlaid hbrace hle
    have hle := Nat.le_trans (Nat.le_succ _) hle
    exact ⟨hz, Nat.le_trans hle hle', hin.append hlaid' hle hle'⟩

theorem Branches.laid {text : List Char} {depth : Nat} {x y : Cursor}
    {bs : List (Branch Node)} : Branches depth x bs y → x.In text →
      y.In text ∧ x.offset ≤ y.offset ∧ Laid text x.offset y.offset (Branch.preorderIn bs)
  | .last hs hne he, hx => by
    obtain ⟨hy, hle, hlaid⟩ := hs.laid hx
    rw [Branch.preorderIn, Branch.preorderIn, List.append_nil]
    exact ⟨hy.ending (by decide) he, Nat.le_trans hle (Nat.le_add_right _ _),
      hlaid.mono (Nat.le_refl _) (Nat.le_add_right _ _)⟩
  | .more hs hne he hb, hx => by
    obtain ⟨hy, hle, hlaid⟩ := hs.laid hx
    obtain ⟨hz, hle', hlaid'⟩ := hb.laid (hy.ending (by decide) he)
    have hle' := Nat.le_trans (Nat.le_add_right _ _) hle'
    rw [Branch.preorderIn]
    refine ⟨hz, Nat.le_trans hle hle', hlaid.append ?_ hle hle'⟩
    exact hlaid'.mono (Nat.le_add_right _ _) (Nat.le_refl _)

end

end Grammar

namespace Template

/-- What a template is like that was read from a text. The groups are numbered in reading order,
and what is known by a number is about the group with that number. Their braces stand in the text
in the same order. -/
structure Regular (text : String) (t : Template) : Prop where
  indices : t.preorder.map (·.index) = List.range t.groupCount
  shapes : ∀ g ∈ t.preorder, ∃ shape, t.shapes[g.index]? = some shape ∧
    shape.Describes g.branches
  offsets : t.preorder.Pairwise (·.offset < ·.offset)
  braces : ∀ g ∈ t.preorder, Grammar.OpeningAt text.toList g.offset
  normal : Node.NormalOf 0 t.nodes

variable {text : String} {t : Template}

theorem shapes_eq_map (t : Template) : t.shapes = t.preorder.map Group.shape :=
  Group.shapesOf_eq t.nodes

theorem index_getElem (ht : parse text = .ok t) {i : Nat} {g : Group}
    (h : t.preorder[i]? = some g) : g.index = i := by
  have hmap := Group.map_indexOf t.nodes (numberedOf_of_parse ht)
  have hi : (t.preorder.map Group.index)[i]? = some g.index := by
    rw [List.getElem?_map, h]
    rfl
  have hlen : i < (Node.preorderOf t.nodes).length := (List.getElem?_eq_some_iff.mp h).1
  rw [preorder, hmap, List.getElem?_range' hlen] at hi
  simpa using hi.symm

theorem shapes_getElem (ht : parse text = .ok t) {g : Group} (hg : g ∈ t.preorder) :
    t.shapes[g.index]? = some g.shape := by
  obtain ⟨i, hi⟩ := List.mem_iff_getElem?.mp hg
  rw [index_getElem ht hi, shapes_eq_map, List.getElem?_map, hi]
  rfl

theorem laid_of_parse (ht : parse text = .ok t) :
    ∃ high, Grammar.Laid text.toList 0 high t.preorder := by
  obtain ⟨offset, groups, hs⟩ := derives_of_parse ht
  have hstart : Grammar.Cursor.In text.toList ⟨text.toList, 0, 0⟩ :=
    ⟨[], rfl, rfl, .inl Grammar.unescaped_nil⟩
  exact ⟨_, (hs.laid hstart).2.2⟩

theorem regular_of_parse (ht : parse text = .ok t) : t.Regular text := by
  obtain ⟨high, hlaid⟩ := laid_of_parse ht
  refine ⟨?_, fun g hg => ?_, hlaid.ascending, hlaid.braces, normalOf_of_parse ht⟩
  · have hindices := Group.map_indexOf t.nodes (numberedOf_of_parse ht)
    rw [groupCount, shapes_eq_map, List.length_map, List.range_eq_range']
    exact hindices
  · exact ⟨g.shape, shapes_getElem ht hg, Shape.describes_ofBranches g.branches⟩

theorem regular_of_parse_nested : ∃ t, parse "é\\\\{a^2|{b|{{x}}}}" = .ok t ∧
    t.preorder.map (fun g => (g.index, g.offset, g.shape)) =
      [(0, 4, ⟨2, some [2, 1]⟩), (1, 9, ⟨2, none⟩)] ∧
    t.Regular "é\\\\{a^2|{b|{{x}}}}" := by
  obtain ⟨t, ht, hgroups⟩ : ∃ t, parse "é\\\\{a^2|{b|{{x}}}}" = .ok t ∧
      t.preorder.map (fun g => (g.index, g.offset, g.shape)) =
        [(0, 4, ⟨2, some [2, 1]⟩), (1, 9, ⟨2, none⟩)] := ⟨_, by cbv, by cbv⟩
  exact ⟨t, ht, hgroups, regular_of_parse ht⟩

end Template

end Spintax
