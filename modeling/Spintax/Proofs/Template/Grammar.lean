import Spintax.Template.Parser

namespace Spintax.Grammar

/-- A place in a text: the characters from there on, the byte position, and the
number of groups that were opened before. -/
structure Cursor where
  rest : List Char
  offset : Nat
  groups : Nat

/-- One or more digits and the end of a branch: a caret in front of them writes a
weight. -/
def WeightAhead (rest : List Char) : Prop :=
  ∃ digits c more, rest = digits ++ c :: more ∧ digits ≠ [] ∧
    (∀ d ∈ digits, d.isDigit) ∧ (c = '|' ∨ c = '}')

/-- `Letter inside w c rest`: in front of `rest`, the characters `w` stand for the
literal character `c`. What is special about bars and carets holds inside groups. -/
inductive Letter (inside : Bool) : List Char → Char → List Char → Prop
  | escaped {c : Char} {rest : List Char} (hc : Lexeme.isSpecial c) :
      Letter inside ['\\', c] c rest
  | backslash {rest : List Char} (hr : ∀ c, rest.head? = some c → ¬ Lexeme.isSpecial c) :
      Letter inside ['\\'] '\\' rest
  | plain {c : Char} {rest : List Char} (hc : c ≠ '{' ∧ c ≠ '}' ∧ c ≠ '\\')
      (hi : inside → c ≠ '|' ∧ (c = '^' → ¬ WeightAhead rest)) :
      Letter inside [c] c rest

/-- `Ending stop weight w`: the characters `w` are the weight of a branch, if it has
one, and the bar or brace `stop` that ends it. -/
inductive Ending (stop : Char) : Option UInt32 → List Char → Prop
  | bare : Ending stop none [stop]
  | weighted {digits : List Char} {n : UInt32} (hd : ∀ d ∈ digits, d.isDigit)
      (hne : digits ≠ []) (hn : Number.valueOf digits = n.toNat) (hpos : 0 < n.toNat) :
      Ending stop (some n) ('^' :: (digits ++ [stop]))

/-- A literal character in front of a sequence joins a literal that comes first. -/
def addLetter (c : Char) : List Node → List Node
  | .literal text :: ns => .literal (String.singleton c ++ text) :: ns
  | ns => .literal (String.singleton c) :: ns

def braced (name : String) : List Char :=
  '{' :: '{' :: (name.toList ++ ['}', '}'])

mutual

/-- `Sequence depth x ns y`: within `depth` groups, the text from `x` to `y` is a
sequence of pieces that makes the nodes `ns`. A piece is a literal character, a slot
or a group. -/
inductive Sequence : Nat → Cursor → List Node → Cursor → Prop
  | nil {depth : Nat} {x : Cursor} : Sequence depth x [] x
  | letter {depth offset groups : Nat} {w rest : List Char} {c : Char} {ns : List Node}
      {y : Cursor} (hc : Letter (0 < depth) w c rest)
      (hs : Sequence depth ⟨rest, offset + Text.byteLength w, groups⟩ ns y) :
      Sequence depth ⟨w ++ rest, offset, groups⟩ (addLetter c ns) y
  | slot {depth offset groups : Nat} {name : String} {rest : List Char} {ns : List Node}
      {y : Cursor} (hn : Lexeme.isIdentifier name.toList)
      (hs : Sequence depth ⟨rest, offset + Text.byteLength (braced name), groups⟩ ns y) :
      Sequence depth ⟨braced name ++ rest, offset, groups⟩ (.slot name :: ns) y
  | group {depth offset groups : Nat} {rest : List Char} {bs : List (Branch Node)}
      {ns : List Node} {y z : Cursor} (hd : depth < Template.maxDepth)
      (hb : Branches (depth + 1) ⟨rest, offset + 1, groups + 1⟩ bs y) (h2 : 2 ≤ bs.length)
      (hs : Sequence depth y ns z) :
      Sequence depth ⟨'{' :: rest, offset, groups⟩ (.group groups offset bs :: ns) z

/-- `Branches depth x bs y`: the text from `x` to `y` writes the branches `bs` of a
group up to its closing brace. No branch is without nodes. -/
inductive Branches : Nat → Cursor → List (Branch Node) → Cursor → Prop
  | last {depth offset groups : Nat} {x : Cursor} {ns : List Node} {weight : Option UInt32}
      {w rest : List Char} (hs : Sequence depth x ns ⟨w ++ rest, offset, groups⟩)
      (hne : ns ≠ []) (he : Ending '}' weight w) :
      Branches depth x [⟨ns, weight⟩] ⟨rest, offset + Text.byteLength w, groups⟩
  | more {depth offset groups : Nat} {x : Cursor} {ns : List Node} {weight : Option UInt32}
      {w rest : List Char} {bs : List (Branch Node)} {y : Cursor}
      (hs : Sequence depth x ns ⟨w ++ rest, offset, groups⟩)
      (hne : ns ≠ []) (he : Ending '|' weight w)
      (hb : Branches depth ⟨rest, offset + Text.byteLength w, groups⟩ bs y) :
      Branches depth x (⟨ns, weight⟩ :: bs) y

end

/-- The whole text is a sequence outside of all groups. -/
def Derives (text : List Char) (ns : List Node) : Prop :=
  ∃ offset groups, Sequence 0 ⟨text, 0, 0⟩ ns ⟨[], offset, groups⟩

def ClosesLate (cs : List Char) : Prop :=
  ∃ w c rest, cs = w ++ c :: rest ∧ (∀ b ∈ w, Lexeme.isSlotBody b) ∧
    Lexeme.isSlotBody c = false ∧ c ≠ '}'

theorem ClosesLate.append {w rest : List Char} (hw : ∀ b ∈ w, Lexeme.isSlotBody b)
    (h : ClosesLate rest) : ClosesLate (w ++ rest) := by
  obtain ⟨v, c, more, rfl, hv, hc⟩ := h
  refine ⟨w ++ v, c, more, by simp, ?_, hc⟩
  intro b hb
  exact (List.mem_append.mp hb).elim (hw b) (hv b)

theorem closesLate_cons {c : Char} {rest : List Char} (hc : Lexeme.isSlotBody c = false)
    (hne : c ≠ '}') : ClosesLate (c :: rest) :=
  ⟨[], c, rest, rfl, by simp, hc, hne⟩

theorem isSlotBody_of_isDigit {c : Char} (h : c.isDigit) : Lexeme.isSlotBody c := by
  have hne : ∀ d : Char, d.isDigit = false → c ≠ d := by
    rintro d hd rfl
    simp [h] at hd
  simp [Lexeme.isSlotBody, hne '{' (by decide), hne '}' (by decide), hne '|' (by decide),
    hne '\\' (by decide)]

/-- A sequence without slots, groups, bars and escapes runs on to the place where it ends. -/
theorem Sequence.plain_or_closesLate {depth : Nat} {x y : Cursor} {ns : List Node} :
    Sequence depth x ns y →
      (∃ w, x.rest = w ++ y.rest ∧ ∀ b ∈ w, Lexeme.isSlotBody b) ∨ ClosesLate x.rest
  | .nil => .inl ⟨[], rfl, by simp⟩
  | .slot .. => .inr (closesLate_cons (by decide) (by decide))
  | .group .. => .inr (closesLate_cons (by decide) (by decide))
  | .letter (.escaped _) _ => .inr (closesLate_cons (by decide) (by decide))
  | .letter (.backslash _) _ => .inr (closesLate_cons (by decide) (by decide))
  | .letter (c := c) (.plain hc _) hs => by
    by_cases hbar : c = '|'
    · subst hbar
      exact .inr (closesLate_cons (by decide) (by decide))
    · have hb : ∀ b ∈ [c], Lexeme.isSlotBody b := by
        simp [Lexeme.isSlotBody, hc.1, hc.2.1, hc.2.2, hbar]
      obtain ⟨w, hw, hall⟩ | hlate := hs.plain_or_closesLate
      · refine .inl ⟨c :: w, by simpa using hw, ?_⟩
        intro b hm
        exact (List.mem_cons.mp hm).elim (fun h => hb b (by simp [h])) (hall b)
      · exact .inr (hlate.append hb)

/-- A group shows that it is one before its closing brace: a bar, a backslash or another
opening brace comes first. -/
theorem Branches.closesLate {depth : Nat} {x y : Cursor} {bs : List (Branch Node)}
    (h : Branches depth x bs y) (h2 : 2 ≤ bs.length) : ClosesLate x.rest := by
  cases h with
  | last hs hne he => simp at h2
  | more hs hne he hb =>
    obtain ⟨w, hw, hall⟩ | hlate := hs.plain_or_closesLate
    · rw [hw]
      refine ClosesLate.append hall ?_
      cases he with
      | bare => exact closesLate_cons (by decide) (by decide)
      | @weighted digits n hd =>
        refine ⟨'^' :: digits, '|', _, by simp; rfl, ?_, by decide, by decide⟩
        intro b hm
        obtain rfl | hm := List.mem_cons.mp hm
        · decide
        · exact isSlotBody_of_isDigit (hd b hm)
    · exact hlate

theorem Sequence.closesLate_of_brace {depth : Nat} {x y : Cursor} {ns : List Node}
    {cs : List Char} (h : Sequence depth x ns y) (hne : ns ≠ []) (hx : x.rest = '{' :: cs) :
    ClosesLate cs := by
  cases h with
  | nil => exact absurd rfl hne
  | letter hc hs =>
    cases hc with
    | escaped hc => simp at hx
    | backslash hr => simp at hx
    | plain hc hi => exact absurd (List.cons.inj hx).1 hc.1
  | slot hn hs =>
    rw [← (List.cons.inj hx).2]
    exact closesLate_cons (by decide) (by decide)
  | group hd hb h2 hs =>
    rw [← (List.cons.inj hx).2]
    exact hb.closesLate h2

theorem Branches.closesLate_of_brace {depth : Nat} {x y : Cursor} {bs : List (Branch Node)}
    {cs : List Char} (h : Branches depth x bs y) (hx : x.rest = '{' :: cs) : ClosesLate cs := by
  cases h with
  | last hs hne he => exact hs.closesLate_of_brace hne hx
  | more hs hne he hb => exact hs.closesLate_of_brace hne hx

end Spintax.Grammar
