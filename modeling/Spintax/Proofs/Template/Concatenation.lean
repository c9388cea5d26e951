import Spintax.Proofs.Rendering.Slots
import Spintax.Proofs.Template.Faults
import Spintax.Proofs.Template.Preorder
import Spintax.Proofs.Template.Raising

namespace Spintax

namespace Grammar

variable {depth : Nat} {x y : Cursor} {text : List Char}

theorem Unescaped.not_concat {before : List Char} (h : Unescaped before) :
    ¬ Unescaped (before ++ ['\\']) := by
  rw [Unescaped, List.rtakeWhile_concat_pos _ _ _ (by decide), List.length_append,
    List.length_singleton, Nat.even_add_one, not_not]
  exact h

theorem Ending.replaces {stop : Char} {weight : Option UInt32} {w : List Char}
    (he : Ending stop weight w) (hs : stop = '|' ∨ stop = '}') (rest rest' : List Char) :
    Replaces (w ++ rest) (w ++ rest') := by
  have hdigit : stop.isDigit = false := by obtain rfl | rfl := hs <;> decide
  have hstop : Replaces (stop :: rest) (stop :: rest') := by
    refine ⟨fun c hc hspecial => ⟨c, hc, hspecial⟩, fun digits hd hw => ?_⟩
    rw [weightAhead_append hd hdigit] at hw ⊢
    exact hw
  obtain ⟨v, rfl⟩ := he.split
  rw [List.append_assoc, List.append_assoc]
  exact hstop.append v

theorem Branches.extend {depth : Nat} {x y : Cursor} {bs : List (Branch Node)} :
    Branches depth x bs y → ∀ rest' : List Char,
      ∃ w, x.Spans w y ∧ Branches depth (x.goOn (w ++ rest')) bs (y.goOn rest')
  | .last (w := w) hs hne he, rest' => by
    obtain ⟨v, hv, hseq⟩ := hs.replace (he.replaces (.inr rfl) _ rest')
    refine ⟨v ++ w, hv.trans ⟨rfl, rfl⟩, ?_⟩
    rw [List.append_assoc]
    exact .last hseq hne he
  | .more (w := w) hs hne he hb, rest' => by
    obtain ⟨u, hu, hbranches⟩ := hb.extend rest'
    obtain ⟨v, hv, hseq⟩ := hs.replace (he.replaces (.inl rfl) _ (u ++ rest'))
    refine ⟨v ++ (w ++ u), hv.trans (.trans ⟨rfl, rfl⟩ hu), ?_⟩
    rw [List.append_assoc, List.append_assoc]
    exact .more hseq hne he hbranches

/-- Outside of all groups only a backslash at the end of the text is read in another way when the
text goes on. -/
theorem Letter.extend {w rest : List Char} {c : Char} {offset groups : Nat}
    (hc : Letter (0 < 0) w c rest) (hx : Cursor.In text ⟨w ++ rest, offset, groups⟩)
    (ht : Unescaped text) (rest' : List Char) : Letter (0 < 0) w c (rest ++ rest') := by
  cases hc with
  | escaped hc => exact .escaped hc
  | plain hc hi => exact .plain hc fun hin => absurd hin (by decide)
  | backslash hr =>
    cases rest with
    | cons d rest => exact .backslash hr
    | nil =>
      obtain ⟨before, rfl, -, hbefore | hnone⟩ := hx
      · exact absurd ht hbefore.not_concat
      · exact absurd rfl (hnone '\\' rfl)

/-- A template is read before any text as it is alone. -/
theorem Sequence.extend {depth : Nat} {x y : Cursor} {ns : List Node} :
    Sequence depth x ns y → depth = 0 → x.In text → Unescaped text → y.rest = [] →
      ∀ rest' : List Char, Sequence depth (x.goOn (x.rest ++ rest')) ns (y.goOn rest')
  | .nil, _, _, _, hy, rest' => by
    rw [hy]
    exact .nil
  | .letter hc hs, h0, hx, ht, hy, rest' => by
    have hseq := hs.extend h0 (hx.letter hc) ht hy rest'
    subst h0
    rw [List.append_assoc]
    exact .letter (hc.extend hx ht rest') hseq
  | .slot hn hs, h0, hx, ht, hy, rest' => by
    have hseq := hs.extend h0 hx.slot ht hy rest'
    rw [List.append_assoc]
    exact .slot hn hseq
  | .group (y := z) hd hb h2 hs, h0, hx, ht, hy, rest' => by
    obtain ⟨hz, -⟩ := hb.laid (hx.stop (w := []) (by decide))
    have hseq := hs.extend h0 hz ht hy rest'
    obtain ⟨w, ⟨hw, -⟩, hbranches⟩ := hb.extend (z.rest ++ rest')
    simp only at hw
    rw [hw, List.cons_append, List.append_assoc]
    exact .group hd hbranches h2 hseq

end Grammar

namespace Node

variable {before ns : List Node}

theorem join_append (h : ns ≠ []) (before ms : List Node) :
    join before (ns ++ ms) = join before ns ++ ms := by
  cases ns with
  | nil => exact absurd rfl h
  | cons n ns =>
    obtain _ | ⟨_ | _ | _, before⟩ := before <;> cases n <;> simp [join]

theorem join_cases (before ns : List Node) : join before ns = before.reverse ++ ns ∨
    ∃ s t before' ns', before = .literal s :: before' ∧ ns = .literal t :: ns' ∧
      join before ns = before'.reverse ++ .literal (s ++ t) :: ns' := by
  unfold join
  split
  · exact .inr ⟨_, _, _, _, rfl, rfl, rfl⟩
  · exact .inl rfl

theorem shapesOf_append (ns ms : List Node) :
    shapesOf (ns ++ ms) = shapesOf ns ++ shapesOf ms := by
  induction ns with
  | nil => rfl
  | cons n ns ih => rw [List.cons_append, shapesOf, ih, shapesOf, List.append_assoc]

theorem slotsOf_append (ns ms : List Node) : slotsOf (ns ++ ms) = slotsOf ns ++ slotsOf ms := by
  induction ns with
  | nil => rfl
  | cons n ns ih => rw [List.cons_append, slotsOf, ih, slotsOf, List.append_assoc]

theorem length_routesOf_append (ns ms : List Node) :
    (routesOf (ns ++ ms)).length = (routesOf ns).length * (routesOf ms).length := by
  induction ns with
  | nil => simp [routesOf]
  | cons n ns ih =>
    rw [List.cons_append, length_routesOf_cons, ih, length_routesOf_cons, Nat.mul_assoc]

theorem join_same (before ns : List Node) :
    shapesOf (join before ns) = shapesOf before.reverse ++ shapesOf ns ∧
    slotsOf (join before ns) = slotsOf before.reverse ++ slotsOf ns ∧
    (routesOf (join before ns)).length =
      (routesOf before.reverse).length * (routesOf ns).length := by
  obtain h | ⟨s, t, before, ns, rfl, rfl, h⟩ := join_cases before ns
  · rw [h]
    exact ⟨shapesOf_append _ _, slotsOf_append _ _, length_routesOf_append _ _⟩
  · rw [h, List.reverse_cons]
    simp [shapesOf_append, slotsOf_append, length_routesOf_append, shapesOf, slotsOf, routesOf,
      shapes, slots, routes]

def seam (before ns : List Node) : List Node :=
  (join before ns.reverse).reverse

theorem seam_nil (before : List Node) : seam before [] = before := by
  rw [seam, List.reverse_nil, join_nil, List.reverse_reverse]

theorem reverse_seam (before ns : List Node) : (seam before ns).reverse = join before ns.reverse :=
  List.reverse_reverse _

theorem seam_cons {n : Node} (h : ns ≠ [] ∨ n.isLiteral = false) (before : List Node) :
    seam before (n :: ns) = n :: seam before ns := by
  rw [seam, List.reverse_cons]
  obtain h | h := h
  · rw [join_append (by simpa using h), List.reverse_append]
    rfl
  · cases ns with
    | cons m ns =>
      rw [join_append (by simp), List.reverse_append]
      rfl
    | nil =>
      rw [seam_nil]
      obtain _ | ⟨_ | _ | _, before⟩ := before <;> cases n <;> simp_all [join, isLiteral]

theorem seam_addChar (before ns : List Node) (c : Char) :
    seam before (Template.addChar c ns) = Template.addChar c (seam before ns) := by
  obtain _ | ⟨_ | _ | _, ns⟩ := ns
  case nil =>
    rw [seam_nil]
    obtain _ | ⟨_ | _ | _, before⟩ := before <;>
      simp [Template.addChar, seam, join, String.append_singleton]
  case cons.literal text =>
    cases ns with
    | cons m ns =>
      have hne : m :: ns ≠ [] := List.cons_ne_nil m ns
      have hpushed := seam_cons (n := .literal (text.push c)) (.inl hne) before
      rw [seam_cons (.inl hne)]
      exact hpushed
    | nil =>
      obtain _ | ⟨_ | _ | _, before⟩ := before <;>
        simp [Template.addChar, seam, join, ← String.append_singleton, String.append_assoc]
  all_goals
    rw [Template.addChar, seam_cons (.inl (by simp)), seam_cons (.inr rfl)]
    · rfl
    · simp

end Node

def Node.above (before : List Node) (outer : List OpenGroup) (ns : List Node) : List Node :=
  match outer with
  | [] => seam before ns
  | _ :: _ => ns

namespace Outline

variable (before : List Node)

def openedBehind : List OpenGroup → List OpenGroup
  | [] => []
  | g :: outer => { g with before := Node.above before outer g.before } :: openedBehind outer

def behind (p : Outline) : Outline where
  opened := openedBehind before p.opened
  nodes := Node.above before p.opened p.nodes
  groups := p.groups

theorem above_cons {n : Node} (hn : n.isLiteral = false) (outer : List OpenGroup)
    (ns : List Node) : Node.above before outer (n :: ns) = n :: Node.above before outer ns := by
  cases outer with
  | nil => exact Node.seam_cons (.inr hn) before
  | cons g outer => rfl

theorem length_openedBehind (opened : List OpenGroup) :
    (openedBehind before opened).length = opened.length := by
  induction opened with
  | nil => rfl
  | cons g outer ih => rw [openedBehind, List.length_cons, ih, List.length_cons]

theorem inside_behind (p : Outline) : (p.behind before).inside = p.inside := by
  obtain ⟨_ | _, _, _⟩ := p <;> rfl

theorem endBranch_behind (g : OpenGroup) (outer : List OpenGroup) (ns : List Node) (k offset : Nat)
    (weight : Option UInt32) (last : Bool) :
    endBranch ⟨openedBehind before (g :: outer), ns, k⟩
        { g with before := Node.above before outer g.before } (openedBehind before outer) offset
        weight last =
      (endBranch ⟨g :: outer, ns, k⟩ g outer offset weight last).map (behind before) := by
  unfold endBranch
  simp only
  split
  · split <;> rfl
  · split
    · rfl
    · split
      · rfl
      · have hgroup := above_cons before (n := .group g.index g.offset
          (⟨ns.reverse, weight⟩ :: g.branches).reverse) rfl outer g.before
        rw [Except.map, behind, hgroup]

theorem take_behind (p : Outline) (pos : Nat) (x : Lexeme) :
    (p.behind before).take pos x = (p.take pos x).map (behind before) := by
  obtain ⟨sign, written, rest⟩ := x
  obtain ⟨opened, ns, k⟩ := p
  cases sign with
  | char c =>
    cases opened with
    | nil => simp only [take, behind, Node.above, ← Node.seam_addChar, Except.map]
    | cons g outer => rfl
  | slot name =>
    have hslot := above_cons before (n := .slot name) rfl opened ns
    simp only [take, behind, hslot, Except.map]
  | opening =>
    simp only [take, openGroup, behind, length_openedBehind]
    split <;> rfl
  | ending weight last =>
    cases opened with
    | nil => rfl
    | cons g outer => exact endBranch_behind before g outer ns k _ weight last

theorem finish_behind (p : Outline) : (p.behind before).finish =
    p.finish.map fun t => ⟨Node.join before t.nodes⟩ := by
  obtain ⟨_ | ⟨g, outer⟩, nodes, k⟩ := p
  · simp only [finish, behind, openedBehind, Node.above, Node.reverse_seam, Except.map]
  · rfl

theorem carry_zero {α β : Type} (f : α → β) (x : Except Fault α) : carry 0 f x = x.map f := by
  cases x with
  | ok a => rfl
  | error fault => simp [carry, Except.map, Fault.raise]

theorem run_behind (p : Outline) (pos : Nat) (cs : List Char) :
    (p.behind before).run pos cs = (p.run pos cs).map fun t => ⟨Node.join before t.nodes⟩ := by
  have h := run_carry 0 (inside_behind before)
    (fun p pos x _ => by rw [Nat.zero_add, carry_zero, take_behind])
    (fun p => by rw [carry_zero, finish_behind]) p pos cs
  rwa [Nat.zero_add, carry_zero] at h

end Outline

/-- The size of two templates in one. -/
def Size.times : Size → Size → Size
  | exact m, exact n => if m * n ≤ limit then exact (m * n) else unbounded
  | _, _ => unbounded

namespace Size

theorem times_of_counts {m n : Nat} (hm : 0 < m) (hn : 0 < n) :
    times (if m ≤ limit then exact m else unbounded) (if n ≤ limit then exact n else unbounded) =
      if m * n ≤ limit then exact (m * n) else unbounded := by
  by_cases hml : m ≤ limit
  · by_cases hnl : n ≤ limit
    · rw [if_pos hml, if_pos hnl]
      rfl
    · have hgt : ¬ m * n ≤ limit := mt (Nat.le_trans (Nat.le_mul_of_pos_left n hm)) hnl
      rw [if_pos hml, if_neg hnl, if_neg hgt]
      rfl
  · have hgt : ¬ m * n ≤ limit := mt (Nat.le_trans (Nat.le_mul_of_pos_right m hn)) hml
    rw [if_neg hml, if_neg hgt]
    rfl

end Size

namespace Template

variable {a b : String} {t u v : Template} {fault : Fault}

/-- The template of a text behind one that takes so many bytes and has the template `t`. -/
def behind (t : Template) (bytes : Nat) (u : Template) : Template :=
  ⟨Node.join t.nodes.reverse (u.raise bytes t.groupCount).nodes⟩

theorem run_seam (ha : parse a = .ok t) (hu : Grammar.Unescaped a.toList) (rest : List Char) :
    Outline.start.run 0 (a.toList ++ rest) =
      Outline.run ⟨[], t.nodes.reverse, t.groupCount⟩ (Text.byteLength a.toList) rest := by
  obtain ⟨offset, groups, hs⟩ := derives_of_parse ha
  have hstart : Grammar.Cursor.In a.toList ⟨a.toList, 0, 0⟩ :=
    ⟨[], rfl, rfl, .inl Grammar.unescaped_nil⟩
  have hoffset : Text.byteLength a.toList = offset := by
    obtain ⟨⟨before, htext, hbefore, -⟩, -⟩ := hs.laid hstart
    rw [htext, List.append_nil]
    exact hbefore
  have hgroups : groups = t.groupCount := hs.numberedOf.2.trans (Nat.zero_add _)
  have hrun := Outline.run_sequence (hs.extend rfl hstart hu rfl rest) [] [] rfl
  rw [Node.nil_join] at hrun
  rw [hoffset, ← hgroups]
  exact hrun

theorem parse_append_eq (ha : parse a = .ok t) (hu : Grammar.Unescaped a.toList) (b : String) :
    parse (a ++ b) = Outline.carry (Text.byteLength a.toList)
      (t.behind (Text.byteLength a.toList)) (parse b) := by
  have hstart : (Outline.start.raise (Text.byteLength a.toList) t.groupCount).behind
      t.nodes.reverse = ⟨[], t.nodes.reverse, t.groupCount⟩ := by
    simp [Outline.behind, Outline.raise, Outline.start, Outline.openedBehind, Node.above,
      Node.raiseOf, Node.seam_nil]
  have hbehind := Outline.run_behind t.nodes.reverse
    (Outline.start.raise (Text.byteLength a.toList) t.groupCount) (Text.byteLength a.toList + 0)
    b.toList
  rw [Outline.run_raise, hstart] at hbehind
  rw [parse, String.toList_append, run_seam ha hu]
  refine hbehind.trans ?_
  rw [parse]
  cases Outline.start.run 0 b.toList <;> rfl

theorem behind_same (ha : parse a = .ok t) (hb : parse b = .ok u) {bytes : Nat}
    (hv : parse (a ++ b) = .ok (t.behind bytes u)) :
    (t.behind bytes u).shapes = t.shapes ++ u.shapes ∧
    (∀ name, name ∈ (t.behind bytes u).slotNames ↔ name ∈ t.slotNames ∨ name ∈ u.slotNames) ∧
    (t.behind bytes u).size = t.size.times u.size := by
  obtain ⟨hshapes, hslots, hways⟩ :=
    Node.join_same t.nodes.reverse (u.raise bytes t.groupCount).nodes
  obtain ⟨hshapes', hslots', hways'⟩ := Node.raiseOf_same bytes t.groupCount u.nodes
  rw [List.reverse_reverse] at hshapes hslots hways
  refine ⟨hshapes.trans (congrArg _ hshapes'), fun name => ?_, ?_⟩
  · rw [mem_slotNames, mem_slotNames, mem_slotNames, ← List.mem_append, ← hslots', behind]
    exact iff_of_eq (congrArg _ hslots)
  · have ht := normalOf_of_parse ha
    have hu := normalOf_of_parse hb
    have hcount : (Node.routesOf (t.behind bytes u).nodes).length =
        (Node.routesOf t.nodes).length * (Node.routesOf u.nodes).length :=
      hways.trans (congrArg _ hways')
    rw [size, size, size, Size.ofCount?_timesNodes ht, Size.ofCount?_timesNodes hu,
      Size.ofCount?_timesNodes (normalOf_of_parse hv), hcount,
      Size.times_of_counts (Node.length_routesOf_pos _ ht) (Node.length_routesOf_pos _ hu)]

/-- A text that is put behind a template is read as it is alone: as the same nodes, with the
numbers and places of their groups moved on, or with the same fault further on. Nothing in the
template is read in another way. -/
theorem parse_append (ha : parse a = .ok t) (hu : Grammar.Unescaped a.toList) (b : String) :
    (∀ u, parse b = .ok u → ∃ v, parse (a ++ b) = .ok v ∧
      v.nodes = Node.join t.nodes.reverse
        (Node.raiseOf (Text.byteLength a.toList) t.groupCount u.nodes) ∧
      v.shapes = t.shapes ++ u.shapes ∧
      v.slotNames.Pairwise (· < ·) ∧
      (∀ name, name ∈ v.slotNames ↔ name ∈ t.slotNames ∨ name ∈ u.slotNames) ∧
      v.size = t.size.times u.size) ∧
    ∀ flaw offset, parse b = .error ⟨flaw, offset⟩ →
      parse (a ++ b) = .error ⟨flaw, Text.byteLength a.toList + offset⟩ := by
  have happend := parse_append_eq ha hu b
  refine ⟨fun u hb => ?_, fun flaw offset hb => ?_⟩
  · rw [hb] at happend
    obtain ⟨hshapes, hslots, hsize⟩ := behind_same ha hb happend
    exact ⟨_, happend, rfl, hshapes, ascending_slotNames _, hslots, hsize⟩
  · rw [hb] at happend
    exact happend

theorem parse_append_seam : ∃ t u v, parse "{é|{{x}}}\\\\" = .ok t ∧ parse "^2{a|b}" = .ok u ∧
    Grammar.Unescaped "{é|{{x}}}\\\\".toList ∧ parse ("{é|{{x}}}\\\\" ++ "^2{a|b}") = .ok v ∧
    v.nodes = [.group 0 0 [⟨[.literal "é"], none⟩, ⟨[.slot "x"], none⟩], .literal "\\^2",
      .group 1 14 [⟨[.literal "a"], none⟩, ⟨[.literal "b"], none⟩]] ∧
    v.size = .exact 4 ∧
    parse ("{é|{{x}}}\\\\" ++ "^2\x7d") = .error ⟨.strayClose, 14⟩ := by
  obtain ⟨t, u, ht, hu, htsize, husize, hnodes, hunescaped, hbytes⟩ : ∃ t u,
      parse "{é|{{x}}}\\\\" = .ok t ∧ parse "^2{a|b}" = .ok u ∧ t.size = .exact 2 ∧
      u.size = .exact 2 ∧
      Node.join t.nodes.reverse (Node.raiseOf 12 t.groupCount u.nodes) =
        [.group 0 0 [⟨[.literal "é"], none⟩, ⟨[.slot "x"], none⟩], .literal "\\^2",
          .group 1 14 [⟨[.literal "a"], none⟩, ⟨[.literal "b"], none⟩]] ∧
      Grammar.Unescaped "{é|{{x}}}\\\\".toList ∧
      Text.byteLength "{é|{{x}}}\\\\".toList = 12 :=
    ⟨_, _, by cbv, by cbv, by cbv, by cbv, by cbv, ⟨1, by cbv⟩, by cbv⟩
  have hfault : parse "^2\x7d" = .error ⟨.strayClose, 2⟩ := by cbv
  obtain ⟨hok, -⟩ := parse_append ht hunescaped "^2{a|b}"
  obtain ⟨v, hv, hvnodes, -, -, -, hsize⟩ := hok u hu
  obtain ⟨-, herror⟩ := parse_append ht hunescaped "^2\x7d"
  have hlast := herror .strayClose 2 hfault
  rw [hbytes] at hvnodes hlast
  rw [htsize, husize] at hsize
  exact ⟨t, u, v, ht, hu, hunescaped, hv, hvnodes.trans hnodes, hsize, hlast⟩

end Template

end Spintax
