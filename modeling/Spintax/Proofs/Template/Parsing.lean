import Spintax.Proofs.Template.Reading

namespace Spintax

open Grammar Lexeme

def Node.join : List Node → List Node → List Node
  | .literal s :: before, .literal t :: ns => before.reverse ++ .literal (s ++ t) :: ns
  | before, ns => before.reverse ++ ns

namespace Node

theorem join_nil (before : List Node) : join before [] = before.reverse := by
  cases before with
  | nil => rfl
  | cons n before => cases n <;> simp [join]

theorem nil_join (ns : List Node) : join [] ns = ns := rfl

theorem join_addLetter (before ns : List Node) (c : Char) :
    join (Template.addChar c before) ns = join before (addLetter c ns) := by
  obtain _ | ⟨_ | _ | _, before⟩ := before <;> obtain _ | ⟨_ | _ | _, ns⟩ := ns <;>
    simp [join, Template.addChar, addLetter, ← String.append_singleton, String.append_assoc]

theorem join_slot (before ns : List Node) (name : String) :
    join (.slot name :: before) ns = join before (.slot name :: ns) := by
  obtain _ | ⟨_ | _ | _, before⟩ := before <;> simp [join]

theorem join_group (before ns : List Node) (index offset : Nat) (bs : List (Branch Node)) :
    join (.group index offset bs :: before) ns = join before (.group index offset bs :: ns) := by
  obtain _ | ⟨_ | _ | _, before⟩ := before <;> simp [join]

end Node

namespace Outline

open Node

theorem run_nil (p : Outline) (pos : Nat) : p.run pos [] = p.finish := by
  rw [run]

theorem run_of_reads {p q : Outline} {pos : Nat} {cs : List Char} {x : Lexeme}
    (hx : Reads p.inside cs x) (hq : p.take pos x = .ok q) :
    p.run pos cs = q.run (pos + Text.byteLength x.written) x.rest := by
  obtain ⟨c, rest, rfl, hread⟩ := hx
  rw [run]
  split
  · next heq => rw [hread] at heq; cases heq
  · next heq =>
    rw [hread] at heq
    cases heq
    rw [hq]

theorem inside_eq (opened : List OpenGroup) (before : List Node) (groups : Nat) :
    inside ⟨opened, before, groups⟩ = decide (0 < opened.length) := by
  cases opened <;> rfl

theorem endBranch_eq_ok {p q : Outline} {g : OpenGroup} {outer : List OpenGroup} {offset : Nat}
    {weight : Option UInt32} {last : Bool} (h : p.endBranch g outer offset weight last = .ok q) :
    p.nodes ≠ [] ∧
      (last = false ∧ q = ⟨{ g with branches := ⟨p.nodes.reverse, weight⟩ :: g.branches } :: outer,
        [], p.groups⟩ ∨
      last = true ∧ g.branches ≠ [] ∧ q = ⟨outer, .group g.index g.offset
        (g.branches.reverse ++ [⟨p.nodes.reverse, weight⟩]) :: g.before, p.groups⟩) := by
  unfold endBranch at h
  split at h
  · split at h <;> cases h
  · next hn =>
    refine ⟨by simpa using hn, ?_⟩
    cases last with
    | false =>
      cases h
      exact .inl ⟨rfl, rfl⟩
    | true =>
      by_cases hb : g.branches = []
      · simp [hb] at h
      · simp [hb] at h
        exact .inr ⟨rfl, hb, h.symm⟩

section Pieces

variable {opened outer : List OpenGroup} {before : List Node} {groups pos : Nat}
  {w rest : List Char} {g : OpenGroup} {weight : Option UInt32}

theorem run_letter {c : Char} (h : Letter (0 < opened.length) w c rest) :
    run ⟨opened, before, groups⟩ pos (w ++ rest) =
      run ⟨opened, Template.addChar c before, groups⟩ (pos + Text.byteLength w) rest := by
  rw [← inside_eq opened before groups] at h
  exact run_of_reads (letter_reads h) rfl

theorem run_slot {name : String} (h : isIdentifier name.toList) :
    run ⟨opened, before, groups⟩ pos (braced name ++ rest) =
      run ⟨opened, .slot name :: before, groups⟩ (pos + Text.byteLength (braced name)) rest :=
  run_of_reads (slot_reads h) rfl

theorem run_opening (hd : opened.length < Template.maxDepth)
    (h : ∀ cs, rest = '{' :: cs → ClosesLate cs) :
    run ⟨opened, before, groups⟩ pos ('{' :: rest) =
      run ⟨⟨groups, pos, before, []⟩ :: opened, [], groups + 1⟩ (pos + 1) rest :=
  run_of_reads (opening_reads h) (if_pos hd)

theorem run_bar (h : Ending '|' weight w) (hne : before ≠ []) :
    run ⟨g :: outer, before, groups⟩ pos (w ++ rest) =
      run ⟨{ g with branches := ⟨before.reverse, weight⟩ :: g.branches } :: outer, [], groups⟩
        (pos + Text.byteLength w) rest := by
  have hread : Reads (inside ⟨g :: outer, before, groups⟩) (w ++ rest) _ :=
    ending_reads (.inl rfl) h
  refine run_of_reads hread ?_
  simp [take, endBranch, hne]

theorem run_close (h : Ending '}' weight w) (hne : before ≠ []) (hb : g.branches ≠ []) :
    run ⟨g :: outer, before, groups⟩ pos (w ++ rest) =
      run ⟨outer, .group g.index g.offset (g.branches.reverse ++ [⟨before.reverse, weight⟩]) ::
        g.before, groups⟩ (pos + Text.byteLength w) rest := by
  have hread : Reads (inside ⟨g :: outer, before, groups⟩) (w ++ rest) _ :=
    ending_reads (.inr rfl) h
  refine run_of_reads hread ?_
  simp [take, endBranch, hne, hb]

end Pieces

mutual

/-- A derived sequence is read to its end, and its nodes join those before it. -/
theorem run_sequence {depth : Nat} {x y : Cursor} {ns : List Node} :
    Sequence depth x ns y → ∀ (opened : List OpenGroup) (before : List Node),
      opened.length = depth → run ⟨opened, before, x.groups⟩ x.offset x.rest =
        run ⟨opened, (join before ns).reverse, y.groups⟩ y.offset y.rest
  | .nil, _, before, _ => by rw [join_nil, List.reverse_reverse]
  | .letter hc hs, opened, before, hd => by
    rw [← join_addLetter, ← run_sequence hs opened _ hd]
    exact run_letter (by rwa [hd])
  | .slot hn hs, opened, before, hd => by
    rw [← join_slot, ← run_sequence hs opened _ hd]
    exact run_slot hn
  | .group hmax hb h2 hs, opened, before, hd => by
    rw [← join_group, ← run_sequence hs opened _ hd]
    refine (run_opening (hd ▸ hmax) fun cs hcs => hb.closesLate_of_brace hcs).trans ?_
    exact run_branches hb (by simpa using h2) (by rw [hd])

theorem run_branches {depth : Nat} {x y : Cursor} {bs : List (Branch Node)} :
    Branches depth x bs y → ∀ {g : OpenGroup} {outer : List OpenGroup},
      2 ≤ g.branches.length + bs.length → outer.length + 1 = depth →
      run ⟨g :: outer, [], x.groups⟩ x.offset x.rest =
        run ⟨outer, .group g.index g.offset (g.branches.reverse ++ bs) :: g.before, y.groups⟩
          y.offset y.rest
  | .last hs hne he, g, outer, h2, hd => by
    have hb : g.branches ≠ [] := by
      rintro hb
      simp [hb] at h2
    refine (run_sequence hs (g :: outer) [] hd).trans ?_
    refine (run_close he (by simpa [nil_join] using hne) hb).trans ?_
    rw [nil_join, List.reverse_reverse]
  | .more hs hne he hb, g, outer, h2, hd => by
    refine (run_sequence hs (g :: outer) [] hd).trans ?_
    refine (run_bar he (by simpa [nil_join] using hne)).trans ?_
    refine (run_branches hb (by simp at h2 ⊢; omega) hd).trans ?_
    simp [nil_join]

end

/-- The branches of a group from `x` on, when the nodes `before`, last first, are read of
the first of them. -/
inductive Resumes (depth : Nat) (before : List Node) :
    Cursor → List (Branch Node) → Cursor → Prop
  | last {offset groups : Nat} {x : Cursor} {ns : List Node} {weight : Option UInt32}
      {w rest : List Char} (hs : Sequence depth x ns ⟨w ++ rest, offset, groups⟩)
      (hne : join before ns ≠ []) (he : Ending '}' weight w) :
      Resumes depth before x [⟨join before ns, weight⟩] ⟨rest, offset + Text.byteLength w, groups⟩
  | more {offset groups : Nat} {x : Cursor} {ns : List Node} {weight : Option UInt32}
      {w rest : List Char} {bs : List (Branch Node)} {y : Cursor}
      (hs : Sequence depth x ns ⟨w ++ rest, offset, groups⟩)
      (hne : join before ns ≠ []) (he : Ending '|' weight w)
      (hb : Branches depth ⟨rest, offset + Text.byteLength w, groups⟩ bs y) :
      Resumes depth before x (⟨join before ns, weight⟩ :: bs) y

theorem Resumes.branches {depth : Nat} {x y : Cursor} {bs : List (Branch Node)}
    (h : Resumes depth [] x bs y) : Branches depth x bs y := by
  cases h with
  | last hs hne he => exact .last hs hne he
  | more hs hne he hb => exact .more hs hne he hb

/-- What is left of a text, from `x` on, ends the open groups from the inside out, and the
whole makes the nodes `ns`. -/
def Completes : List OpenGroup → List Node → Cursor → List Node → Prop
  | [], before, x, ns => ∃ ms offset groups,
      Sequence 0 x ms ⟨[], offset, groups⟩ ∧ ns = join before ms
  | g :: outer, before, x, ns => ∃ bs y, Resumes (outer.length + 1) before x bs y ∧
      2 ≤ g.branches.length + bs.length ∧
      Completes outer (.group g.index g.offset (g.branches.reverse ++ bs) :: g.before) y ns

theorem Completes.read {opened : List OpenGroup} {before before' ns : List Node} {x y : Cursor}
    {f : List Node → List Node}
    (hs : ∀ {ms z}, Sequence opened.length y ms z → Sequence opened.length x (f ms) z)
    (hj : ∀ ms, join before' ms = join before (f ms))
    (h : Completes opened before' y ns) : Completes opened before x ns := by
  cases opened with
  | nil =>
    obtain ⟨ms, offset, groups, hms, rfl⟩ := h
    exact ⟨f ms, offset, groups, hs hms, hj ms⟩
  | cons g outer =>
    obtain ⟨bs, z, hr, h2, hc⟩ := h
    refine ⟨bs, z, ?_, h2, hc⟩
    cases hr with
    | last hms hne he =>
      rw [hj] at hne ⊢
      exact .last (hs hms) hne he
    | more hms hne he hb =>
      rw [hj] at hne ⊢
      exact .more (hs hms) hne he hb

theorem completes_ending {q : Outline} {g : OpenGroup} {outer : List OpenGroup}
    {before ns : List Node} {groups offset pos : Nat} {stop : Char} {weight : Option UInt32}
    {w rest : List Char} (hstop : stop = '|' ∨ stop = '}') (he : Ending stop weight w)
    (hq : endBranch ⟨g :: outer, before, groups⟩ g outer offset weight (stop = '}') = .ok q)
    (h : Completes q.opened q.nodes ⟨rest, pos + Text.byteLength w, q.groups⟩ ns) :
    Completes (g :: outer) before ⟨w ++ rest, pos, groups⟩ ns := by
  obtain ⟨hne, ⟨hlast, rfl⟩ | ⟨hlast, hb, rfl⟩⟩ := endBranch_eq_ok hq
  · obtain rfl : stop = '|' := by simpa [of_decide_eq_false hlast] using hstop
    obtain ⟨bs, y, hr, h2, hc⟩ := h
    refine ⟨⟨before.reverse, weight⟩ :: bs, y, ?_, by simp at h2 ⊢; omega, by simpa using hc⟩
    rw [← join_nil]
    exact .more .nil (by simpa [join_nil] using hne) he hr.branches
  · obtain rfl : stop = '}' := of_decide_eq_true hlast
    refine ⟨[⟨before.reverse, weight⟩], _, ?_, ?_, h⟩
    · rw [← join_nil]
      exact .last .nil (by simpa [join_nil] using hne) he
    · have := List.length_pos_iff.mpr hb
      simp only [List.length_singleton]
      omega

theorem completes_take {p q : Outline} {pos : Nat} {cs : List Char} {x : Lexeme}
    {ns : List Node} (hx : Reads p.inside cs x) (hq : p.take pos x = .ok q)
    (h : Completes q.opened q.nodes ⟨x.rest, pos + Text.byteLength x.written, q.groups⟩ ns) :
    Completes p.opened p.nodes ⟨cs, pos, p.groups⟩ ns := by
  obtain ⟨opened, before, groups⟩ := p
  rw [← hx.append]
  have hsp := hx.spelled
  rw [inside_eq] at hsp
  cases hsp with
  | letter hc =>
    cases hq
    exact h.read (fun hs => .letter hc hs) (fun ms => join_addLetter before ms _)
  | slot hn =>
    cases hq
    exact h.read (fun hs => .slot hn hs) (fun ms => join_slot before ms _)
  | opening =>
    simp only [take, openGroup] at hq
    split at hq
    · next hd =>
      cases hq
      obtain ⟨bs, y, hr, h2, hc⟩ := h
      exact hc.read (fun hs => .group hd hr.branches (by simpa using h2) hs)
        (fun ms => join_group before ms _ _ _)
    · cases hq
  | ending stop hstop he =>
    cases opened with
    | nil => cases hq
    | cons g outer => exact completes_ending hstop he hq h

theorem completes_of_run {p : Outline} {pos : Nat} {cs : List Char} {t : Template}
    (h : p.run pos cs = .ok t) : Completes p.opened p.nodes ⟨cs, pos, p.groups⟩ t.nodes := by
  fun_induction run p pos cs with
  | case1 p pos =>
    unfold finish at h
    split at h
    · next hopen =>
      cases h
      rw [hopen]
      exact ⟨[], pos, p.groups, .nil, (join_nil p.nodes).symm⟩
    · cases h
  | case2 => cases h
  | case3 => cases h
  | case4 p pos c cs x hread q hq ih => exact completes_take ⟨c, cs, rfl, hread⟩ hq (ih h)

end Outline

theorem Template.derives_of_parse {text : String} {t : Template}
    (h : Template.parse text = .ok t) : Derives text.toList t.nodes := by
  obtain ⟨ns, offset, groups, hs, hns⟩ := Outline.completes_of_run h
  rw [hns]
  exact ⟨offset, groups, hs⟩

theorem Template.parse_of_derives {text : String} {t : Template}
    (h : Derives text.toList t.nodes) : Template.parse text = .ok t := by
  obtain ⟨offset, groups, hs⟩ := h
  have hrun := Outline.run_sequence hs [] [] rfl
  rw [Template.parse, Outline.start, hrun, Outline.run_nil, Node.nil_join]
  simp [Outline.finish]

/-- The grammar decides what is read and as what. It knows nothing of how far a reader has
to look ahead after two opening braces. -/
theorem Template.parse_eq_ok_iff_derives (text : String) (t : Template) :
    Template.parse text = .ok t ↔ Derives text.toList t.nodes :=
  ⟨Template.derives_of_parse, Template.parse_of_derives⟩

end Spintax
