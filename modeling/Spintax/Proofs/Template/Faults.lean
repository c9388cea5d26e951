import Mathlib
import Spintax.Proofs.Template.Beginnings

namespace Spintax

open Grammar

namespace Grammar

def Unclosed (rest : List Char) : Prop :=
  ∃ depth offset groups bs y ns z, Begun depth ⟨rest, offset, groups⟩ bs y ∧
    Sequence depth y ns z ∧ z.rest = []

def Lone (rest : List Char) : Prop :=
  ∃ depth offset groups b y, Branches depth ⟨rest, offset, groups⟩ [b] y

def BranchAt (before after : List Char) : Prop :=
  ∃ depth rest offset groups bs groups',
    Within ⟨before ++ after, 0, 0⟩ depth ⟨'{' :: rest, offset, groups⟩ ∧
    Begun (depth + 1) ⟨rest, offset + 1, groups + 1⟩ bs ⟨after, Text.byteLength before, groups'⟩

end Grammar

/-- What is at the place that a flaw shows, between `before` and `after`. -/
def Flaw.Stands (before after : List Char) : Flaw → Prop
  | unclosedGroup => ∃ rest, after = '{' :: rest ∧ Unclosed rest
  | strayClose => (∃ rest, after = '}' :: rest) ∧ (∀ n, OpenAt before after n ↔ n = 0) ∧
      ∃ t, Template.parse (.ofList before) = .ok t
  | emptyGroup => ∃ rest, after = '{' :: '}' :: rest
  | loneBranch => ∃ rest, after = '{' :: rest ∧ Lone rest
  | emptyBranch => ∃ head w stop weight rest, before = head ++ w ∧ after = stop :: rest ∧
      (stop = '|' ∨ stop = '}') ∧ Ending stop weight (w ++ [stop]) ∧ BranchAt head (w ++ after)
  | namelessSlot => ∃ rest, after = '{' :: '{' :: '}' :: '}' :: rest
  | badSlotName => ∃ body rest, after = '{' :: '{' :: (body ++ '}' :: '}' :: rest) ∧
      body ≠ [] ∧ (∀ c ∈ body, Lexeme.isSlotBody c) ∧ Lexeme.isIdentifier body = false
  | unclosedSlot => ∃ name rest, after = '{' :: '{' :: (name ++ rest) ∧
      Lexeme.isIdentifier name ∧
      (rest = [] ∨ ∃ more, rest = '}' :: more ∧ more.head? ≠ some '}')
  | badWeight => ∃ digits stop rest, after = '^' :: (digits ++ stop :: rest) ∧ digits ≠ [] ∧
      (∀ d ∈ digits, d.isDigit) ∧ (stop = '|' ∨ stop = '}') ∧
      (Number.valueOf digits = 0 ∨ 2 ^ 32 - 1 < Number.valueOf digits)
  | tooDeep => (∃ rest, after = '{' :: rest) ∧ ∀ n, OpenAt before after n ↔ n = 16

/-- The fault is at a character of the text: what stands before can be gone on with, and from there
on stands what the flaw is called after. -/
def Fault.Stands (fault : Fault) (text : List Char) : Prop :=
  ∃ before after, text = before ++ after ∧ Text.byteLength before = fault.offset ∧ after ≠ [] ∧
    Viable before ∧ fault.flaw.Stands before after

namespace Lexeme

theorem weight?_eq_none {digits : List Char} (h : weight? digits = none) :
    Number.valueOf digits = 0 ∨ 2 ^ 32 - 1 < Number.valueOf digits := by
  unfold weight? at h
  dsimp only at h
  split at h
  · cases h
  · next hv =>
    have hsize : UInt32.size = 2 ^ 32 := rfl
    rw [hsize] at hv
    omega

theorem stands_of_afterBraces {cs : List Char} {flaw : Flaw} (h : afterBraces cs = .error flaw)
    (before : List Char) : flaw.Stands before ('{' :: '{' :: cs) := by
  have hcs := List.takeWhile_append_dropWhile (p := isSlotBody) (l := cs)
  have hbody : ∀ c ∈ cs.takeWhile isSlotBody, isSlotBody c :=
    fun c hc => List.all_eq_true.mp List.all_takeWhile c hc
  unfold afterBraces at h
  dsimp only at h
  split at h
  case h_1 rest heq =>
    rw [heq] at hcs
    split at h
    · next hnil =>
      cases h
      rw [List.isEmpty_iff.mp hnil] at hcs
      exact ⟨rest, by rw [← hcs]; rfl⟩
    · next hne =>
      split at h
      · cases h
      · next hid =>
        cases h
        exact ⟨_, rest, by rw [hcs], by simpa using hne, hbody, by simpa using hid⟩
  case h_2 rest hrest heq =>
    rw [heq] at hcs
    split at h
    · next hid =>
      cases h
      refine ⟨_, _, by rw [hcs], hid, .inr ⟨rest, rfl, ?_⟩⟩
      intro hhead
      obtain _ | ⟨c, more⟩ := rest
      · cases hhead
      · cases hhead
        exact hrest more rfl
    · cases h
  case h_3 heq =>
    rw [heq] at hcs
    split at h
    · next hid =>
      cases h
      exact ⟨_, _, by rw [hcs], hid, .inl rfl⟩
    · cases h
  case h_4 => cases h

theorem stands_of_afterCaret {cs : List Char} {flaw : Flaw} (h : afterCaret cs = .error flaw)
    (before : List Char) : flaw.Stands before ('^' :: cs) := by
  by_cases hw : WeightAhead cs
  · obtain ⟨digits, stop, more, rfl, hne, hd, hs⟩ := hw
    cases hn : weight? digits with
    | some n =>
      rw [afterCaret_weight hd hne hs hn] at h
      cases h
    | none =>
      have hsd : stop.isDigit = false := by obtain rfl | rfl := hs <;> decide
      have hflaw : afterCaret (digits ++ stop :: more) = .error .badWeight := by
        simp [afterCaret, takeWhile_stop hd hsd, dropWhile_stop hd hsd, hn, hs, hne]
      rw [hflaw] at h
      cases h
      exact ⟨digits, stop, more, rfl, hne, hd, hs, weight?_eq_none hn⟩
  · rw [afterCaret_letter hw] at h
    cases h

/-- What cannot be read is named by its flaw. -/
theorem stands_of_read {inside : Bool} {c : Char} {cs : List Char} {flaw : Flaw}
    (h : read inside c cs = .error flaw) (before : List Char) :
    flaw.Stands before (c :: cs) := by
  unfold read at h
  split at h
  · cases h
  split at h
  · next hopen =>
    subst hopen
    unfold afterBrace at h
    split at h
    · exact stands_of_afterBraces h before
    · cases h
  split at h
  · cases h
  split at h
  · cases h
  split at h
  · next hcaret =>
    simp only [Bool.and_eq_true, decide_eq_true_eq] at hcaret
    rw [hcaret.1]
    exact stands_of_afterCaret h before
  · cases h

theorem Reads.close {cs : List Char} {weight : Option UInt32} {last : Bool} {w rest : List Char}
    (h : Reads false cs ⟨.ending weight last, w, rest⟩) : cs = '}' :: rest := by
  have happend : w ++ rest = cs := h.append
  have hsp := h.spelled
  subst happend
  obtain ⟨c, more, hcs, hread⟩ := h
  cases hsp with
  | ending stop hs he =>
    cases he with
    | bare =>
      obtain rfl | rfl := hs
      · cases hcs
        simp [read] at hread
      · rfl
    | weighted =>
      cases hcs
      simp [read] at hread

end Lexeme

namespace Grammar

theorem isSpecial_of_isDigit {c : Char} (h : c.isDigit) : Lexeme.isSpecial c = false := by
  have hbody := isSlotBody_of_isDigit h
  have hcaret : c ≠ '^' := by
    rintro rfl
    exact absurd h (by decide)
  simp_all [Lexeme.isSlotBody, Lexeme.isSpecial]

theorem sequence_digits {digits : List Char} (hd : ∀ d ∈ digits, d.isDigit)
    (depth offset groups : Nat) (rest : List Char) :
    ∃ ns, Sequence depth ⟨digits ++ rest, offset, groups⟩ ns
      ⟨rest, offset + Text.byteLength digits, groups⟩ := by
  induction digits generalizing offset with
  | nil => exact ⟨[], .nil⟩
  | cons d digits ih =>
    obtain ⟨hd, hdigits⟩ := List.forall_mem_cons.mp hd
    obtain ⟨ns, hs⟩ := ih hdigits (offset + Text.byteLength [d])
    obtain ⟨ks, hk, -⟩ :=
      (sequence_letter (isSpecial_of_isDigit hd) depth offset groups (digits ++ rest)).concat hs
    rw [Nat.add_assoc, ← Text.byteLength_append] at hk
    exact ⟨ks, hk⟩

theorem Ending.sequence {stop : Char} {weight : Option UInt32} {w : List Char}
    (h : Ending stop weight (w ++ [stop])) (depth offset groups : Nat) (rest : List Char) :
    ∃ ns, Sequence depth ⟨w ++ 'x' :: rest, offset, groups⟩ ns
      ⟨'x' :: rest, offset + Text.byteLength w, groups⟩ := by
  generalize hv : w ++ [stop] = v at h
  cases h with
  | bare =>
    obtain rfl : w = [] := by simpa using hv
    exact ⟨[], .nil⟩
  | @weighted digits n hd hne =>
    rw [← List.cons_append] at hv
    obtain rfl := List.append_cancel_right hv
    have hcaret : Letter (0 < depth) ['^'] '^' (digits ++ 'x' :: rest) := by
      refine .plain (by decide) fun _ => ⟨by decide, fun _ => ?_⟩
      rw [weightAhead_append hd (by decide)]
      simp
    obtain ⟨ns, hs⟩ :=
      sequence_digits hd depth (offset + Text.byteLength ['^']) groups ('x' :: rest)
    rw [Nat.add_assoc, ← Text.byteLength_append] at hs
    exact ⟨_, .letter (w := ['^']) hcaret hs⟩

theorem Ending.split {stop : Char} {weight : Option UInt32} {w : List Char}
    (h : Ending stop weight w) : ∃ v, w = v ++ [stop] := by
  cases h with
  | bare => exact ⟨[], rfl⟩
  | @weighted digits => exact ⟨'^' :: digits, rfl⟩

variable {before after : List Char} {depth : Nat}

theorem OpenAt.append {w : List Char} (h : OpenAt before (w ++ after) depth)
    (hs : ∀ offset groups, ∃ ns, Sequence depth ⟨w ++ after, offset, groups⟩ ns
      ⟨after, offset + Text.byteLength w, groups⟩) : OpenAt (before ++ w) after depth := by
  obtain ⟨groups, hw⟩ := h
  obtain ⟨ns, hs⟩ := hs (Text.byteLength before) groups
  refine ⟨groups, ?_⟩
  rw [List.append_assoc, Text.byteLength_append]
  exact hw.append hs

theorem OpenAt.viable_ending {stop : Char} {weight : Option UInt32} {w rest : List Char}
    (h : OpenAt before (w ++ stop :: rest) depth) (he : Ending stop weight (w ++ [stop])) :
    Viable (before ++ w) := by
  have hreplace : Replaces (stop :: rest) ['x'] := replaces_cons rfl (by decide) _ _
  exact ((h.replace (hreplace.append w)).append fun offset groups =>
    he.sequence depth offset groups []).viable

end Grammar

namespace Outline

def Follows (x : Cursor) : List OpenGroup → List Node → Cursor → Prop
  | [], _, y => ∃ ns, Sequence 0 x ns y
  | g :: outer, nodes, y => ∃ rest groups bs z ns,
      Follows x outer g.before ⟨'{' :: rest, g.offset, groups⟩ ∧
      outer.length < Template.maxDepth ∧
      Begun (outer.length + 1) ⟨rest, g.offset + 1, groups + 1⟩ bs z ∧
      Sequence (outer.length + 1) z ns y ∧ (bs = [] ↔ g.branches = []) ∧ (ns = [] ↔ nodes = [])

variable {x y z : Cursor} {opened outer : List OpenGroup} {nodes nodes' ms : List Node}
  {g : OpenGroup} {offset groups pos : Nat} {rest : List Char}

theorem Follows.within {x : Cursor} : ∀ {opened : List OpenGroup} {nodes : List Node}
    {y : Cursor}, Follows x opened nodes y → Within x opened.length y
  | [], _, _, ⟨_, hs⟩ => .outside hs
  | _ :: _, _, _, ⟨_, _, _, _, _, hf, hd, hb, hs, _⟩ => .group hf.within hd hb hs

theorem addChar_ne_nil (c : Char) (nodes : List Node) : Template.addChar c nodes ≠ [] := by
  obtain _ | ⟨_ | _ | _, nodes⟩ := nodes <;> exact List.cons_ne_nil _ _

theorem Follows.read (h : Follows x opened nodes y) (hs : Sequence opened.length y ms z)
    (hms : ms ≠ []) (hne : nodes' ≠ []) : Follows x opened nodes' z := by
  cases opened with
  | nil =>
    obtain ⟨ns, hns⟩ := h
    obtain ⟨ks, hk, -⟩ := hns.concat hs
    exact ⟨ks, hk⟩
  | cons g outer =>
    obtain ⟨rest, groups, bs, u, ns, hf, hd, hb, hns, hbs, -⟩ := h
    obtain ⟨ks, hk, hks⟩ := hns.concat hs
    exact ⟨rest, groups, bs, u, ks, hf, hd, hb, hk, hbs, iff_of_false (hks hms) hne⟩

theorem Follows.bar {branch : Branch Node} {weight : Option UInt32} {w : List Char}
    (h : Follows x (g :: outer) nodes ⟨w ++ rest, pos, groups⟩) (he : Ending '|' weight w)
    (hne : nodes ≠ []) : Follows x ({ g with branches := branch :: g.branches } :: outer) []
      ⟨rest, pos + Text.byteLength w, groups⟩ := by
  obtain ⟨more, k, bs, u, ns, hf, hd, hb, hs, -, hns⟩ := h
  have hns : ns ≠ [] := fun h => hne (hns.mp h)
  exact ⟨more, k, _, _, [], hf, hd, hb.bar hs hns he, .nil, by simp, by simp⟩

theorem Follows.close {weight : Option UInt32} {w : List Char}
    (h : Follows x (g :: outer) nodes ⟨w ++ rest, pos, groups⟩) (he : Ending '}' weight w)
    (hne : nodes ≠ []) (hbr : g.branches ≠ []) (hne' : nodes' ≠ []) :
    Follows x outer nodes' ⟨rest, pos + Text.byteLength w, groups⟩ := by
  obtain ⟨more, k, bs, u, ns, hf, hd, hb, hs, hbs, hns⟩ := h
  have hns : ns ≠ [] := fun h => hne (hns.mp h)
  have hbs : bs ≠ [] := fun h => hbr (hbs.mp h)
  have hlen : 2 ≤ (bs ++ [Branch.mk ns weight]).length := by
    have := List.length_pos_iff.mpr hbs
    rw [List.length_append, List.length_singleton]
    omega
  have hgroup := Sequence.group hd (hb.branches (.last hs hns he)) hlen .nil
  exact hf.read hgroup (List.cons_ne_nil _ _) hne'

theorem Follows.take {p q : Outline} {cs : List Char} {l : Lexeme}
    (h : Follows x p.opened p.nodes ⟨cs, pos, p.groups⟩) (hl : Lexeme.Reads p.inside cs l)
    (hq : p.take pos l = .ok q) :
    Follows x q.opened q.nodes ⟨l.rest, pos + Text.byteLength l.written, q.groups⟩ := by
  obtain ⟨opened, nodes, groups⟩ := p
  rw [← hl.append] at h
  have hsp := hl.spelled
  rw [inside_eq] at hsp
  cases hsp with
  | letter hc =>
    cases hq
    exact h.read (.letter hc .nil) (addLetter_ne_nil _ _) (addChar_ne_nil _ _)
  | slot hn =>
    cases hq
    exact h.read (.slot hn .nil) (List.cons_ne_nil _ _) (List.cons_ne_nil _ _)
  | opening =>
    simp only [Outline.take, openGroup] at hq
    split at hq
    · next hd =>
      cases hq
      exact ⟨_, _, [], _, [], h, hd, .start, .nil, Iff.rfl, Iff.rfl⟩
    · cases hq
  | ending stop hstop he =>
    cases opened with
    | nil => cases hq
    | cons g outer =>
      obtain ⟨hne, ⟨hlast, rfl⟩ | ⟨hlast, hb, rfl⟩⟩ := endBranch_eq_ok hq
      · obtain rfl : stop = '|' := by simpa [of_decide_eq_false hlast] using hstop
        exact h.bar he hne
      · obtain rfl : stop = '}' := of_decide_eq_true hlast
        exact h.close he hne hb (List.cons_ne_nil _ _)

theorem Follows.openAt {text : List Char}
    (h : Follows ⟨text, 0, 0⟩ opened nodes ⟨rest, pos, groups⟩) :
    ∃ before, text = before ++ rest ∧ Text.byteLength before = pos ∧
      OpenAt before rest opened.length :=
  h.within.openAt

theorem Follows.opening {text : List Char}
    (h : Follows ⟨text, 0, 0⟩ (g :: outer) nodes ⟨rest, pos, groups⟩) :
    ∃ before after bs offset groups' y ns, text = before ++ '{' :: after ∧
      Text.byteLength before = g.offset ∧ OpenAt before ('{' :: after) outer.length ∧
      Begun (outer.length + 1) ⟨after, offset, groups'⟩ bs y ∧
      Sequence (outer.length + 1) y ns ⟨rest, pos, groups⟩ ∧
      (bs = [] ↔ g.branches = []) ∧ (ns = [] ↔ nodes = []) := by
  obtain ⟨after, k, bs, z, ns, hf, -, hb, hs, hbs, hns⟩ := h
  obtain ⟨before, htext, hoffset, hopen⟩ := hf.openAt
  exact ⟨before, after, bs, _, _, z, ns, htext, hoffset, hopen, hb, hs, hbs, hns⟩

variable {text cs : List Char} {p : Outline} {fault : Fault}

theorem stands_of_finish (h : Follows ⟨text, 0, 0⟩ p.opened p.nodes ⟨[], pos, p.groups⟩)
    (hf : p.finish = .error fault) : fault.Stands text := by
  obtain ⟨opened, nodes, groups⟩ := p
  cases opened with
  | nil => cases hf
  | cons g outer =>
    cases hf
    obtain ⟨before, after, bs, _, _, y, ns, htext, hoffset, hopen, hb, hs, -⟩ := h.opening
    exact ⟨before, _, htext, hoffset, List.cons_ne_nil _ _, hopen.viable, after, rfl,
      _, _, _, bs, y, ns, _, hb, hs, rfl⟩

theorem stands_of_read {c : Char} {flaw : Flaw}
    (h : Follows ⟨text, 0, 0⟩ p.opened p.nodes ⟨c :: cs, pos, p.groups⟩)
    (hf : Lexeme.read p.inside c cs = .error flaw) : Fault.Stands ⟨flaw, pos⟩ text := by
  obtain ⟨before, htext, hoffset, hopen⟩ := h.openAt
  exact ⟨before, _, htext, hoffset, List.cons_ne_nil _ _, hopen.viable,
    Lexeme.stands_of_read hf before⟩

theorem endBranch_eq_error {weight : Option UInt32} {last : Bool}
    (h : p.endBranch g outer offset weight last = .error fault) :
    (p.nodes = [] ∧ g.branches = [] ∧ last = true ∧ weight = none ∧
      fault = ⟨.emptyGroup, g.offset⟩) ∨
    (p.nodes = [] ∧ fault = ⟨.emptyBranch, offset⟩) ∨
    (p.nodes ≠ [] ∧ g.branches = [] ∧ last = true ∧ fault = ⟨.loneBranch, g.offset⟩) := by
  unfold endBranch at h
  split at h
  · next hn =>
    split at h
    · next hl =>
      simp only [Bool.and_eq_true, List.isEmpty_iff, Option.isNone_iff_eq_none] at hl
      cases h
      exact .inl ⟨List.isEmpty_iff.mp hn, hl.1.2, hl.1.1, hl.2, rfl⟩
    · cases h
      exact .inr (.inl ⟨List.isEmpty_iff.mp hn, rfl⟩)
  · next hn =>
    cases last with
    | false => cases h
    | true =>
      by_cases hb : g.branches = []
      · simp only [hb, Bool.not_true, Bool.false_eq_true, if_false, List.isEmpty_nil,
          if_true] at h
        cases h
        exact .inr (.inr ⟨by simpa using hn, hb, rfl, rfl⟩)
      · simp [hb] at h

section Ends

variable {stop : Char} {weight : Option UInt32} {w : List Char}

theorem stands_emptyGroup (h : Follows ⟨text, 0, 0⟩ (g :: outer) [] ⟨'}' :: rest, pos, groups⟩)
    (hb : g.branches = []) : Fault.Stands ⟨.emptyGroup, g.offset⟩ text := by
  obtain ⟨before, after, bs, _, _, y, ns, htext, hoffset, hopen, hbs, hs, hbr, hns⟩ := h.opening
  obtain rfl := hbr.mpr hb
  obtain rfl := hns.mpr rfl
  cases hbs.eq_of_nil.trans hs.eq_of_nil
  exact ⟨before, _, htext, hoffset, List.cons_ne_nil _ _, hopen.viable, rest, rfl⟩

theorem stands_loneBranch (h : Follows ⟨text, 0, 0⟩ (g :: outer) nodes ⟨w ++ rest, pos, groups⟩)
    (he : Ending '}' weight w) (hb : g.branches = []) (hne : nodes ≠ []) :
    Fault.Stands ⟨.loneBranch, g.offset⟩ text := by
  obtain ⟨before, after, bs, _, _, y, ns, htext, hoffset, hopen, hbs, hs, hbr, hns⟩ := h.opening
  obtain rfl := hbr.mpr hb
  obtain rfl := hbs.eq_of_nil
  have hlast := Branches.last hs (fun h => hne (hns.mp h)) he
  exact ⟨before, _, htext, hoffset, List.cons_ne_nil _ _, hopen.viable, after, rfl,
    _, _, _, _, _, hlast⟩

theorem stands_emptyBranch
    (h : Follows ⟨text, 0, 0⟩ (g :: outer) [] ⟨w ++ stop :: rest, pos, groups⟩)
    (hs : stop = '|' ∨ stop = '}') (he : Ending stop weight (w ++ [stop])) :
    Fault.Stands ⟨.emptyBranch, pos + Text.byteLength w⟩ text := by
  obtain ⟨head, rfl, rfl, hopen⟩ := h.openAt
  -- to go on there, the weight in front of the place is read again, as text
  refine ⟨head ++ w, stop :: rest, by simp, Text.byteLength_append _ _, List.cons_ne_nil _ _,
    hopen.viable_ending he, ?_⟩
  obtain ⟨after, k, bs, z, ms, hf, hd, hb, hms, -, hnil⟩ := h
  obtain rfl := hnil.mpr rfl
  rw [hms.eq_of_nil] at hb
  exact ⟨head, w, stop, weight, rest, rfl, rfl, hs, he, _, _, _, _, bs, _, hf.within, hb⟩

theorem stands_of_endBranch
    (h : Follows ⟨text, 0, 0⟩ (g :: outer) nodes ⟨w ++ rest, pos, groups⟩)
    (hs : stop = '|' ∨ stop = '}') (he : Ending stop weight w)
    (hf : endBranch ⟨g :: outer, nodes, groups⟩ g outer (pos + Text.byteLength w - 1) weight
      (stop = '}') = .error fault) : fault.Stands text := by
  obtain ⟨rfl, hb, hlast, rfl, rfl⟩ | ⟨rfl, rfl⟩ | ⟨hne, hb, hlast, rfl⟩ := endBranch_eq_error hf
  · obtain rfl : stop = '}' := of_decide_eq_true hlast
    cases he with
    | bare => exact stands_emptyGroup h hb
  · obtain ⟨v, rfl⟩ := he.split
    have hsize : stop.utf8Size = 1 := by obtain rfl | rfl := hs <;> decide
    rw [List.append_assoc] at h
    rw [Text.byteLength_append, Text.byteLength_cons, Text.byteLength_nil, hsize]
    exact stands_emptyBranch h hs he
  · obtain rfl : stop = '}' := of_decide_eq_true hlast
    exact stands_loneBranch h he hb hne

end Ends

theorem stands_of_take {l : Lexeme}
    (h : Follows ⟨text, 0, 0⟩ p.opened p.nodes ⟨cs, pos, p.groups⟩)
    (hl : Lexeme.Reads p.inside cs l) (hf : p.take pos l = .error fault) : fault.Stands text := by
  obtain ⟨opened, nodes, groups⟩ := p
  have hsp := hl.spelled
  rw [inside_eq] at hsp
  cases hsp with
  | letter | slot => cases hf
  | opening =>
    simp only [take, openGroup] at hf
    split at hf
    · cases hf
    · next hd =>
      cases hf
      have hdepth : opened.length = Template.maxDepth :=
        Nat.le_antisymm h.within.depth_le (Nat.le_of_not_lt hd)
      rw [← hl.append] at h
      obtain ⟨before, htext, hoffset, hopen⟩ := h.openAt
      simp only [hdepth] at hopen
      exact ⟨before, _, htext, hoffset, List.cons_ne_nil _ _, hopen.viable, ⟨_, rfl⟩,
        hopen.iff_eq⟩
  | ending stop hstop he =>
    cases opened with
    | nil =>
      cases hf
      rw [hl.close] at h
      obtain ⟨before, htext, hoffset, hopen⟩ := h.openAt
      exact ⟨before, _, htext, hoffset, List.cons_ne_nil _ _, hopen.viable, ⟨_, rfl⟩,
        hopen.iff_eq, hopen.parse_before⟩
    | cons g outer =>
      rw [← hl.append] at h
      exact stands_of_endBranch h hstop he hf

theorem stands_of_run (h : Follows ⟨text, 0, 0⟩ p.opened p.nodes ⟨cs, pos, p.groups⟩)
    (hf : p.run pos cs = .error fault) : fault.Stands text := by
  fun_induction run p pos cs with
  | case1 p pos => exact stands_of_finish h hf
  | case2 p pos c cs flaw hread =>
    cases hf
    exact stands_of_read h hread
  | case3 p pos c cs l hread fault' htake =>
    cases hf
    exact stands_of_take h ⟨c, cs, rfl, hread⟩ htake
  | case4 p pos c cs l hread q hq ih => exact ih (h.take ⟨c, cs, rfl, hread⟩ hq) hf

end Outline

namespace Template

/-- What a text is refused for stands at a place up to which something can be made of it. -/
theorem stands_of_parse {text : String} {fault : Fault} (h : parse text = .error fault) :
    fault.Stands text.toList := by
  have hstart : Outline.Follows ⟨text.toList, 0, 0⟩ Outline.start.opened Outline.start.nodes
      ⟨text.toList, 0, Outline.start.groups⟩ := ⟨[], .nil⟩
  exact Outline.stands_of_run hstart h

theorem stands_of_parse_weight :
    parse "é{^2|b}" = .error ⟨.emptyBranch, 5⟩ ∧
    Fault.Stands ⟨.emptyBranch, 5⟩ "é{^2|b}".toList := by
  have h : parse "é{^2|b}" = .error ⟨.emptyBranch, 5⟩ := by cbv
  exact ⟨h, stands_of_parse h⟩

end Template

end Spintax
