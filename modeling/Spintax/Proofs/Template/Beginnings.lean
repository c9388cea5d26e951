import Spintax.Proofs.Template.Parsing

namespace Spintax.Grammar

/-- Behind the opening brace of a group, from `x` on, the branches `bs` are written, each with the
bar that ends it, and the next branch starts at `y`. -/
inductive Begun (depth : Nat) (x : Cursor) : List (Branch Node) → Cursor → Prop
  | start : Begun depth x [] x
  | bar {offset groups : Nat} {y : Cursor} {bs : List (Branch Node)} {ns : List Node}
      {weight : Option UInt32} {w rest : List Char} (hb : Begun depth x bs y)
      (hs : Sequence depth y ns ⟨w ++ rest, offset, groups⟩) (hne : ns ≠ [])
      (he : Ending '|' weight w) :
      Begun depth x (bs ++ [⟨ns, weight⟩]) ⟨rest, offset + Text.byteLength w, groups⟩

/-- Of the groups that are opened between `x`, where the text starts, and `y`, there are `depth`
that are not closed. -/
inductive Within (x : Cursor) : Nat → Cursor → Prop
  | outside {y : Cursor} {ns : List Node} (hs : Sequence 0 x ns y) : Within x 0 y
  | group {depth offset groups : Nat} {y z : Cursor} {rest : List Char}
      {bs : List (Branch Node)} {ns : List Node}
      (hw : Within x depth ⟨'{' :: rest, offset, groups⟩) (hd : depth < Template.maxDepth)
      (hb : Begun (depth + 1) ⟨rest, offset + 1, groups + 1⟩ bs z)
      (hs : Sequence (depth + 1) z ns y) : Within x (depth + 1) y

variable {depth : Nat} {x y z : Cursor} {ns ms : List Node} {bs cs : List (Branch Node)}
  {text rest rest' : List Char}

theorem addLetter_ne_nil (c : Char) (ns : List Node) : addLetter c ns ≠ [] := by
  obtain _ | ⟨_ | _ | _, ns⟩ := ns <;> exact List.cons_ne_nil _ _

theorem Sequence.concat {depth : Nat} {x y z : Cursor} {ns ms : List Node} :
    Sequence depth x ns y → Sequence depth y ms z →
      ∃ ks, Sequence depth x ks z ∧ (ms ≠ [] → ks ≠ [])
  | .nil, h => ⟨_, h, id⟩
  | .letter hc hs, h => by
    obtain ⟨ks, hk, -⟩ := hs.concat h
    exact ⟨_, .letter hc hk, fun _ => addLetter_ne_nil _ ks⟩
  | .slot hn hs, h => by
    obtain ⟨ks, hk, -⟩ := hs.concat h
    exact ⟨_, .slot hn hk, fun _ => List.cons_ne_nil _ ks⟩
  | .group hd hb h2 hs, h => by
    obtain ⟨ks, hk, -⟩ := hs.concat h
    exact ⟨_, .group hd hb h2 hk, fun _ => List.cons_ne_nil _ ks⟩

theorem Sequence.eq_of_nil (h : Sequence depth x [] y) : x = y := by
  generalize hns : ([] : List Node) = ns at h
  cases h with
  | nil => rfl
  | letter => exact absurd hns.symm (addLetter_ne_nil _ _)
  | slot | group => cases hns

theorem Begun.eq_of_nil (h : Begun depth x [] y) : x = y := by
  generalize hbs : ([] : List (Branch Node)) = bs at h
  cases h with
  | start => rfl
  | bar => simp at hbs

theorem Begun.branches (h : Begun depth x bs y) (hcs : Branches depth y cs z) :
    Branches depth x (bs ++ cs) z := by
  induction h generalizing cs with
  | start => exact hcs
  | bar hb hs hne he ih =>
    rw [List.append_assoc]
    exact ih (.more hs hne he hcs)

theorem Within.append (h : Within x depth y) (hs : Sequence depth y ms z) :
    Within x depth z := by
  cases h with
  | outside hs₀ =>
    obtain ⟨ks, hk, -⟩ := hs₀.concat hs
    exact .outside hk
  | group hw hd hb hs₀ =>
    obtain ⟨ks, hk, -⟩ := hs₀.concat hs
    exact .group hw hd hb hk

theorem Within.depth_le (h : Within x depth y) : depth ≤ Template.maxDepth := by
  cases h with
  | outside => exact Nat.zero_le _
  | group hw hd => exact hd

section Replace

structure Replaces (rest rest' : List Char) : Prop where
  special : ∀ c, rest'.head? = some c → Lexeme.isSpecial c →
    ∃ c', rest.head? = some c' ∧ Lexeme.isSpecial c'
  weight : ∀ digits : List Char, (∀ d ∈ digits, d.isDigit) →
    WeightAhead (digits ++ rest') → WeightAhead (digits ++ rest)

theorem weightAhead_append {digits : List Char} {c : Char} (hd : ∀ d ∈ digits, d.isDigit)
    (hc : c.isDigit = false) (rest : List Char) :
    WeightAhead (digits ++ c :: rest) ↔ digits ≠ [] ∧ (c = '|' ∨ c = '}') := by
  rw [Lexeme.weightAhead_iff, Lexeme.takeWhile_stop hd hc, Lexeme.dropWhile_stop hd hc]
  simp

theorem not_weightAhead_digits {digits : List Char} (hd : ∀ d ∈ digits, d.isDigit) :
    ¬ WeightAhead digits := by
  rintro ⟨v, c, more, rfl, -, -, hc⟩
  have hdigit := hd c (by simp)
  obtain rfl | rfl := hc <;> exact absurd hdigit (by decide)

theorem Replaces.cons (h : Replaces rest rest') (c : Char) :
    Replaces (c :: rest) (c :: rest') := by
  refine ⟨fun d hd hs => ⟨d, hd, hs⟩, fun digits hd hw => ?_⟩
  by_cases hc : c.isDigit
  · have hd' : ∀ d ∈ digits ++ [c], d.isDigit := by
      simpa [or_imp, forall_and] using ⟨hd, hc⟩
    rw [List.append_cons] at hw ⊢
    exact h.weight _ hd' hw
  · rw [Bool.not_eq_true] at hc
    rw [weightAhead_append hd hc] at hw ⊢
    exact hw

theorem Replaces.append (h : Replaces rest rest') : ∀ w : List Char,
    Replaces (w ++ rest) (w ++ rest')
  | [] => h
  | c :: w => (h.append w).cons c

theorem replaces_nil (rest : List Char) : Replaces rest [] where
  special := by simp
  weight digits hd hw := by
    rw [List.append_nil] at hw
    exact absurd hw (not_weightAhead_digits hd)

theorem replaces_cons {c : Char} (hs : Lexeme.isSpecial c = false) (hd : c.isDigit = false)
    (rest rest' : List Char) : Replaces rest (c :: rest') where
  special d h hspecial := by
    cases h
    simp [hs] at hspecial
  weight digits hdigits hw := by
    rw [weightAhead_append hdigits hd] at hw
    obtain ⟨-, rfl | rfl⟩ := hw <;> cases hs

theorem Letter.replace {inside : Bool} {w : List Char} {c : Char} (hc : Letter inside w c rest)
    (h : Replaces rest rest') : Letter inside w c rest' := by
  cases hc with
  | escaped hc => exact .escaped hc
  | backslash hr =>
    refine .backslash fun c hc hs => ?_
    obtain ⟨c', hc', hs'⟩ := h.special c hc hs
    exact hr c' hc' hs'
  | plain hc hi =>
    exact .plain hc fun hin => ⟨(hi hin).1, fun hcaret hw =>
      (hi hin).2 hcaret (h.weight [] (by simp) hw)⟩

def Cursor.Spans (x : Cursor) (w : List Char) (y : Cursor) : Prop :=
  x.rest = w ++ y.rest ∧ y.offset = x.offset + Text.byteLength w

def Cursor.goOn (x : Cursor) (rest : List Char) : Cursor :=
  { x with rest }

theorem Cursor.Spans.trans {v w : List Char} (h : x.Spans v y) (h' : y.Spans w z) :
    x.Spans (v ++ w) z := by
  obtain ⟨hx, hy⟩ := h
  obtain ⟨hy', hz⟩ := h'
  refine ⟨by rw [hx, hy', List.append_assoc], ?_⟩
  rw [hz, hy, Text.byteLength_append, Nat.add_assoc]

theorem Cursor.Spans.replaces {w : List Char} (h : x.Spans w y) (hr : Replaces y.rest rest') :
    Replaces x.rest (w ++ rest') := by
  rw [h.1]
  exact hr.append w

mutual

/-- What is derived between two places is derived there as well when the text goes on in another
way, provided that this leaves what stands before as it is. -/
theorem Sequence.replace {depth : Nat} {x y : Cursor} {ns : List Node} {rest' : List Char} :
    Sequence depth x ns y → Replaces y.rest rest' →
      ∃ w, x.Spans w y ∧ Sequence depth (x.goOn (w ++ rest')) ns (y.goOn rest')
  | .nil, _ => ⟨[], ⟨rfl, rfl⟩, .nil⟩
  | .letter (w := w) hc hs, h => by
    -- a letter looks ahead, so that what comes behind it has to be replaced first
    obtain ⟨v, hv, hseq⟩ := hs.replace h
    refine ⟨w ++ v, .trans ⟨rfl, rfl⟩ hv, ?_⟩
    rw [List.append_assoc]
    exact .letter (hc.replace (hv.replaces h)) hseq
  | .slot hn hs, h => by
    obtain ⟨v, hv, hseq⟩ := hs.replace h
    refine ⟨braced _ ++ v, .trans ⟨rfl, rfl⟩ hv, ?_⟩
    rw [List.append_assoc]
    exact .slot hn hseq
  | .group hd hb h2 hs, h => by
    obtain ⟨v, hv, hseq⟩ := hs.replace h
    obtain ⟨u, hu, hbranches⟩ := hb.replace (hv.replaces h)
    refine ⟨'{' :: (u ++ v), .trans (v := ['{']) ⟨rfl, rfl⟩ (hu.trans hv), ?_⟩
    rw [List.cons_append, List.append_assoc]
    exact .group hd hbranches h2 hseq

theorem Branches.replace {depth : Nat} {x y : Cursor} {bs : List (Branch Node)}
    {rest' : List Char} : Branches depth x bs y → Replaces y.rest rest' →
      ∃ w, x.Spans w y ∧ Branches depth (x.goOn (w ++ rest')) bs (y.goOn rest')
  | .last (w := w) hs hne he, h => by
    obtain ⟨v, hv, hseq⟩ := hs.replace (h.append w)
    refine ⟨v ++ w, hv.trans ⟨rfl, rfl⟩, ?_⟩
    rw [List.append_assoc]
    exact .last hseq hne he
  | .more (w := w) hs hne he hb, h => by
    obtain ⟨u, hu, hbranches⟩ := hb.replace h
    obtain ⟨v, hv, hseq⟩ := hs.replace ((hu.replaces h).append w)
    refine ⟨v ++ (w ++ u), hv.trans (.trans ⟨rfl, rfl⟩ hu), ?_⟩
    rw [List.append_assoc, List.append_assoc]
    exact .more hseq hne he hbranches

end

theorem Begun.replace (hb : Begun depth x bs y) (h : Replaces y.rest rest') :
    ∃ w, x.Spans w y ∧ Begun depth (x.goOn (w ++ rest')) bs (y.goOn rest') := by
  induction hb generalizing rest' with
  | start => exact ⟨[], ⟨rfl, by simp⟩, .start⟩
  | @bar offset groups y bs ns weight w rest hb hs hne he ih =>
    obtain ⟨v, hv, hseq⟩ := hs.replace (h.append w)
    obtain ⟨u, hu, hbegun⟩ := ih (hv.replaces (h.append w))
    refine ⟨u ++ (v ++ w), hu.trans (hv.trans ⟨rfl, rfl⟩), ?_⟩
    rw [List.append_assoc, List.append_assoc]
    exact .bar hbegun hseq hne he

theorem Within.replace (hw : Within x depth y) (h : Replaces y.rest rest') :
    ∃ w, x.Spans w y ∧ Within (x.goOn (w ++ rest')) depth (y.goOn rest') := by
  induction hw generalizing rest' with
  | outside hs =>
    obtain ⟨w, hw, hseq⟩ := hs.replace h
    exact ⟨w, hw, .outside hseq⟩
  | @group depth offset groups y z rest bs ns hw hd hb hs ih =>
    obtain ⟨w, hy, hseq⟩ := hs.replace h
    obtain ⟨v, hz, hbegun⟩ := hb.replace (hy.replaces h)
    obtain ⟨u, hbrace, hwithin⟩ := ih ((hz.replaces (hy.replaces h)).cons '{')
    refine ⟨u ++ '{' :: (v ++ w), ?_, ?_⟩
    · exact hbrace.trans (.trans (v := ['{']) ⟨rfl, rfl⟩ (hz.trans hy))
    · have happend : (u ++ '{' :: (v ++ w)) ++ rest' = u ++ '{' :: (v ++ (w ++ rest')) := by simp
      rw [happend]
      exact .group hwithin hd hbegun hseq

end Replace

section Complete

def closing : Nat → List Char
  | 0 => []
  | depth + 1 => '|' :: 'x' :: '}' :: closing depth

theorem closing_add (m n : Nat) : closing (m + n) = closing m ++ closing n := by
  induction m with
  | zero => rw [Nat.zero_add, closing, List.nil_append]
  | succ m ih => rw [Nat.add_right_comm, closing, ih, closing, List.cons_append, List.cons_append,
      List.cons_append]

theorem sequence_letter {c : Char} (hs : Lexeme.isSpecial c = false) (depth offset groups : Nat)
    (rest : List Char) : Sequence depth ⟨c :: rest, offset, groups⟩ (addLetter c [])
      ⟨rest, offset + Text.byteLength [c], groups⟩ := by
  simp only [Lexeme.isSpecial, Bool.or_eq_false_iff, decide_eq_false_iff_not] at hs
  obtain ⟨⟨⟨⟨hopen, hclose⟩, hbar⟩, hbackslash⟩, hcaret⟩ := hs
  exact .letter (.plain ⟨hopen, hclose, hbackslash⟩ fun _ => ⟨hbar, fun h => absurd h hcaret⟩) .nil

theorem Within.close (hw : Within x depth y) (hs : Sequence depth y ms z) (hne : ms ≠ [])
    (hz : z.rest = closing depth ++ rest) :
    ∃ offset groups, Within x 0 ⟨rest, offset, groups⟩ := by
  induction depth generalizing y z ms with
  | zero =>
    obtain ⟨_, offset, groups⟩ := z
    cases hz
    exact ⟨offset, groups, hw.append hs⟩
  | succ depth ih =>
    cases hw with
    | group hw hd hb hs₀ =>
      obtain ⟨ks, hk, hks⟩ := hs₀.concat hs
      obtain ⟨_, offset, groups⟩ := z
      cases hz
      have hlast := Branches.last (sequence_letter (c := 'x') rfl (depth + 1) (offset + 1) groups
        (['}'] ++ (closing depth ++ rest))) (addLetter_ne_nil _ _) .bare
      have hbs := hb.branches (.more (w := ['|']) hk (hks hne) .bare hlast)
      have hgroup := Sequence.group hd hbs (by simp) .nil
      exact ih hw hgroup (List.cons_ne_nil _ _) rfl

/-- In the text `before ++ after`, `depth` groups are open behind `before`. -/
def OpenAt (before after : List Char) (depth : Nat) : Prop :=
  ∃ groups, Within ⟨before ++ after, 0, 0⟩ depth ⟨after, Text.byteLength before, groups⟩

variable {before after : List Char}

theorem Within.openAt {offset groups : Nat}
    (h : Within ⟨text, 0, 0⟩ depth ⟨after, offset, groups⟩) :
    ∃ before, text = before ++ after ∧ Text.byteLength before = offset ∧
      OpenAt before after depth := by
  obtain ⟨before, ⟨htext, hoffset⟩, -⟩ := h.replace (replaces_nil _)
  simp only [Nat.zero_add] at htext hoffset
  subst htext hoffset
  exact ⟨before, rfl, rfl, groups, h⟩

theorem OpenAt.replace {after' : List Char} (h : OpenAt before after depth)
    (hr : Replaces after after') : OpenAt before after' depth := by
  obtain ⟨groups, hw⟩ := h
  obtain ⟨w, ⟨hspan, -⟩, hwithin⟩ := hw.replace hr
  obtain rfl := List.append_cancel_right hspan
  exact ⟨groups, hwithin⟩

theorem parse_ofList {cs : List Char} {ns : List Node} (h : Derives cs ns) :
    Template.parse (.ofList cs) = .ok ⟨ns⟩ :=
  Template.parse_of_derives (by rwa [String.toList_ofList])

theorem OpenAt.parse_before (h : OpenAt before after 0) :
    ∃ t, Template.parse (.ofList before) = .ok t := by
  obtain ⟨groups, hw⟩ := h.replace (replaces_nil after)
  cases hw with
  | outside hs =>
    rw [List.append_nil] at hs
    exact ⟨_, parse_ofList ⟨_, _, hs⟩⟩

theorem OpenAt.close (h : OpenAt before after depth) (rest : List Char) :
    ∃ offset groups, Within ⟨before ++ 'x' :: (closing depth ++ rest), 0, 0⟩ 0
      ⟨rest, offset, groups⟩ := by
  obtain ⟨groups, hw⟩ := h.replace
    (replaces_cons (c := 'x') rfl (by decide) after (closing depth ++ rest))
  exact hw.close (sequence_letter rfl _ _ _ _) (addLetter_ne_nil _ _) rfl

/-- Something can be written behind `before` so that a template comes of it. -/
def Viable (before : List Char) : Prop :=
  ∃ more t, Template.parse (.ofList (before ++ more)) = .ok t

theorem OpenAt.viable (h : OpenAt before after depth) : Viable before := by
  obtain ⟨offset, groups, hw⟩ := h.close []
  cases hw with
  | outside hs => exact ⟨_, _, parse_ofList ⟨_, _, hs⟩⟩

theorem run_strayClose (nodes : List Node) (groups pos : Nat) (cs : List Char) :
    Outline.run ⟨[], nodes, groups⟩ pos ('}' :: cs) = .error ⟨.strayClose, pos⟩ := by
  have hread : Lexeme.read (Outline.inside ⟨[], nodes, groups⟩) '}' cs =
      .ok ⟨.ending none true, ['}'], cs⟩ := by
    simp [Lexeme.read]
  rw [Outline.run]
  split
  · next heq =>
    rw [hread] at heq
    cases heq
  · next heq =>
    rw [hread] at heq
    cases heq
    rfl

theorem OpenAt.not_derives {m n : Nat} (h : OpenAt before after m) (hlt : m < n) (ns : List Node) :
    ¬ Derives (before ++ 'x' :: closing n) ns := by
  intro hns
  obtain ⟨k, rfl⟩ := Nat.exists_eq_add_of_lt hlt
  rw [Nat.add_assoc, closing_add, closing] at hns
  obtain ⟨offset, groups, hw⟩ := h.close ('|' :: 'x' :: '}' :: closing k)
  cases hw with
  | outside hs =>
    -- the next bar is text, and the brace behind it closes nothing
    have hbar : Sequence 0 ⟨'|' :: 'x' :: '}' :: closing k, offset, groups⟩ (addLetter '|' _) _ :=
      .letter (w := ['|']) (.plain (by decide) (by simp))
        (sequence_letter (c := 'x') rfl 0 _ groups ('}' :: closing k))
    obtain ⟨ks, hk, -⟩ := hs.concat hbar
    have hrun := Outline.run_sequence hk [] [] rfl
    obtain ⟨offset', groups', hs'⟩ := hns
    have hrun' := Outline.run_sequence hs' [] [] rfl
    rw [hrun, run_strayClose, Outline.run_nil] at hrun'
    cases hrun'

theorem OpenAt.depth_eq {m n : Nat} (h : OpenAt before after m) (h' : OpenAt before after n) :
    m = n := by
  have hderives : ∀ {k : Nat}, OpenAt before after k →
      ∃ ns, Derives (before ++ 'x' :: closing k) ns := by
    intro k hk
    obtain ⟨offset, groups, hw⟩ := hk.close []
    rw [List.append_nil] at hw
    cases hw with
    | outside hs => exact ⟨_, _, _, hs⟩
  -- what closes the larger number of groups would be too much for the smaller one
  obtain hlt | heq | hlt := Nat.lt_trichotomy m n
  · obtain ⟨ns, hns⟩ := hderives h'
    exact absurd hns (h.not_derives hlt ns)
  · exact heq
  · obtain ⟨ns, hns⟩ := hderives h
    exact absurd hns (h'.not_derives hlt ns)

theorem OpenAt.iff_eq (h : OpenAt before after depth) (n : Nat) :
    OpenAt before after n ↔ n = depth := by
  constructor
  · exact fun hn => hn.depth_eq h
  · rintro rfl
    exact h

end Complete

end Spintax.Grammar
