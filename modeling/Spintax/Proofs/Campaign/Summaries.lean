import Spintax.Campaign.Statistics
import Spintax.Proofs.Campaign.Books

namespace Spintax

variable {c : Choice} {n : Nat} {es : List (Choice × Nat)} {s : Statistics} {l l' : Ledger}
  {ms ms' : List (List Choice)}

namespace Tally

def branches (g : Nat) (es : List (Choice × Nat)) : List (Nat × Nat) :=
  es.filterMap fun e => if e.1.group = g then some (e.1.branch, e.2) else none

theorem branches_cons (g : Nat) (e : Choice × Nat) (es : List (Choice × Nat)) :
    branches g (e :: es) =
      if e.1.group = g then (e.1.branch, e.2) :: branches g es else branches g es := by
  rw [branches, List.filterMap_cons]
  split <;> simp_all [branches]

theorem lookup_branches (g b : Nat) (es : List (Choice × Nat)) :
    (branches g es).lookup b = es.lookup ⟨g, b⟩ := by
  induction es with
  | nil => rfl
  | cons e es ih =>
    obtain ⟨⟨g', b'⟩, n⟩ := e
    rw [branches_cons, Entries.lookup_cons]
    by_cases hg : g' = g
    · subst hg
      by_cases hb : b = b' <;> simp [Entries.lookup_cons, hb, ih]
    · simp [hg, Ne.symm hg, ih]

theorem mem_branches {g : Nat} {b : Nat × Nat} (h : b ∈ branches g es) :
    (⟨g, b.1⟩, b.2) ∈ es := by
  obtain ⟨⟨⟨g', b'⟩, n⟩, he, hb⟩ := List.mem_filterMap.mp h
  split at hb
  · next hg =>
    cases hb
    cases hg
    exact he
  · cases hb

theorem Ordered.groups (h : Ordered es) : es.Pairwise (·.1.group ≤ ·.1.group) := by
  refine h.ascending.imp fun {d e} hde => ?_
  rw [Choice.before_iff] at hde
  omega

theorem Ordered.branches (h : Ordered es) (g : Nat) :
    ((branches g es).map Prod.fst).Pairwise (· < ·) := by
  rw [List.pairwise_map, Tally.branches, List.pairwise_filterMap]
  refine h.ascending.imp fun {d e} hde b hb b' hb' => ?_
  rw [Choice.before_iff] at hde
  split at hb <;> cases hb
  split at hb' <;> cases hb'
  simp only
  omega

end Tally

namespace GroupCounts

def ofBranches (bs : List (Nat × Nat)) : GroupCounts :=
  ⟨(bs.map Prod.snd).sum, bs⟩

end GroupCounts

namespace Statistics

theorem group_cons (c : Choice) (n : Nat) (es : List (Choice × Nat)) :
    (∃ counts gs, group es = (c.group, counts) :: gs ∧
      group ((c, n) :: es) = (c.group, counts.push c.branch n) :: gs) ∨
    ((∀ p ∈ (group es).head?, p.1 ≠ c.group) ∧
      group ((c, n) :: es) = (c.group, ⟨n, [(c.branch, n)]⟩) :: group es) := by
  rw [group]
  cases group es with
  | nil => exact .inr ⟨by simp, rfl⟩
  | cons p gs =>
    obtain ⟨g, counts⟩ := p
    by_cases hg : g = c.group
    · subst hg
      exact .inl ⟨counts, gs, rfl, if_pos rfl⟩
    · exact .inr ⟨by simpa using hg, if_neg hg⟩

theorem exists_of_mem_group {p : Nat × GroupCounts} (h : p ∈ group es) :
    ∃ e ∈ es, e.1.group = p.1 := by
  induction es with
  | nil => cases h
  | cons e es ih =>
    obtain ⟨c, n⟩ := e
    have hlater (h : p ∈ group es) : ∃ e ∈ (c, n) :: es, e.1.group = p.1 := by
      obtain ⟨e, he, hep⟩ := ih h
      exact ⟨e, List.mem_cons_of_mem _ he, hep⟩
    obtain ⟨counts, gs, hes, hgroup⟩ | ⟨-, hgroup⟩ := group_cons c n es
    · rw [hgroup] at h
      obtain rfl | h := List.mem_cons.mp h
      · exact ⟨(c, n), List.mem_cons_self, rfl⟩
      · exact hlater (hes ▸ List.mem_cons_of_mem _ h)
    · rw [hgroup] at h
      obtain rfl | h := List.mem_cons.mp h
      · exact ⟨(c, n), List.mem_cons_self, rfl⟩
      · exact hlater h

theorem ascending_group (h : es.Pairwise (·.1.group ≤ ·.1.group)) :
    ((group es).map Prod.fst).Pairwise (· < ·) := by
  induction es with
  | nil => exact List.Pairwise.nil
  | cons e es ih =>
    obtain ⟨c, n⟩ := e
    obtain ⟨hc, h⟩ := List.pairwise_cons.mp h
    have ih := ih h
    have hle : ∀ p ∈ group es, c.group ≤ p.1 := by
      intro p hp
      obtain ⟨e, he, heq⟩ := exists_of_mem_group hp
      exact heq ▸ hc e he
    obtain ⟨counts, gs, hes, hgroup⟩ | ⟨hne, hgroup⟩ := group_cons c n es
    · rw [hgroup]
      rwa [hes] at ih
    · rw [hgroup, List.map_cons]
      refine List.pairwise_cons.mpr ⟨?_, ih⟩
      cases hes : group es with
      | nil => simp
      | cons q gs =>
        rw [hes] at ih hle hne
        -- the group that is opened is another one than the first, and so comes before all
        have hq : c.group < q.1 :=
          Nat.lt_of_le_of_ne (hle q List.mem_cons_self) (Ne.symm (hne q rfl))
        rw [List.map_cons, List.forall_mem_cons]
        exact ⟨hq, fun g hg => hq.trans ((List.pairwise_cons.mp ih).1 g hg)⟩

theorem lookup_group (h : es.Pairwise (·.1.group ≤ ·.1.group)) (g : Nat) :
    (group es).lookup g = if Tally.branches g es = [] then none
      else some (.ofBranches (Tally.branches g es)) := by
  induction es with
  | nil => rfl
  | cons e es ih =>
    obtain ⟨c, n⟩ := e
    have hasc := ascending_group h
    have ih := ih (List.pairwise_cons.mp h).2
    rw [Tally.branches_cons]
    obtain ⟨counts, gs, hes, hgroup⟩ | ⟨-, hgroup⟩ := group_cons c n es
    · rw [hes, Entries.lookup_cons] at ih
      rw [hgroup, Entries.lookup_cons]
      by_cases hgc : g = c.group
      · subst hgc
        rw [if_pos rfl] at ih
        have hne : Tally.branches c.group es ≠ [] := by
          intro hnil
          simp [hnil] at ih
        rw [if_neg hne] at ih
        cases ih
        rw [if_pos rfl, if_pos rfl, if_neg (List.cons_ne_nil _ _)]
        rfl
      · rw [if_neg hgc, if_neg (Ne.symm hgc), ← ih, if_neg hgc]
    · rw [hgroup, List.map_cons, List.pairwise_cons] at hasc
      rw [hgroup, Entries.lookup_cons]
      by_cases hgc : g = c.group
      · subst hgc
        have hnone : (group es).lookup c.group = none := by
          rw [List.lookup_eq_none_iff]
          intro p hp
          simpa using Nat.ne_of_lt (hasc.1 p.1 (List.mem_map_of_mem hp))
        rw [hnone] at ih
        have hnil : Tally.branches c.group es = [] := by simpa using ih
        simp [hnil, GroupCounts.ofBranches]
      · rw [if_neg hgc, if_neg (Ne.symm hgc), ih]

/-- The statistics are those of some messages. Each message counts once, and so does each of
its choices; nothing else is known. -/
structure Tells (s : Statistics) (ms : List (List Choice)) : Prop where
  renders : s.renders = ms.length
  counts : ∀ g b, s.count g b = ms.flatten.count ⟨g, b⟩
  sums : ∀ g ∈ s.groups, g.2.renders = (g.2.branches.map Prod.snd).sum
  shown : ∀ g ∈ s.groups, g.2.branches ≠ [] ∧ ∀ b ∈ g.2.branches, ⟨g.1, b.1⟩ ∈ ms.flatten
  groups : (s.groups.map Prod.fst).Pairwise (· < ·)
  branches : ∀ g ∈ s.groups, (g.2.branches.map Prod.fst).Pairwise (· < ·)

def figures (s : Statistics) : Nat × List (Nat × GroupCounts) :=
  (s.renders, s.groups)

theorem tells_ofShard {t : Shard} (hord : Tally.Ordered t.tally.entries)
    (hmsg : t.messages = ms.length) (hcount : ∀ c, t.tally.count c = ms.flatten.count c)
    (campaign : String) (openedAt now : Timestamp) :
    (ofShard campaign t openedAt now).Tells ms := by
  have hasc := ascending_group hord.groups
  have hlook := lookup_group hord.groups
  have hgroup : ∀ g ∈ group t.tally.entries,
      Tally.branches g.1 t.tally.entries ≠ [] ∧
        g.2 = .ofBranches (Tally.branches g.1 t.tally.entries) := by
    intro g hg
    have hl := (Entries.lookup_eq_some_iff_mem (hasc.imp Nat.ne_of_lt)).mpr hg
    rw [hlook] at hl
    split at hl
    · cases hl
    · next hne => exact ⟨hne, (Option.some.inj hl).symm⟩
  constructor
  case renders => exact hmsg
  case counts =>
    intro g b
    rw [← hcount, count, group?, ofShard, hlook]
    split
    · next hnone =>
      split at hnone <;> cases hnone
      exact congrArg (·.getD 0) (Tally.lookup_branches g b _)
    · next hnil =>
      split at hnil <;> cases hnil
      next hnil =>
      rw [Tally.count, ← Tally.lookup_branches, hnil]
      rfl
  case sums =>
    intro g hg
    rw [(hgroup g hg).2]
    rfl
  case shown =>
    intro g hg
    obtain ⟨hne, hbranches⟩ := hgroup g hg
    rw [hbranches]
    refine ⟨hne, fun b hb => ?_⟩
    have hm := hord.mem_iff.mp (Tally.mem_branches hb)
    have hc := hcount ⟨g.1, b.1⟩
    rw [Tally.count, hm.2] at hc
    exact List.count_pos_iff.mp (hc ▸ hm.1)
  case groups => exact hasc
  case branches =>
    intro g hg
    rw [(hgroup g hg).2]
    exact hord.branches g.1

theorem ofLedger_eq_ofShard (campaign : String) (l : Ledger) (now : Timestamp) :
    ofLedger campaign l now = ofShard campaign l.total l.openedAt now :=
  rfl

theorem tells_ofLedger (h : l.Holds ms) (campaign : String) (now : Timestamp) :
    (ofLedger campaign l now).Tells ms := by
  rw [ofLedger_eq_ofShard]
  exact tells_ofShard h.ordered_total h.messages_total h.count_total campaign l.openedAt now

theorem figures_ofLedger (h : l.Holds ms) (h' : l'.Holds ms') (hp : ms.Perm ms')
    (campaign : String) (now now' : Timestamp) :
    (ofLedger campaign l now).figures = (ofLedger campaign l' now').figures := by
  rw [figures, figures, ofLedger, ofLedger, h.total_eq_of_perm h' hp]

end Statistics

end Spintax
