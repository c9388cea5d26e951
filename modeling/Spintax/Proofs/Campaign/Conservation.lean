import Spintax.Proofs.Campaign.Accounts
import Spintax.Proofs.Rendering.Visits

namespace Spintax

open Choice

namespace Statistics

def rendersOf (s : Statistics) (g : Nat) : Nat :=
  ((s.group? g).map (·.renders)).getD 0

/-- The statistics are those of some renderings of the template. A group outside of all others is
shown with each of them, a group in a branch of another one as often as that branch. Each
rendering counts once for a branch that it shows, and all branches are in the template. -/
structure Conserved (s : Statistics) (t : Template) (ms : List (List Choice)) : Prop where
  total : s.renders = ms.length
  outer : ∀ g : Group, g.node ∈ t.nodes → s.rendersOf g.index = s.renders
  inner : ∀ p ∈ t.preorder, ∀ (a : Nat) (b : Branch Node) (g : Group), p.branches[a]? = some b →
    g.node ∈ b.nodes → s.rendersOf g.index = s.count p.index a
  counted : ∀ g a, s.count g a = ms.countP (⟨g, a⟩ ∈ ·)
  bounded : ∀ g ∈ s.groups, ∃ p ∈ t.preorder, p.index = g.1 ∧
    ∀ b ∈ g.2.branches, b.1 < p.branches.length

variable {s : Statistics} {t : Template} {ms : List (List Choice)} {text : String}

theorem Conserved.perm (h : s.Conserved t ms) {ms' : List (List Choice)} (hp : ms.Perm ms') :
    s.Conserved t ms' where
  total := h.total.trans hp.length_eq
  outer := h.outer
  inner := h.inner
  counted g a := (h.counted g a).trans (hp.countP_eq _)
  bounded := h.bounded

theorem Tells.count_of_mem (h : s.Tells ms) {g : Nat × GroupCounts} (hg : g ∈ s.groups)
    {b : Nat × Nat} (hb : b ∈ g.2.branches) : b.2 = ms.flatten.count ⟨g.1, b.1⟩ := by
  have hgroup : s.group? g.1 = some g.2 :=
    (Entries.lookup_eq_some_iff_mem (h.groups.imp Nat.ne_of_lt)).mpr hg
  have hbranch : g.2.branches.lookup b.1 = some b.2 :=
    (Entries.lookup_eq_some_iff_mem ((h.branches g hg).imp Nat.ne_of_lt)).mpr hb
  rw [← h.counts, count, hgroup]
  simp only [GroupCounts.count, hbranch, Option.getD_some]

theorem Tells.mem_of_group (h : s.Tells ms) {c : Choice} (hc : c ∈ ms.flatten) :
    ∃ counts, s.group? c.group = some counts ∧ c.branch ∈ counts.branches.map Prod.fst := by
  have hpos : 0 < s.count c.group c.branch := by
    rw [h.counts]
    exact List.count_pos_iff.mpr hc
  rw [count] at hpos
  split at hpos
  · next counts hgroup =>
    refine ⟨counts, hgroup, ?_⟩
    rw [GroupCounts.count] at hpos
    cases hl : counts.branches.lookup c.branch with
    | none => simp [hl] at hpos
    | some n =>
      obtain ⟨p, hp, hn⟩ := List.lookup_isSome_iff.mp (by rw [hl]; rfl)
      exact List.mem_map.mpr ⟨p, hp, (by simpa using hn : c.branch = p.1).symm⟩
  · cases hpos

theorem Tells.rendersOf (h : s.Tells ms) (g : Nat) : s.rendersOf g = visits ms.flatten g := by
  rw [Statistics.rendersOf]
  cases hg : s.group? g with
  | none =>
    refine (List.countP_eq_zero.mpr fun c hc => ?_).symm
    obtain ⟨counts, hgroup, -⟩ := h.mem_of_group hc
    rw [decide_eq_true_eq]
    rintro rfl
    rw [hg] at hgroup
    cases hgroup
  | some counts =>
    have hmem : (g, counts) ∈ s.groups :=
      (Entries.lookup_eq_some_iff_mem (h.groups.imp Nat.ne_of_lt)).mp hg
    -- the branches that are known are those among the choices, each of them once
    have hperm : (counts.branches.map fun b => Choice.mk g b.1).Perm
        (ms.flatten.dedup.filter (·.group = g)) := by
      refine (List.perm_ext_iff_of_nodup ?_ ((List.nodup_dedup _).filter _)).mpr fun c => ?_
      · have hnodup := (h.branches _ hmem).imp Nat.ne_of_lt
        rw [List.pairwise_map] at hnodup
        rw [List.Nodup, List.pairwise_map]
        exact hnodup.imp fun hne he => hne (congrArg Choice.branch he)
      · rw [List.mem_map, List.mem_filter, List.mem_dedup, decide_eq_true_eq]
        constructor
        · rintro ⟨b, hb, rfl⟩
          exact ⟨(h.shown _ hmem).2 b hb, rfl⟩
        · rintro ⟨hc, rfl⟩
          obtain ⟨counts', hgroup, hbranch⟩ := h.mem_of_group hc
          rw [hg] at hgroup
          cases hgroup
          obtain ⟨b, hb, he⟩ := List.mem_map.mp hbranch
          exact ⟨b, hb, by rw [he]⟩
    have hcounts : counts.branches.map Prod.snd =
        (counts.branches.map fun b => Choice.mk g b.1).map (ms.flatten.count ·) := by
      rw [List.map_map]
      exact List.map_congr_left fun b hb => h.count_of_mem hmem hb
    calc counts.renders = (counts.branches.map Prod.snd).sum := h.sums _ hmem
      _ = ((ms.flatten.dedup.filter (·.group = g)).map (ms.flatten.count ·)).sum := by
        rw [hcounts]
        exact (hperm.map _).sum_eq
      _ = visits ms.flatten g := List.sum_map_count_dedup_filter_eq_countP _ _

end Statistics

namespace Template

variable {t : Template} {ms : List (List Choice)} {cs : List Choice} {text : String}

theorem nodup_of_charted {first : Nat} {shapes : List Shape} (h : Charted first shapes cs) :
    cs.Nodup := by
  refine h.ascending.imp ?_
  rintro c _ hlt rfl
  exact absurd hlt (Nat.lt_irrefl _)

theorem flows_flatten (ht : parse text = .ok t) (hms : ∀ cs ∈ ms, t.Shows cs) :
    Flows t.preorder ms.flatten := by
  induction ms with
  | nil => exact fun _ _ _ _ _ _ _ => rfl
  | cons cs ms ih =>
    obtain ⟨hcs, hms⟩ := List.forall_mem_cons.mp hms
    exact (Node.flowOf t.nodes (numberedOf_of_parse ht) hcs.mem_routes).append (ih hms)

theorem visits_flatten (ht : parse text = .ok t) (hms : ∀ cs ∈ ms, t.Shows cs) {g : Group}
    (hg : g.node ∈ t.nodes) : visits ms.flatten g.index = ms.length := by
  induction ms with
  | nil => rfl
  | cons cs ms ih =>
    obtain ⟨hcs, hms⟩ := List.forall_mem_cons.mp hms
    rw [List.flatten_cons, visits_append, ih hms, List.length_cons, Nat.add_comm,
      Node.visits_eq_one (numberedOf_of_parse ht) hcs.mem_routes hg]

theorem count_flatten (ht : parse text = .ok t) (hms : ∀ cs ∈ ms, t.Shows cs) (c : Choice) :
    ms.flatten.count c = ms.countP (c ∈ ·) := by
  induction ms with
  | nil => rfl
  | cons cs ms ih =>
    obtain ⟨hcs, hms⟩ := List.forall_mem_cons.mp hms
    have hnodup := nodup_of_charted (charted_of_parse ht hcs.mem_routes)
    rw [List.flatten_cons, List.count_append, ih hms, List.countP_cons, hnodup.count,
      Nat.add_comm]
    simp only [decide_eq_true_eq]

theorem exists_group (ht : parse text = .ok t) (hms : ∀ cs ∈ ms, t.Shows cs) {c : Choice}
    (hc : c ∈ ms.flatten) :
    ∃ p, t.preorder[c.group]? = some p ∧ p.index = c.group ∧ c.branch < p.branches.length := by
  obtain ⟨cs, hcs, hc⟩ := List.mem_flatten.mp hc
  obtain ⟨i, shape, hi, hs, hb⟩ :=
    (charted_of_parse ht (hms cs hcs).mem_routes).located c hc
  rw [Nat.zero_add] at hi
  subst hi
  rw [shapes_eq_map, List.getElem?_map, Option.map_eq_some_iff] at hs
  obtain ⟨p, hp, rfl⟩ := hs
  exact ⟨p, hp, index_getElem ht hp, hb⟩

/-- Statistics of renderings of the template add up over its tree. -/
theorem conserved_of_tells (ht : parse text = .ok t) (hms : ∀ cs ∈ ms, t.Shows cs)
    {s : Statistics} (h : s.Tells ms) : s.Conserved t ms where
  total := h.renders
  outer g hg := by
    rw [h.rendersOf, visits_flatten ht hms hg, h.renders]
  inner p hp a b g hb hg := by
    rw [h.rendersOf, h.counts]
    exact flows_flatten ht hms p hp a b g hb hg
  counted g a := by
    rw [h.counts, count_flatten ht hms]
  bounded g hg := by
    obtain ⟨hne, hshown⟩ := h.shown g hg
    obtain ⟨b₀, hb₀⟩ := List.exists_mem_of_ne_nil _ hne
    obtain ⟨p, hp, hindex, -⟩ := exists_group ht hms (hshown b₀ hb₀)
    refine ⟨p, List.mem_of_getElem? hp, hindex, fun b hb => ?_⟩
    obtain ⟨p', hp', -, hlt⟩ := exists_group ht hms (hshown b hb)
    rw [hp] at hp'
    cases hp'
    exact hlt

end Template

end Spintax
