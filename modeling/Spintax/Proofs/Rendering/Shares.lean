import Spintax.Proofs.Rendering.Reach
import Spintax.Proofs.Selection.Segments

namespace Spintax

mutual

/-- The branches of the groups of a node, an outer group before inner ones. -/
def Node.groups : Node → List (List (Branch Node))
  | .literal _ => []
  | .slot _ => []
  | .group _ _ bs => bs :: Branch.groupsIn bs

def Node.groupsOf : List Node → List (List (Branch Node))
  | [] => []
  | n :: ns => n.groups ++ Node.groupsOf ns

def Branch.groupsIn : List (Branch Node) → List (List (Branch Node))
  | [] => []
  | ⟨ns, _⟩ :: bs => Node.groupsOf ns ++ Branch.groupsIn bs

end

mutual

theorem Node.shapes_eq_map : ∀ n : Node, n.shapes = n.groups.map Shape.ofBranches
  | .literal _ => rfl
  | .slot _ => rfl
  | .group _ _ bs => by
    rw [Node.shapes, Node.groups, List.map_cons, Branch.shapesIn_eq_map bs]

theorem Node.shapesOf_eq_map :
    ∀ ns : List Node, Node.shapesOf ns = (Node.groupsOf ns).map Shape.ofBranches
  | [] => rfl
  | n :: ns => by
    rw [Node.shapesOf, Node.groupsOf, List.map_append, Node.shapes_eq_map n,
      Node.shapesOf_eq_map ns]

theorem Branch.shapesIn_eq_map : ∀ bs : List (Branch Node),
    Branch.shapesIn bs = (Branch.groupsIn bs).map Shape.ofBranches
  | [] => rfl
  | ⟨ns, _⟩ :: bs => by
    rw [Branch.shapesIn, Branch.groupsIn, List.map_append, Node.shapesOf_eq_map ns,
      Branch.shapesIn_eq_map bs]

end

theorem Shape.shares_ofBranches (bs : List (Branch Node)) :
    (Shape.ofBranches bs).shares = bs.map (·.share.toNat) := by
  by_cases h : bs.any (·.weight.isSome)
  · simp [ofBranches, shares, h]
  · have hone : ∀ b ∈ bs, b.share.toNat = 1 := by
      intro b hb
      simp only [List.any_eq_true, not_exists, not_and, Bool.not_eq_true,
        Option.isSome_eq_false_iff, Option.isNone_iff_eq_none] at h
      simp [Branch.share, h b hb]
    simpa [ofBranches, shares, h] using (List.map_eq_replicate_iff.mpr hone).symm

theorem ncard_tuples {n : Nat} (A : Fin n → Set UInt64) :
    {ws : Fin n → UInt64 | ∀ g, ws g ∈ A g}.ncard = ∏ g, (A g).ncard := by
  have hpi : {ws : Fin n → UInt64 | ∀ g, ws g ∈ A g} = Set.univ.pi A := by
    ext ws
    simp
  rw [hpi, ← Nat.card_coe_set_eq, Nat.card_congr (Equiv.Set.univPi A), Nat.card_pi]
  rfl

namespace Template

variable {text : String} {t : Template} {policy : Policy} {vs : Variables} {c : List Choice}

/-- The weights of the branches of a group, 1 where none is written. -/
def shares (t : Template) (group : Nat) : List Nat :=
  ((Node.groupsOf t.nodes).getD group []).map (·.share.toNat)

def weight (t : Template) (d : Choice) : Nat :=
  (t.shares d.group).getD d.branch 0

def total (t : Template) (group : Nat) : Nat :=
  (t.shares group).sum

theorem shares_eq {g : Nat} (hg : g < t.shapes.length) : t.shares g = t.shapes[g].shares := by
  have hmap : t.shapes = (Node.groupsOf t.nodes).map Shape.ofBranches :=
    Node.shapesOf_eq_map t.nodes
  have hlen : g < (Node.groupsOf t.nodes).length := by
    rw [hmap, List.length_map] at hg
    exact hg
  simp only [hmap, List.getElem_map, Shape.shares_ofBranches, shares,
    List.getD_eq_getElem _ _ hlen]

/-- One word for each group, each of them accepted there. -/
def tuples (t : Template) : Set (Fin t.shapes.length → UInt64) :=
  {ws | ∀ g, Draw.accepts t.shapes[g].bound (ws g)}

/-- The tuples that lead to a rendering with these choices. -/
def yielding (t : Template) (policy : Policy) (vs : Variables) (c : List Choice) :
    Set (Fin t.shapes.length → UInt64) :=
  {ws ∈ t.tuples | ∃ m s', t.renderRandom policy vs (.ofArray (.ofFn ws)) = .ok (.ok m, s') ∧
    m.choices = c}

/-- The accepted words for a group that agree with the choice made there, if any. -/
def words (t : Template) (c : List Choice) (g : Fin t.shapes.length) : Set UInt64 :=
  {word | Draw.accepts t.shapes[g].bound word ∧
    ∀ d ∈ c, d.group = g → t.shapes[g].pick word = d.branch}

theorem select_of_tuples (hb : ∀ shape ∈ t.shapes, shape.bound ≠ 0)
    {ws : Fin t.shapes.length → UInt64} (h : ws ∈ t.tuples) :
    ∃ p s', t.select (.ofArray (.ofFn ws)) = .ok (p, s') ∧
      ∀ g : Fin t.shapes.length, p.getD g 0 = t.shapes[g].pick (ws g) := by
  let segments : Path.Segments t.shapes := fun g => .single (h g)
  have hwords : segments.words = List.ofFn ws :=
    calc segments.words
      _ = ((List.ofFn ws).map fun w => [w]).flatten := by rw [List.map_ofFn]; rfl
      _ = List.ofFn ws := List.flatMap_singleton' _
  have hbegins : (Supply.ofArray (.ofFn ws)).Begins segments.words := by
    rw [hwords, ← List.toArray_ofFn]
    exact Supply.begins_ofArray _
  refine ⟨segments.path, _, Path.takes_draw hb segments _ hbegins, fun g => ?_⟩
  rw [List.getD_eq_getElem?_getD, segments.getElem?_path]
  rfl

theorem yielding_eq (ht : parse text = .ok t) (hb : ∀ shape ∈ t.shapes, shape.bound ≠ 0)
    (hc : c ∈ t.reach policy vs) :
    t.yielding policy vs c = {ws | ∀ g, ws g ∈ t.words c g} := by
  have hcharted := charted_of_reach ht hc
  obtain ⟨p₀, m₀, -, hm₀, rfl⟩ := hc
  ext ws
  constructor
  · rintro ⟨hws, m, s', hm, hchoices⟩ g
    refine ⟨hws g, fun d hd hg => ?_⟩
    obtain ⟨p, s, hsel, hpick⟩ := select_of_tuples hb hws
    rw [renderRandom, hsel] at hm
    simp only [Except.map, Except.ok.injEq, Prod.mk.injEq] at hm
    have hf := (choices_of_render hm.1).2
    rw [hchoices] at hf
    rw [← hpick g, ← hg]
    exact hf d hd
  · intro hws
    have htuples : ws ∈ t.tuples := fun g => (hws g).1
    obtain ⟨p, s, hsel, hpick⟩ := select_of_tuples hb htuples
    have hf : p.Follows m₀.choices := by
      intro d hd
      have hg := hpick ⟨d.group, hcharted.group_lt hd⟩
      exact hg.trans ((hws _).2 d hd rfl)
    have hm := render_of_follows hm₀ (admits_of_select ht hsel).length hf
    refine ⟨htuples, { m₀ with path := p }, s, ?_, rfl⟩
    rw [renderRandom, hsel, ← hm]
    rfl

theorem words_of_forall_ne {g : Fin t.shapes.length} (h : ∀ d ∈ c, d.group ≠ g) :
    t.words c g = {word | Draw.accepts t.shapes[g].bound word} := by
  ext word
  refine ⟨And.left, fun ha => ⟨ha, fun d hd hg => absurd hg (h d hd)⟩⟩

theorem words_cons_of_ne {d : Choice} {g : Fin t.shapes.length} (h : d.group ≠ g) :
    t.words (d :: c) g = t.words c g := by
  ext word
  simp [words, h]

theorem words_cons_self {d : Choice} {g : Fin t.shapes.length} (hd : d.group = g)
    (h : ∀ d ∈ c, d.group ≠ g) : t.words (d :: c) g =
      {word | Draw.accepts t.shapes[g].bound word ∧ t.shapes[g].pick word = d.branch} := by
  ext word
  constructor
  · rintro ⟨ha, hc⟩
    exact ⟨ha, hc d (by simp) hd⟩
  · rintro ⟨ha, hp⟩
    refine ⟨ha, fun d' hd' hg => ?_⟩
    obtain rfl | hd' := List.mem_cons.mp hd'
    · exact hp
    · exact absurd hg (h d' hd')

/-- A choice takes its share of the words for its group, and it leaves those for the others
alone. -/
theorem prod_words_cons (hs : ∀ shape ∈ t.shapes, shape.Sound ∧ shape.total < UInt64.size)
    {d : Choice} (hc : Charted 0 t.shapes (d :: c)) :
    (∏ g, (t.words (d :: c) g).ncard) * t.total d.group =
      (∏ g, (t.words c g).ncard) * t.weight d := by
  obtain ⟨i, shape, hi, hshape, hbranch⟩ := hc.located d (by simp)
  obtain ⟨hg, rfl⟩ := List.getElem?_eq_some_iff.mp hshape
  rw [Nat.zero_add] at hi
  obtain ⟨hsound, hsmall⟩ := hs _ (List.getElem_mem hg)
  have htotal : t.total d.group = t.shapes[i].total := by
    rw [total, hi, shares_eq hg, Shape.sum_shares]
  have hlen : d.branch < t.shapes[i].shares.length := by
    rwa [Shape.length_shares hsound]
  have hweight : t.weight d = t.shapes[i].shares[d.branch] := by
    rw [weight, hi, shares_eq hg, List.getD_eq_getElem _ _ hlen]
  have hnone : ∀ d' ∈ c, d'.group ≠ i := by
    intro d' hd'
    rw [← hi]
    exact ((List.pairwise_cons.mp hc.ascending).1 d' hd').ne'
  have hothers : ∀ g ∈ ({⟨i, hg⟩}ᶜ : Finset (Fin t.shapes.length)),
      (t.words (d :: c) g).ncard = (t.words c g).ncard := by
    intro g hne
    rw [words_cons_of_ne]
    rintro hd
    exact Finset.mem_compl.mp hne (Finset.mem_singleton.mpr (Fin.ext (hd.symm.trans hi)))
  have hshare := Shape.ncard_pick hsound hsmall hlen
  rw [Fintype.prod_eq_mul_prod_compl ⟨i, hg⟩, Finset.prod_congr rfl hothers,
    Fintype.prod_eq_mul_prod_compl (⟨i, hg⟩ : Fin t.shapes.length) fun g => (t.words c g).ncard,
    words_cons_self hi hnone, words_of_forall_ne hnone, htotal, hweight, Nat.mul_right_comm,
    Fin.getElem_fin]
  rw [hshare, Nat.mul_right_comm]

theorem prod_words (hs : ∀ shape ∈ t.shapes, shape.Sound ∧ shape.total < UInt64.size)
    (hc : Charted 0 t.shapes c) :
    (∏ g, (t.words c g).ncard) * (c.map fun d => t.total d.group).prod =
      (∏ g, (t.words [] g).ncard) * (c.map t.weight).prod := by
  induction c with
  | nil => rfl
  | cons d c ih =>
    have hcons := prod_words_cons hs hc
    simp only [List.map_cons, List.prod_cons]
    calc
      _ = (∏ g, (t.words c g).ncard) * (c.map fun d => t.total d.group).prod * t.weight d := by
          rw [← Nat.mul_assoc, hcons, Nat.mul_right_comm]
      _ = (∏ g, (t.words [] g).ncard) * (t.weight d * (c.map t.weight).prod) := by
          rw [ih hc.tail, Nat.mul_assoc, Nat.mul_comm (t.weight d)]

theorem ncard_tuples_pos (hb : ∀ shape ∈ t.shapes, shape.bound ≠ 0) : 0 < t.tuples.ncard := by
  have hpi : t.tuples = {ws | ∀ g, ws g ∈ {word | Draw.accepts t.shapes[g].bound word}} := rfl
  rw [hpi, ncard_tuples]
  exact Finset.prod_pos fun g _ => Draw.ncard_accepts_pos (hb _ (List.getElem_mem g.isLt))

section

variable {heavy light : Nat} (h : 0 < heavy)

include h

theorem shares_packed : (packed heavy light).shares 0 = (Shape.packed heavy light).shares := by
  have hg : 0 < (packed heavy light).shapes.length := by
    rw [shapes_packed h]
    exact Nat.one_pos
  simp only [shares_eq hg, shapes_packed h, List.getElem_cons_zero]

theorem total_packed : (packed heavy light).total 0 = (Shape.packed heavy light).total := by
  rw [total, shares_packed h, Shape.sum_shares]

theorem weight_packed : (packed heavy light).weight ⟨0, 0⟩ = 2 ^ 32 - 1 := by
  rw [weight, shares_packed h]
  obtain ⟨n, rfl⟩ := Nat.exists_eq_add_of_lt h
  simp [Shape.packed, Shape.shares, List.replicate_succ]

theorem mem_reach_packed (h2 : 2 ≤ heavy + light) :
    [⟨0, 0⟩] ∈ (packed heavy light).reach .lenient vs := by
  rw [mem_reach_lenient (parse_print_packed h2)]
  obtain ⟨n, rfl⟩ := Nat.exists_eq_add_of_lt h
  simp [packed, ofWeights, Branch.ofWeights, List.replicate_succ, Node.routesOf, Node.routes,
    Branch.routesIn]

variable (hone : (Shape.packed heavy light).bound = 1)

include hone

theorem bound_ne_zero_packed : ∀ shape ∈ (packed heavy light).shapes, shape.bound ≠ 0 := by
  rw [shapes_packed h, List.forall_mem_singleton, hone]
  decide

theorem yielding_packed (h2 : 2 ≤ heavy + light) :
    (packed heavy light).yielding .lenient vs [⟨0, 0⟩] = (packed heavy light).tuples := by
  have hpick : ∀ shape ∈ (packed heavy light).shapes, ∀ word, shape.pick word = 0 := by
    rw [shapes_packed h, List.forall_mem_singleton]
    exact Shape.pick_packed h hone
  rw [yielding_eq (parse_print_packed h2) (bound_ne_zero_packed h hone) (mem_reach_packed h h2)]
  ext ws
  refine ⟨fun hws g => (hws g).1, fun hws g => ⟨hws g, fun d hd _ => ?_⟩⟩
  cases List.mem_singleton.mp hd
  exact hpick _ (List.getElem_mem g.isLt) _

end

/-- Every list of choices has its share of the tuples, and the groups that it does not meet make
no difference. Weights are added in 64 bits, so that the sums must have a place there. -/
theorem ncard_yielding (ht : parse text = .ok t)
    (h64 : ∀ shape ∈ t.shapes, shape.total < UInt64.size) (policy : Policy) (vs : Variables) :
    0 < t.tuples.ncard ∧ ∀ c ∈ t.reach policy vs,
      (t.yielding policy vs c).ncard * (c.map fun d => t.total d.group).prod =
        t.tuples.ncard * (c.map t.weight).prod := by
  have hs : ∀ shape ∈ t.shapes, shape.Sound ∧ shape.total < UInt64.size :=
    fun shape hm => ⟨shapes_sound_of_parse ht shape hm, h64 shape hm⟩
  have hb : ∀ shape ∈ t.shapes, shape.bound ≠ 0 :=
    fun shape hm => Shape.bound_ne_zero (hs shape hm).1 (hs shape hm).2
  refine ⟨ncard_tuples_pos hb, fun c hc => ?_⟩
  have htuples : t.tuples = {ws | ∀ g, ws g ∈ t.words [] g} := by
    ext ws
    simp [tuples, words]
  rw [yielding_eq ht hb hc, htuples, ncard_tuples, ncard_tuples]
  exact prod_words hs (charted_of_reach ht hc)

theorem ncard_yielding_nested : ∃ t, parse "{a^2|{b|c}} {{x}}" = .ok t ∧
    (∀ shape ∈ t.shapes, shape.total < UInt64.size) ∧
    (t.yielding .lenient .empty [⟨0, 1⟩, ⟨1, 0⟩]).ncard * 6 = t.tuples.ncard := by
  obtain ⟨t, ht, hroutes, htotal, hweight⟩ : ∃ t, parse "{a^2|{b|c}} {{x}}" = .ok t ∧
      Node.routesOf t.nodes = [[⟨0, 0⟩], [⟨0, 1⟩, ⟨1, 0⟩], [⟨0, 1⟩, ⟨1, 1⟩]] ∧
      [t.total 0, t.total 1] = [3, 2] ∧ [t.weight ⟨0, 1⟩, t.weight ⟨1, 0⟩] = [1, 1] :=
    ⟨_, by cbv, by cbv, by cbv, by cbv⟩
  have h64 := total_lt_of_length ht (by decide)
  obtain ⟨-, hshare⟩ := ncard_yielding ht h64 .lenient .empty
  have hc := hshare [⟨0, 1⟩, ⟨1, 0⟩] ((mem_reach_lenient ht).mpr (by simp [hroutes]))
  simp only [List.cons.injEq, and_true] at htotal hweight
  simp only [List.map_cons, List.map_nil, htotal, hweight] at hc
  exact ⟨t, ht, h64, by simpa using hc⟩

/-- With weights of `2 ^ 64 + 1` in all, every word leads to the first branch. -/
theorem ncard_yielding_packed :
    let t := packed (2 ^ 32 + 1) 2
    parse t.print = .ok t ∧ [⟨0, 0⟩] ∈ t.reach .lenient .empty ∧
      (t.yielding .lenient .empty [⟨0, 0⟩]).ncard * t.total 0 ≠
        t.tuples.ncard * t.weight ⟨0, 0⟩ := by
  intro t
  have hsum : (Shape.packed (2 ^ 32 + 1) 2).total = UInt64.size + 1 := Shape.total_packed _ _
  have hone := Shape.bound_packed hsum
  have htotal : t.total 0 = UInt64.size + 1 := (total_packed (by omega)).trans hsum
  have hweight : t.weight ⟨0, 0⟩ = 2 ^ 32 - 1 := weight_packed (by omega)
  have hyielding : t.yielding .lenient .empty [⟨0, 0⟩] = t.tuples :=
    yielding_packed (by omega) hone (by omega)
  have hpos : 0 < t.tuples.ncard := ncard_tuples_pos (bound_ne_zero_packed (by omega) hone)
  refine ⟨parse_print_packed (by omega), mem_reach_packed (by omega) (by omega), ?_⟩
  rw [hyielding, htotal, hweight]
  intro he
  exact absurd (Nat.eq_of_mul_eq_mul_left hpos he) (by decide)

end Template

end Spintax
