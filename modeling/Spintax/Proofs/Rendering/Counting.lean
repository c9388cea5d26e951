import Spintax.Proofs.Rendering.Reach
import Spintax.Template.Size

namespace Spintax

theorem Node.length_routesOf_cons (n : Node) (ns : List Node) :
    (Node.routesOf (n :: ns)).length = n.routes.length * (Node.routesOf ns).length := by
  simp [Node.routesOf, List.length_flatMap, List.map_const']

def Branch.ways (b : Branch Node) : Nat :=
  (Node.routesOf b.nodes).length

theorem Branch.length_routesIn (index i : Nat) (bs : List (Branch Node)) :
    (Branch.routesIn index i bs).length = (bs.map Branch.ways).sum := by
  induction bs generalizing i with
  | nil => rfl
  | cons b bs ih => simp [Branch.routesIn, Branch.ways, ih]

theorem Node.length_routes_group (index offset : Nat) (bs : List (Branch Node)) :
    (Node.group index offset bs).routes.length = (bs.map Branch.ways).sum :=
  Branch.length_routesIn index 0 bs

mutual

theorem Node.length_routes_pos {depth : Nat} :
    ∀ n : Node, n.Normal depth → 0 < n.routes.length
  | .literal _, _ => Nat.one_pos
  | .slot _, _ => Nat.one_pos
  | .group index offset bs, ⟨_, h2, hbs⟩ => by
    rw [Node.length_routes_group]
    refine Branch.sum_ways_pos bs ?_ hbs
    rintro rfl
    simp at h2

theorem Node.length_routesOf_pos {depth : Nat} :
    ∀ ns : List Node, Node.NormalOf depth ns → 0 < (Node.routesOf ns).length
  | [], _ => Nat.one_pos
  | n :: ns, ⟨hn, _, hns⟩ => by
    rw [Node.length_routesOf_cons]
    exact Nat.mul_pos (Node.length_routes_pos n hn) (Node.length_routesOf_pos ns hns)

theorem Branch.sum_ways_pos {depth : Nat} : ∀ bs : List (Branch Node), bs ≠ [] →
    Branch.NormalIn depth bs → 0 < (bs.map Branch.ways).sum
  | [], h, _ => absurd rfl h
  | ⟨ns, w⟩ :: bs, _, ⟨_, hns, _⟩ => by
    rw [List.map_cons, List.sum_cons]
    exact Nat.add_pos_left (Node.length_routesOf_pos ns hns) _

end

namespace Size

theorem add?_eq_some {m n k : Nat} :
    add? m n = some k ↔ k = m + n ∧ k < UInt64.size := by
  simp only [add?, Option.ite_none_right_eq_some, Option.some.injEq]
  grind

theorem mul?_eq_some {m n k : Nat} :
    mul? m n = some k ↔ k = m * n ∧ k < UInt64.size := by
  simp only [mul?, Option.ite_none_right_eq_some, Option.some.injEq]
  grind

theorem within_eq_some {n k : Nat} : within n = some k ↔ k = n ∧ k ≤ limit := by
  simp only [within, Option.ite_none_right_eq_some, Option.some.injEq]
  grind

theorem limit_lt : limit < UInt64.size := by
  decide

mutual

/-- A product that comes out is right, and it fits. -/
theorem timesNode_eq_some {total k : Nat} (ht : total < UInt64.size) : ∀ n : Node,
    timesNode total n = some k → k < UInt64.size ∧ k = total * n.routes.length
  | .literal _, h => by
    cases h
    simpa [Node.routes] using ht
  | .slot _, h => by
    cases h
    simpa [Node.routes] using ht
  | .group index _ bs, h => by
    simp only [timesNode, Option.bind_eq_bind, Option.bind_eq_some_iff] at h
    obtain ⟨product, ⟨options, hs, hm⟩, hw⟩ := h
    obtain ⟨-, rfl⟩ := plusBranches_eq_some (by decide) bs hs
    obtain ⟨rfl, hlt⟩ := mul?_eq_some.mp hm
    obtain ⟨rfl, -⟩ := within_eq_some.mp hw
    rw [Nat.zero_add, ← Node.length_routes_group] at hlt ⊢
    exact ⟨hlt, rfl⟩

theorem timesNodes_eq_some {total k : Nat} (ht : total < UInt64.size) : ∀ ns : List Node,
    timesNodes total ns = some k → k < UInt64.size ∧ k = total * (Node.routesOf ns).length
  | [], h => by
    cases h
    simpa [Node.routesOf] using ht
  | n :: ns, h => by
    rw [timesNodes, Option.bind_eq_some_iff] at h
    obtain ⟨product, hn, hns⟩ := h
    obtain ⟨hlt, rfl⟩ := timesNode_eq_some ht n hn
    rw [Node.length_routesOf_cons, ← Nat.mul_assoc]
    exact timesNodes_eq_some hlt ns hns

theorem plusBranches_eq_some {options k : Nat} (ho : options < UInt64.size) :
    ∀ bs : List (Branch Node), plusBranches options bs = some k →
      k < UInt64.size ∧ k = options + (bs.map Branch.ways).sum
  | [], h => by
    cases h
    exact ⟨ho, rfl⟩
  | ⟨ns, w⟩ :: bs, h => by
    simp only [plusBranches, Option.bind_eq_some_iff] at h
    obtain ⟨sum, ⟨ways, hns, ha⟩, hbs⟩ := h
    obtain ⟨-, rfl⟩ := timesNodes_eq_some (by decide) ns hns
    obtain ⟨rfl, hlt⟩ := add?_eq_some.mp ha
    rw [Nat.one_mul] at hbs hlt
    rw [List.map_cons, List.sum_cons, ← Nat.add_assoc]
    exact plusBranches_eq_some hlt bs hbs

end

mutual

/-- No product within the limit is given up, since no factor is zero. -/
theorem timesNode_of_le {depth total : Nat} (ht : 0 < total) : ∀ n : Node, n.Normal depth →
    total * n.routes.length ≤ limit → timesNode total n = some (total * n.routes.length)
  | .literal _, _, _ => by simp [timesNode, Node.routes]
  | .slot _, _, _ => by simp [timesNode, Node.routes]
  | .group index offset bs, ⟨_, _, hbs⟩, hle => by
    rw [Node.length_routes_group] at hle ⊢
    have hways : (bs.map Branch.ways).sum ≤ limit :=
      Nat.le_trans (Nat.le_mul_of_pos_left _ ht) hle
    have hsum := plusBranches_of_le bs hbs (by rwa [Nat.zero_add])
    rw [Nat.zero_add] at hsum
    simp only [timesNode, Option.bind_eq_bind, hsum, Option.bind_some]
    rw [mul?_eq_some.mpr ⟨rfl, Nat.lt_of_le_of_lt hle limit_lt⟩]
    exact within_eq_some.mpr ⟨rfl, hle⟩

theorem timesNodes_of_le {depth total : Nat} (ht : 0 < total) : ∀ ns : List Node,
    Node.NormalOf depth ns → total * (Node.routesOf ns).length ≤ limit →
      timesNodes total ns = some (total * (Node.routesOf ns).length)
  | [], _, _ => by simp [timesNodes, Node.routesOf]
  | n :: ns, ⟨hn, _, hns⟩, hle => by
    rw [Node.length_routesOf_cons, ← Nat.mul_assoc] at hle ⊢
    have hpos := Node.length_routesOf_pos ns hns
    have hfirst := timesNode_of_le ht n hn (Nat.le_trans (Nat.le_mul_of_pos_right _ hpos) hle)
    have hprod := Nat.mul_pos ht (Node.length_routes_pos n hn)
    rw [timesNodes, hfirst]
    exact timesNodes_of_le hprod ns hns hle

theorem plusBranches_of_le {depth options : Nat} : ∀ bs : List (Branch Node),
    Branch.NormalIn depth bs → options + (bs.map Branch.ways).sum ≤ limit →
      plusBranches options bs = some (options + (bs.map Branch.ways).sum)
  | [], _, _ => rfl
  | ⟨ns, w⟩ :: bs, ⟨_, hns, _, hbs⟩, hle => by
    rw [List.map_cons, List.sum_cons, ← Nat.add_assoc] at hle ⊢
    have hsum : options + (Node.routesOf ns).length ≤ limit :=
      Nat.le_trans (Nat.le_add_right _ _) hle
    have hways := timesNodes_of_le Nat.one_pos ns hns (by omega)
    rw [Nat.one_mul] at hways
    have hadd := add?_eq_some.mpr ⟨rfl, Nat.lt_of_le_of_lt hsum limit_lt⟩
    simp only [plusBranches, hways, Option.bind_some, hadd]
    exact plusBranches_of_le bs hbs hle

end

theorem ofCount?_timesNodes {ns : List Node} (h : Node.NormalOf 0 ns) :
    ofCount? (timesNodes 1 ns) = if (Node.routesOf ns).length ≤ limit
      then exact (Node.routesOf ns).length else unbounded := by
  split
  · next hle =>
    have hn := timesNodes_of_le Nat.one_pos ns h (by rwa [Nat.one_mul])
    rw [Nat.one_mul] at hn
    rw [hn, ofCount?, if_pos hle]
  · next hgt =>
    cases hk : timesNodes 1 ns with
    | none => rfl
    | some k =>
      obtain ⟨-, rfl⟩ := timesNodes_eq_some (by decide) ns hk
      rw [Nat.one_mul, ofCount?, if_neg hgt]

end Size

namespace Template

variable {text : String} {t : Template}

theorem reach_lenient_eq (ht : parse text = .ok t) (vs : Variables) :
    t.reach .lenient vs = ((Node.routesOf t.nodes).toFinset : Set (List Choice)) := by
  ext c
  rw [mem_reach_lenient ht, List.coe_toFinset]
  rfl

theorem ncard_reach_lenient (ht : parse text = .ok t) (vs : Variables) :
    (t.reach .lenient vs).ncard = (Node.routesOf t.nodes).length := by
  rw [reach_lenient_eq ht vs, Set.ncard_coe_finset,
    List.toFinset_card_of_nodup (Node.nodup_routesOf t.nodes)]

/-- The size counts renderings. Each product and each sum on the way is right and fits into
64 bits, unless the count is given up, and that only happens beyond the limit. -/
theorem size_eq_ncard_reach (ht : parse text = .ok t) (vs : Variables) :
    (t.reach .lenient vs).Finite ∧
    ((t.reach .lenient vs).ncard ≤ Size.limit →
      t.size = .exact (t.reach .lenient vs).ncard) ∧
    (t.size = .unbounded ↔ Size.limit < (t.reach .lenient vs).ncard) ∧
    (∀ total ns k, total < UInt64.size → Size.timesNodes total ns = some k →
      k < UInt64.size ∧ k = total * (Node.routesOf ns).length) ∧
    (∀ options bs k, options < UInt64.size → Size.plusBranches options bs = some k →
      k < UInt64.size ∧ k = options + (bs.map Branch.ways).sum) := by
  have hsize := Size.ofCount?_timesNodes (normalOf_of_parse ht)
  rw [← ncard_reach_lenient ht vs, ← size] at hsize
  refine ⟨?_, ?_, ?_, ?_, ?_⟩
  · rw [reach_lenient_eq ht vs]
    exact Finset.finite_toSet _
  · intro hle
    rw [hsize, if_pos hle]
  · rw [hsize]
    split <;> simp <;> omega
  · intro total ns k htotal
    exact Size.timesNodes_eq_some htotal ns
  · intro options bs k hoptions
    exact Size.plusBranches_eq_some hoptions bs

theorem ncard_reach_nested : ∃ t, parse "{a|{b|c}{d|e}} {f|{{x}}}" = .ok t ∧
    (t.reach .lenient .empty).ncard = 10 := by
  obtain ⟨t, ht, hsize⟩ : ∃ t, parse "{a|{b|c}{d|e}} {f|{{x}}}" = .ok t ∧
      t.size = .exact 10 := ⟨_, by cbv, by cbv⟩
  obtain ⟨-, hexact, hunbounded, -, -⟩ := size_eq_ncard_reach ht .empty
  have hle : (t.reach .lenient .empty).ncard ≤ Size.limit := by
    by_contra hlt
    rw [hunbounded.mpr (by omega)] at hsize
    cases hsize
  rw [hexact hle] at hsize
  exact ⟨t, ht, Size.exact.inj hsize⟩

end Template

end Spintax
