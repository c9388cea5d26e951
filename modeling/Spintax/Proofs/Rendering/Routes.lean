import Spintax.Proofs.Selection.Fitting

namespace Spintax

mutual

def Node.routes : Node → List (List Choice)
  | .literal _ => [[]]
  | .slot _ => [[]]
  | .group index _ bs => Branch.routesIn index 0 bs

def Node.routesOf : List Node → List (List Choice)
  | [] => [[]]
  | n :: ns => n.routes.flatMap fun c => (Node.routesOf ns).map (c ++ ·)

def Branch.routesIn (index i : Nat) : List (Branch Node) → List (List Choice)
  | [] => []
  | ⟨ns, _⟩ :: bs => (Node.routesOf ns).map (⟨index, i⟩ :: ·) ++ Branch.routesIn index (i + 1) bs

end

namespace Path

/-- The path takes these choices, whatever it has for other groups. -/
def Follows (p : Path) (c : List Choice) : Prop :=
  ∀ d ∈ c, p.getD d.group 0 = d.branch

variable {p : Path} {c c' : List Choice} {d : Choice}

@[simp]
theorem follows_nil : p.Follows [] := by
  simp [Follows]

@[simp]
theorem follows_cons : p.Follows (d :: c) ↔ p.getD d.group 0 = d.branch ∧ p.Follows c := by
  simp [Follows]

@[simp]
theorem follows_append : p.Follows (c ++ c') ↔ p.Follows c ∧ p.Follows c' := by
  simp [Follows, or_imp, forall_and]

end Path

namespace Render

variable {policy : Policy} {path path' : Path} {vs : Variables} {q : Passage}

theorem nodes_cons_eq_ok {n : Node} {ns : List Node}
    (h : nodes policy path vs (n :: ns) = .ok q) :
    ∃ q₁ q₂, node policy path vs n = .ok q₁ ∧ nodes policy path vs ns = .ok q₂ ∧
      q = q₁ ++ q₂ := by
  rw [nodes_cons] at h
  obtain ⟨q₁, h₁, h⟩ := Result.bind_eq_ok.mp h
  obtain ⟨q₂, h₂, rfl⟩ := Result.map_eq_ok.mp h
  exact ⟨q₁, q₂, h₁, h₂, rfl⟩

mutual

theorem node_eq_ok : ∀ (n : Node) {q : Passage}, node policy path vs n = .ok q →
    q.choices ∈ n.routes ∧ path.Follows q.choices
  | .literal _, q, h => by
    cases h
    simp [Node.routes, Passage.ofText]
  | .slot _, q, h => by
    obtain ⟨text, -, rfl⟩ := Result.map_eq_ok.mp h
    simp [Node.routes, Passage.ofText]
  | .group index _ bs, q, h => by
    obtain ⟨q, hq, rfl⟩ := Result.map_eq_ok.mp h
    obtain ⟨hm, hf⟩ := branch_eq_ok index 0 bs hq
    rw [Nat.zero_add] at hm
    exact ⟨hm, Path.follows_cons.mpr ⟨rfl, hf⟩⟩

theorem nodes_eq_ok : ∀ (ns : List Node) {q : Passage}, nodes policy path vs ns = .ok q →
    q.choices ∈ Node.routesOf ns ∧ path.Follows q.choices
  | [], q, h => by
    cases h
    simp [Node.routesOf, Passage.ofText]
  | n :: ns, q, h => by
    obtain ⟨q₁, q₂, h₁, h₂, rfl⟩ := nodes_cons_eq_ok h
    obtain ⟨hm₁, hf₁⟩ := node_eq_ok n h₁
    obtain ⟨hm₂, hf₂⟩ := nodes_eq_ok ns h₂
    refine ⟨?_, Path.follows_append.mpr ⟨hf₁, hf₂⟩⟩
    exact List.mem_flatMap.mpr ⟨_, hm₁, List.mem_map_of_mem hm₂⟩

theorem branch_eq_ok {absent : RenderError} {i : Nat} (index k : Nat) :
    ∀ (bs : List (Branch Node)) {q : Passage}, branch policy path vs absent i bs = .ok q →
      ⟨index, k + i⟩ :: q.choices ∈ Branch.routesIn index k bs ∧ path.Follows q.choices
  | [], q, h => by cases h
  | ⟨ns, _⟩ :: bs, q, h => by
    rw [Branch.routesIn, List.mem_append]
    cases i with
    | zero =>
      obtain ⟨hm, hf⟩ := nodes_eq_ok ns h
      exact ⟨.inl (List.mem_map_of_mem hm), hf⟩
    | succ i =>
      obtain ⟨hm, hf⟩ := branch_eq_ok index (k + 1) bs h
      rw [Nat.add_right_comm, Nat.add_assoc] at hm
      exact ⟨.inr hm, hf⟩

end

mutual

/-- Only the choices that were met count: another path with the same ones gives the same. -/
theorem node_of_follows : ∀ (n : Node) {q : Passage}, node policy path vs n = .ok q →
    path'.Follows q.choices → node policy path' vs n = .ok q
  | .literal _, q, h, _ => h
  | .slot _, q, h, _ => h
  | .group index _ bs, q, h, hf => by
    obtain ⟨q, hq, rfl⟩ := Result.map_eq_ok.mp h
    obtain ⟨hi, hf⟩ := Path.follows_cons.mp hf
    have hb := branch_of_follows bs hq hf
    rw [node]
    simp only at hi
    rw [hi, hb]
    rfl

theorem nodes_of_follows : ∀ (ns : List Node) {q : Passage},
    nodes policy path vs ns = .ok q → path'.Follows q.choices →
      nodes policy path' vs ns = .ok q
  | [], q, h, _ => h
  | n :: ns, q, h, hf => by
    obtain ⟨q₁, q₂, h₁, h₂, rfl⟩ := nodes_cons_eq_ok h
    obtain ⟨hf₁, hf₂⟩ := Path.follows_append.mp hf
    rw [nodes_cons, node_of_follows n h₁ hf₁, nodes_of_follows ns h₂ hf₂]
    rfl

theorem branch_of_follows {absent : RenderError} {i : Nat} : ∀ (bs : List (Branch Node))
    {q : Passage}, branch policy path vs absent i bs = .ok q → path'.Follows q.choices →
      branch policy path' vs absent i bs = .ok q
  | [], q, h, _ => by cases h
  | ⟨ns, _⟩ :: bs, q, h, hf => by
    cases i with
    | zero => exact nodes_of_follows ns h hf
    | succ i => exact branch_of_follows bs h hf

end

end Render

/-- The two lists agree up to a group for which they have different branches. -/
def Parted (c c' : List Choice) : Prop :=
  ∃ l g a a' r r', c = l ++ ⟨g, a⟩ :: r ∧ c' = l ++ ⟨g, a'⟩ :: r' ∧ a ≠ a'

namespace Parted

variable {c c' d d' : List Choice}

theorem append_left (h : Parted c c') : Parted (d ++ c) (d ++ c') := by
  obtain ⟨l, g, a, a', r, r', rfl, rfl, ha⟩ := h
  exact ⟨d ++ l, g, a, a', r, r', by simp, by simp, ha⟩

theorem append_right (h : Parted c c') : Parted (c ++ d) (c' ++ d') := by
  obtain ⟨l, g, a, a', r, r', rfl, rfl, ha⟩ := h
  exact ⟨l, g, a, a', r ++ d, r' ++ d', by simp, by simp, ha⟩

theorem ne (h : Parted c c') : c ≠ c' := by
  obtain ⟨l, g, a, a', r, r', rfl, rfl, ha⟩ := h
  simp [ha]

instance : Std.Symm Parted where
  symm := by
    rintro c c' ⟨l, g, a, a', r, r', hc, hc', ha⟩
    exact ⟨l, g, a', a, r', r, hc', hc, ha.symm⟩

theorem not_follows {p : Path} (h : Parted c c') (hc : p.Follows c) : ¬ p.Follows c' := by
  intro hc'
  obtain ⟨l, g, a, a', r, r', rfl, rfl, ha⟩ := h
  simp only [Path.follows_append, Path.follows_cons] at hc hc'
  exact ha (hc.2.1.symm.trans hc'.2.1)

end Parted

theorem Branch.head_of_mem_routesIn {index i : Nat} {bs : List (Branch Node)}
    {c : List Choice} (h : c ∈ Branch.routesIn index i bs) :
    ∃ k r, i ≤ k ∧ k < i + bs.length ∧ c = ⟨index, k⟩ :: r := by
  induction bs generalizing i with
  | nil => cases h
  | cons b bs ih =>
    obtain h | h := List.mem_append.mp h
    · obtain ⟨r, -, rfl⟩ := List.mem_map.mp h
      exact ⟨i, r, Nat.le_refl i, by simp, rfl⟩
    · obtain ⟨k, r, hle, hlt, rfl⟩ := ih h
      exact ⟨k, r, by omega, by simp only [List.length_cons]; omega, rfl⟩

mutual

theorem Node.pairwise_routes : ∀ n : Node, n.routes.Pairwise Parted
  | .literal _ => List.pairwise_singleton _ _
  | .slot _ => List.pairwise_singleton _ _
  | .group index _ bs => Branch.pairwise_routesIn index 0 bs

theorem Node.pairwise_routesOf : ∀ ns : List Node, (Node.routesOf ns).Pairwise Parted
  | [] => List.pairwise_singleton _ _
  | n :: ns => by
    rw [Node.routesOf, List.pairwise_flatMap]
    -- lists that only differ could become equal when others follow them; parted ones cannot
    constructor
    · intro c _
      rw [List.pairwise_map]
      exact (Node.pairwise_routesOf ns).imp Parted.append_left
    · refine (Node.pairwise_routes n).imp fun {c c'} hp d hd d' hd' => ?_
      obtain ⟨r, -, rfl⟩ := List.mem_map.mp hd
      obtain ⟨r', -, rfl⟩ := List.mem_map.mp hd'
      exact hp.append_right

theorem Branch.pairwise_routesIn (index i : Nat) :
    ∀ bs : List (Branch Node), (Branch.routesIn index i bs).Pairwise Parted
  | [] => List.Pairwise.nil
  | ⟨ns, _⟩ :: bs => by
    rw [Branch.routesIn, List.pairwise_append]
    refine ⟨?_, Branch.pairwise_routesIn index (i + 1) bs, fun c hc c' hc' => ?_⟩
    · rw [List.pairwise_map]
      exact (Node.pairwise_routesOf ns).imp (Parted.append_left (d := [⟨index, i⟩]))
    · obtain ⟨r, -, rfl⟩ := List.mem_map.mp hc
      obtain ⟨k, r', hk, -, rfl⟩ := Branch.head_of_mem_routesIn hc'
      exact ⟨[], index, i, k, r, r', rfl, rfl, by omega⟩

end

theorem Node.nodup_routesOf (ns : List Node) : (Node.routesOf ns).Nodup :=
  (Node.pairwise_routesOf ns).imp Parted.ne

theorem Node.eq_of_follows {ns : List Node} {c c' : List Choice} {p : Path}
    (hc : c ∈ Node.routesOf ns) (hc' : c' ∈ Node.routesOf ns) (hp : p.Follows c)
    (hp' : p.Follows c') : c = c' := by
  by_contra hne
  exact ((Node.pairwise_routesOf ns).forall hc hc' hne).not_follows hp hp'

end Spintax
