import Spintax.Proofs.Rendering.Reach
import Spintax.Proofs.Template.Preorder

namespace Spintax

namespace Group

def node (g : Group) : Node :=
  .group g.index g.offset g.branches

variable {g p : Group} {n : Node} {ns : List Node} {b : Branch Node} {bs : List (Branch Node)}
  {first : Nat}

theorem mem_preorderOf (h : g.node ∈ ns) : g ∈ Node.preorderOf ns := by
  induction ns with
  | nil => cases h
  | cons n ns ih =>
    rw [Node.preorderOf, List.mem_append]
    obtain h | h := List.mem_cons.mp h
    · subst h
      exact .inl List.mem_cons_self
    · exact .inr (ih h)

theorem mem_preorderIn (hb : b ∈ bs) (h : g.node ∈ b.nodes) : g ∈ Branch.preorderIn bs := by
  induction bs with
  | nil => cases hb
  | cons b' bs ih =>
    rw [Branch.preorderIn, List.mem_append]
    obtain rfl | hb := List.mem_cons.mp hb
    · exact .inl (mem_preorderOf h)
    · exact .inr (ih hb)

mutual

theorem inner_mem {g p : Group} {b : Branch Node} (hb : b ∈ p.branches) (hg : g.node ∈ b.nodes) :
    ∀ n : Node, p ∈ n.preorder → g ∈ n.preorder
  | .literal _, hp => by cases hp
  | .slot _, hp => by cases hp
  | .group _ _ bs, hp => by
    obtain rfl | hp := List.mem_cons.mp hp
    · exact List.mem_cons_of_mem _ (mem_preorderIn hb hg)
    · exact List.mem_cons_of_mem _ (inner_memIn hb hg bs hp)

theorem inner_memOf {g p : Group} {b : Branch Node} (hb : b ∈ p.branches)
    (hg : g.node ∈ b.nodes) : ∀ ns : List Node, p ∈ Node.preorderOf ns → g ∈ Node.preorderOf ns
  | [], hp => by cases hp
  | n :: ns, hp => by
    rw [Node.preorderOf, List.mem_append] at hp ⊢
    exact hp.imp (inner_mem hb hg n) (inner_memOf hb hg ns)

theorem inner_memIn {g p : Group} {b : Branch Node} (hb : b ∈ p.branches)
    (hg : g.node ∈ b.nodes) : ∀ bs : List (Branch Node), p ∈ Branch.preorderIn bs →
      g ∈ Branch.preorderIn bs
  | [], hp => by cases hp
  | ⟨ns, _⟩ :: bs, hp => by
    rw [Branch.preorderIn, List.mem_append] at hp ⊢
    exact hp.imp (inner_memOf hb hg ns) (inner_memIn hb hg bs)

end

theorem index_of_mem {gs : List Group} (h : gs.map index = List.range' first gs.length)
    (hg : g ∈ gs) : first ≤ g.index ∧ g.index < first + gs.length := by
  have hmem := List.mem_map_of_mem (f := index) hg
  rwa [h, List.mem_range'_1] at hmem

theorem index_mem (hn : n.Numbered first) (hg : g ∈ n.preorder) :
    first ≤ g.index ∧ g.index < first + n.shapes.length := by
  rw [shapes_eq, List.length_map]
  exact index_of_mem (map_index n hn) hg

theorem index_memOf (hns : Node.NumberedOf first ns) (hg : g ∈ Node.preorderOf ns) :
    first ≤ g.index ∧ g.index < first + (Node.shapesOf ns).length := by
  rw [shapesOf_eq, List.length_map]
  exact index_of_mem (map_indexOf ns hns) hg

theorem index_memIn (hbs : Branch.NumberedIn first bs) (hg : g ∈ Branch.preorderIn bs) :
    first ≤ g.index ∧ g.index < first + (Branch.shapesIn bs).length := by
  rw [shapesIn_eq, List.length_map]
  exact index_of_mem (map_indexIn bs hbs) hg

end Group

namespace Choice

def visits (cs : List Choice) (g : Nat) : Nat :=
  cs.countP (·.group = g)

variable {c : Choice} {cs ds : List Choice} {gs gs' : List Group} {g first : Nat}
  {shapes : List Shape}

theorem visits_append (cs ds : List Choice) (g : Nat) :
    visits (cs ++ ds) g = visits cs g + visits ds g :=
  List.countP_append

theorem visits_cons (c : Choice) (cs : List Choice) (g : Nat) :
    visits (c :: cs) g = visits cs g + if c.group = g then 1 else 0 := by
  simp [visits, List.countP_cons]

theorem visits_eq_zero (h : Charted first shapes cs)
    (hg : g < first ∨ first + shapes.length ≤ g) : visits cs g = 0 := by
  refine List.countP_eq_zero.mpr fun d hd => ?_
  obtain ⟨i, shape, hi, hs, -⟩ := h.located d hd
  have hlt := (List.getElem?_eq_some_iff.mp hs).1
  rw [decide_eq_true_eq]
  omega

theorem count_eq_zero (h : visits cs g = 0) (a : Nat) : cs.count ⟨g, a⟩ = 0 := by
  rw [List.count_eq_zero]
  intro hm
  exact List.countP_eq_zero.mp h _ hm (by simp)

/-- Of the groups that are listed, those in a branch of another one are visited as often as this
branch is shown. -/
def Flows (gs : List Group) (cs : List Choice) : Prop :=
  ∀ p ∈ gs, ∀ (a : Nat) (b : Branch Node) (g : Group), p.branches[a]? = some b →
    g.node ∈ b.nodes → visits cs g.index = cs.count ⟨p.index, a⟩

namespace Flows

theorem append (h : Flows gs cs) (h' : Flows gs ds) : Flows gs (cs ++ ds) := by
  intro p hp a b g hb hg
  rw [visits_append, List.count_append, h p hp a b g hb hg, h' p hp a b g hb hg]

theorem union (h : Flows gs cs) (h' : Flows gs' cs) : Flows (gs ++ gs') cs := by
  intro p hp
  exact (List.mem_append.mp hp).elim (h p) (h' p)

theorem elsewhere {low high : Nat} (h : Charted first shapes cs)
    (hin : ∀ p ∈ gs, ∀ b ∈ p.branches, ∀ g : Group, g.node ∈ b.nodes → g ∈ gs)
    (hgs : ∀ g ∈ gs, low ≤ g.index ∧ g.index < high)
    (hout : high ≤ first ∨ first + shapes.length ≤ low) : Flows gs cs := by
  have hzero : ∀ g ∈ gs, visits cs g.index = 0 := by
    intro g hg
    have hi := hgs g hg
    exact visits_eq_zero h (by omega)
  intro p hp a b g hb hg
  rw [hzero g (hin p hp b (List.mem_of_getElem? hb) g hg), count_eq_zero (hzero p hp)]

end Flows

end Choice

open Choice

section Elsewhere

variable {n : Node} {ns : List Node} {bs : List (Branch Node)} {c : List Choice}
  {first first' : Nat} {shapes : List Shape}

theorem Node.still (hn : n.Numbered first) (hc : Charted first' shapes c)
    (h : first + n.shapes.length ≤ first' ∨ first' + shapes.length ≤ first) :
    Flows n.preorder c :=
  .elsewhere hc (fun _ hp _ hb _ hg => Group.inner_mem hb hg n hp)
    (fun _ hg => Group.index_mem hn hg) h

theorem Node.stillOf (hns : Node.NumberedOf first ns) (hc : Charted first' shapes c)
    (h : first + (Node.shapesOf ns).length ≤ first' ∨ first' + shapes.length ≤ first) :
    Flows (Node.preorderOf ns) c :=
  .elsewhere hc (fun _ hp _ hb _ hg => Group.inner_memOf hb hg ns hp)
    (fun _ hg => Group.index_memOf hns hg) h

theorem Branch.stillIn (hbs : Branch.NumberedIn first bs) (hc : Charted first' shapes c)
    (h : first + (Branch.shapesIn bs).length ≤ first' ∨ first' + shapes.length ≤ first) :
    Flows (Branch.preorderIn bs) c :=
  .elsewhere hc (fun _ hp _ hb _ hg => Group.inner_memIn hb hg bs hp)
    (fun _ hg => Group.index_memIn hbs hg) h

end Elsewhere

theorem Node.visits_eq_one {first : Nat} {g : Group} {ns : List Node} {c : List Choice}
    (hns : Node.NumberedOf first ns) (hc : c ∈ Node.routesOf ns) (hg : g.node ∈ ns) :
    visits c g.index = 1 := by
  induction ns generalizing first c with
  | nil => cases hg
  | cons n ns ih =>
    obtain ⟨hn, hns⟩ := hns
    obtain ⟨c₁, hc₁, hc⟩ := List.mem_flatMap.mp hc
    obtain ⟨c₂, hc₂, rfl⟩ := List.mem_map.mp hc
    rw [visits_append]
    obtain hg | hg := List.mem_cons.mp hg
    · subst hg
      obtain ⟨index, offset, bs⟩ := g
      obtain ⟨rfl, hbs⟩ := hn
      obtain ⟨k, r, -, -, rfl⟩ := Branch.head_of_mem_routesIn hc₁
      have hr := visits_eq_zero (Branch.charted index 0 bs hbs hc₁) (.inl (Nat.lt_succ_self index))
      have hlt : index < index + (Group.node ⟨index, offset, bs⟩).shapes.length :=
        Nat.lt_add_of_pos_right (Nat.succ_pos _)
      have hc₂ := visits_eq_zero (Node.chartedOf ns hns hc₂) (.inl hlt)
      rw [visits_cons, if_pos rfl, hr, hc₂]
    · have hi := Group.index_memOf hns (Group.mem_preorderOf hg)
      rw [visits_eq_zero (Node.charted n hn hc₁) (.inr hi.1), Nat.zero_add, ih hns hc₂ hg]

theorem Branch.visits_eq {first index i k a : Nat} {g : Group} {b : Branch Node}
    {bs : List (Branch Node)} {r : List Choice} (hbs : Branch.NumberedIn first bs)
    (hr : ⟨index, k⟩ :: r ∈ Branch.routesIn index i bs) (hb : bs[a]? = some b)
    (hg : g.node ∈ b.nodes) : visits r g.index = if k = i + a then 1 else 0 := by
  induction bs generalizing first i a with
  | nil => cases hr
  | cons b' bs ih =>
    obtain ⟨ns, weight⟩ := b'
    obtain ⟨hns, hbs⟩ := hbs
    obtain hr | hr := List.mem_append.mp hr
    · obtain ⟨r', hr', he⟩ := List.mem_map.mp hr
      cases he
      cases a with
      | zero =>
        cases hb
        rw [if_pos (Nat.add_zero k).symm]
        exact Node.visits_eq_one hns hr' hg
      | succ a =>
        rw [List.getElem?_cons_succ] at hb
        have hi := Group.index_memIn hbs (Group.mem_preorderIn (List.mem_of_getElem? hb) hg)
        rw [visits_eq_zero (Node.chartedOf ns hns hr') (.inr hi.1), if_neg (by omega)]
    · cases a with
      | zero =>
        cases hb
        have hi := Group.index_memOf hns (Group.mem_preorderOf hg)
        obtain ⟨k', r', hk, -, he⟩ := Branch.head_of_mem_routesIn hr
        cases he
        rw [visits_eq_zero (Branch.charted index (i + 1) bs hbs hr) (.inl hi.2),
          if_neg (by omega)]
      | succ a =>
        rw [List.getElem?_cons_succ] at hb
        rw [ih hbs hr hb, Nat.add_right_comm, Nat.add_assoc]

mutual

theorem Node.flow {first : Nat} : ∀ (n : Node) {c : List Choice}, n.Numbered first →
    c ∈ n.routes → Flows n.preorder c
  | .literal _, _, _, _ => by simp [Flows, Node.preorder]
  | .slot _, _, _, _ => by simp [Flows, Node.preorder]
  | .group index offset bs, c, ⟨hn, hbs⟩, hc => by
    subst hn
    obtain ⟨k, r, -, -, rfl⟩ := Branch.head_of_mem_routesIn hc
    have hone : Charted index [Shape.mk (k + 1) none] [⟨index, k⟩] :=
      Charted.nil.cons (Nat.lt_succ_self k)
    change Flows ([⟨index, offset, bs⟩] ++ Branch.preorderIn bs) ([⟨index, k⟩] ++ r)
    refine Flows.union ?_ (Flows.append ?_ (Branch.flow index 0 bs hbs hc))
    · intro p hp a b g hb hg
      cases List.mem_singleton.mp hp
      have hi := Group.index_memIn hbs (Group.mem_preorderIn (List.mem_of_getElem? hb) hg)
      have hr := visits_eq_zero (Branch.charted index 0 bs hbs hc) (.inl (Nat.lt_succ_self index))
      rw [List.singleton_append, visits_cons, if_neg (by simp only; omega),
        Branch.visits_eq hbs hc hb hg, List.count_cons, count_eq_zero hr]
      simp
    · exact Branch.stillIn hbs hone (.inr (Nat.le_refl _))

theorem Node.flowOf {first : Nat} : ∀ (ns : List Node) {c : List Choice},
    Node.NumberedOf first ns → c ∈ Node.routesOf ns → Flows (Node.preorderOf ns) c
  | [], _, _, _ => by simp [Flows, Node.preorderOf]
  | n :: ns, c, ⟨hn, hns⟩, hc => by
    obtain ⟨c₁, hc₁, hc⟩ := List.mem_flatMap.mp hc
    obtain ⟨c₂, hc₂, rfl⟩ := List.mem_map.mp hc
    refine Flows.union (Flows.append ?_ ?_) (Flows.append ?_ ?_)
    · exact Node.flow n hn hc₁
    · exact Node.still hn (Node.chartedOf ns hns hc₂) (.inl (Nat.le_refl _))
    · exact Node.stillOf hns (Node.charted n hn hc₁) (.inr (Nat.le_refl _))
    · exact Node.flowOf ns hns hc₂

theorem Branch.flow {first k : Nat} (index i : Nat) : ∀ (bs : List (Branch Node))
    {r : List Choice}, Branch.NumberedIn first bs → ⟨index, k⟩ :: r ∈ Branch.routesIn index i bs →
      Flows (Branch.preorderIn bs) r
  | [], _, _, hr => by cases hr
  | ⟨ns, _⟩ :: bs, r, ⟨hns, hbs⟩, hr => by
    obtain hr | hr := List.mem_append.mp hr
    · obtain ⟨r', hr', he⟩ := List.mem_map.mp hr
      cases he
      refine Flows.union (Node.flowOf ns hns hr') ?_
      exact Branch.stillIn hbs (Node.chartedOf ns hns hr') (.inr (Nat.le_refl _))
    · have hc := Branch.charted index (i + 1) bs hbs hr
      exact Flows.union (Node.stillOf hns hc (.inl (Nat.le_refl _)))
        (Branch.flow index (i + 1) bs hbs hr)

end

namespace Template

/-- The choices come with a rendering of the template. -/
def Shows (t : Template) (cs : List Choice) : Prop :=
  ∃ policy p vs m, t.render policy p vs = .ok m ∧ m.choices = cs

theorem Shows.mem_routes {t : Template} {cs : List Choice} (h : t.Shows cs) :
    cs ∈ Node.routesOf t.nodes := by
  obtain ⟨policy, p, vs, m, hm, rfl⟩ := h
  exact (choices_of_render hm).1

end Template

end Spintax
