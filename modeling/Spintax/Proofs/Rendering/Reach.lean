import Spintax.Proofs.Rendering.Routes

namespace Spintax

/-- The choices are in the order of their groups. Each is a branch of a group, the groups
being numbered from `first` on. -/
structure Charted (first : Nat) (shapes : List Shape) (c : List Choice) : Prop where
  ascending : c.Pairwise (·.group < ·.group)
  located : ∀ d ∈ c, ∃ i shape, d.group = first + i ∧ shapes[i]? = some shape ∧
    d.branch < shape.branches

namespace Charted

variable {first i : Nat} {shape : Shape} {shapes shapes' : List Shape} {c c' : List Choice}

theorem nil : Charted first shapes [] :=
  ⟨List.Pairwise.nil, by simp⟩

theorem left (h : Charted first shapes c) : Charted first (shapes ++ shapes') c := by
  refine ⟨h.ascending, fun d hd => ?_⟩
  obtain ⟨i, shape, hi, hs, hb⟩ := h.located d hd
  have hlt := (List.getElem?_eq_some_iff.mp hs).1
  exact ⟨i, shape, hi, by rwa [List.getElem?_append_left hlt], hb⟩

theorem right (h : Charted (first + shapes.length) shapes' c) :
    Charted first (shapes ++ shapes') c := by
  refine ⟨h.ascending, fun d hd => ?_⟩
  obtain ⟨i, shape, hi, hs, hb⟩ := h.located d hd
  refine ⟨shapes.length + i, shape, by omega, ?_, hb⟩
  rwa [List.getElem?_append_right (by omega), Nat.add_sub_cancel_left]

theorem append (h : Charted first shapes c) (h' : Charted (first + shapes.length) shapes' c') :
    Charted first (shapes ++ shapes') (c ++ c') := by
  constructor
  · refine List.pairwise_append.mpr ⟨h.ascending, h'.ascending, fun d hd d' hd' => ?_⟩
    obtain ⟨i, _, hi, hs, -⟩ := h.located d hd
    obtain ⟨i', _, hi', -⟩ := h'.located d' hd'
    have hlt := (List.getElem?_eq_some_iff.mp hs).1
    omega
  · intro d hd
    obtain hd | hd := List.mem_append.mp hd
    · exact h.left.located d hd
    · exact h'.right.located d hd

theorem cons (h : Charted (first + 1) shapes c) (hi : i < shape.branches) :
    Charted first (shape :: shapes) (⟨first, i⟩ :: c) := by
  have hone : Charted first [shape] [⟨first, i⟩] := by
    refine ⟨List.pairwise_singleton _ _, fun d hd => ?_⟩
    cases List.mem_singleton.mp hd
    exact ⟨0, shape, rfl, rfl, hi⟩
  exact hone.append h

theorem tail {d : Choice} (h : Charted first shapes (d :: c)) : Charted first shapes c :=
  ⟨(List.pairwise_cons.mp h.ascending).2, fun d' hd' => h.located d' (List.mem_cons_of_mem d hd')⟩

theorem group_lt (h : Charted 0 shapes c) {d : Choice} (hd : d ∈ c) :
    d.group < shapes.length := by
  obtain ⟨i, shape, hi, hs, -⟩ := h.located d hd
  have hlt := (List.getElem?_eq_some_iff.mp hs).1
  omega

end Charted

mutual

theorem Node.charted {first : Nat} : ∀ (n : Node) {c : List Choice}, n.Numbered first →
    c ∈ n.routes → Charted first n.shapes c
  | .literal _, c, _, hc => by
    cases List.mem_singleton.mp hc
    exact .nil
  | .slot _, c, _, hc => by
    cases List.mem_singleton.mp hc
    exact .nil
  | .group index _ bs, c, ⟨hn, hbs⟩, hc => by
    subst hn
    obtain ⟨k, r, -, hk, rfl⟩ := Branch.head_of_mem_routesIn hc
    rw [Nat.zero_add] at hk
    exact (Branch.charted index 0 bs hbs hc).cons hk

theorem Node.chartedOf {first : Nat} : ∀ (ns : List Node) {c : List Choice},
    Node.NumberedOf first ns → c ∈ Node.routesOf ns → Charted first (Node.shapesOf ns) c
  | [], c, _, hc => by
    cases List.mem_singleton.mp hc
    exact .nil
  | n :: ns, c, ⟨hn, hns⟩, hc => by
    obtain ⟨c₁, hc₁, hc⟩ := List.mem_flatMap.mp hc
    obtain ⟨c₂, hc₂, rfl⟩ := List.mem_map.mp hc
    exact (Node.charted n hn hc₁).append (Node.chartedOf ns hns hc₂)

theorem Branch.charted {first k : Nat} (index i : Nat) : ∀ (bs : List (Branch Node))
    {c : List Choice}, Branch.NumberedIn first bs → ⟨index, k⟩ :: c ∈ Branch.routesIn index i bs →
      Charted first (Branch.shapesIn bs) c
  | [], c, _, hc => by cases hc
  | ⟨ns, _⟩ :: bs, c, ⟨hns, hbs⟩, hc => by
    obtain hc | hc := List.mem_append.mp hc
    · obtain ⟨r, hr, he⟩ := List.mem_map.mp hc
      cases he
      exact (Node.chartedOf ns hns hr).left
    · exact (Branch.charted index (i + 1) bs hbs hc).right

end

/-- The first branch everywhere but for these choices. -/
def Path.along (groups : Nat) (c : List Choice) : Path :=
  c.foldr (fun d p => p.set d.group d.branch) (List.replicate groups 0)

namespace Path

@[simp]
theorem length_along (groups : Nat) (c : List Choice) : (along groups c).length = groups := by
  induction c with
  | nil => simp [along]
  | cons d c ih => simpa [along] using ih

theorem follows_along {groups : Nat} {c : List Choice} (ha : c.Pairwise (·.group < ·.group))
    (hlt : ∀ d ∈ c, d.group < groups) : (along groups c).Follows c := by
  induction c with
  | nil => simp
  | cons d c ih =>
    obtain ⟨hd, ha⟩ := List.pairwise_cons.mp ha
    have hset : along groups (d :: c) = (along groups c).set d.group d.branch := rfl
    rw [follows_cons, hset]
    constructor
    · simp [List.getD_eq_getElem?_getD, hlt d (by simp)]
    · intro d' hd'
      have hne : d.group ≠ d'.group := (hd d' hd').ne
      have hf := ih ha (fun d' hd' => hlt d' (by simp [hd'])) d' hd'
      rwa [List.getD_eq_getElem?_getD, List.getElem?_set_ne hne,
        ← List.getD_eq_getElem?_getD]

end Path

namespace Template

variable {text : String} {t : Template} {policy : Policy} {vs : Variables} {p : Path}
  {c : List Choice}

theorem Admits.set (h : t.Admits p) {g i : Nat}
    (hi : ∀ hg : g < t.shapes.length, i < t.shapes[g].branches) : t.Admits (p.set g i) := by
  refine ⟨by rw [List.length_set, h.length], fun j hp hg => ?_⟩
  rw [List.getElem_set]
  split
  · next hj =>
    subst hj
    exact hi hg
  · exact h.branch j (by simpa using hp) hg

theorem admits_along (ht : parse text = .ok t) (hc : Charted 0 t.shapes c) :
    t.Admits (Path.along t.groupCount c) := by
  induction c with
  | nil =>
    refine ⟨by simp, fun i hp hg => ?_⟩
    have h2 := (shapes_sound_of_parse ht _ (List.getElem_mem hg)).branches
    simp only [Path.along, List.foldr_nil, List.getElem_replicate]
    omega
  | cons d c ih =>
    refine (ih hc.tail).set fun hg => ?_
    obtain ⟨i, shape, hi, hs, hb⟩ := hc.located d (by simp)
    obtain ⟨_, rfl⟩ := List.getElem?_eq_some_iff.mp hs
    simpa [hi] using hb

/-- The lists of choices that come with a rendering along one of the paths that the template
admits. -/
def reach (t : Template) (policy : Policy) (vs : Variables) : Set (List Choice) :=
  {c | ∃ p m, t.Admits p ∧ t.render policy p vs = .ok m ∧ m.choices = c}

theorem render_eq_ok {m : Rendered} (h : t.render policy p vs = .ok m) :
    p.length = t.groupCount ∧
      ∃ q, Render.nodes policy p vs t.nodes = .ok q ∧ m = ⟨q.text, p, q.choices⟩ := by
  unfold render at h
  split at h
  · next hp =>
    obtain ⟨q, hq, rfl⟩ := Result.map_eq_ok.mp h
    exact ⟨hp, q, hq, rfl⟩
  · cases h

theorem choices_of_render {m : Rendered} (h : t.render policy p vs = .ok m) :
    m.choices ∈ Node.routesOf t.nodes ∧ p.Follows m.choices := by
  obtain ⟨-, q, hq, rfl⟩ := render_eq_ok h
  exact Render.nodes_eq_ok t.nodes hq

theorem render_of_follows {m : Rendered} {p' : Path} (h : t.render policy p vs = .ok m)
    (hlen : p'.length = t.groupCount) (hf : p'.Follows m.choices) :
    t.render policy p' vs = .ok { m with path := p' } := by
  obtain ⟨-, q, hq, rfl⟩ := render_eq_ok h
  rw [render, if_pos hlen, Render.nodes_of_follows t.nodes hq hf]
  rfl

theorem charted_of_parse (ht : parse text = .ok t) (hc : c ∈ Node.routesOf t.nodes) :
    Charted 0 t.shapes c :=
  Node.chartedOf t.nodes (numberedOf_of_parse ht) hc

theorem charted_of_reach (ht : parse text = .ok t) (hc : c ∈ t.reach policy vs) :
    Charted 0 t.shapes c := by
  obtain ⟨p, m, -, hm, rfl⟩ := hc
  exact charted_of_parse ht (choices_of_render hm).1

theorem mem_reach_lenient (ht : parse text = .ok t) :
    c ∈ t.reach .lenient vs ↔ c ∈ Node.routesOf t.nodes := by
  constructor
  · rintro ⟨p, m, -, hm, rfl⟩
    exact (choices_of_render hm).1
  · intro hc
    have hch := charted_of_parse ht hc
    have hp := admits_along ht hch
    have hf := Path.follows_along hch.ascending fun d hd => hch.group_lt hd
    obtain ⟨m, hm⟩ | ⟨e, -, he, -⟩ := render_of_admits ht .lenient vs hp
    · obtain ⟨hmem, hfm⟩ := choices_of_render hm
      exact ⟨_, m, hp, hm, Node.eq_of_follows hmem hc hfm hf⟩
    · cases he

end Template

end Spintax
