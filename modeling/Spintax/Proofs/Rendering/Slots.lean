import Mathlib.Data.String.Basic
import Spintax.Proofs.Rendering.Counting
import Spintax.Template.Report

namespace Spintax

mutual

def Node.slotsAlong (p : Path) : Node → List String
  | .literal _ => []
  | .slot name => [name]
  | .group index _ bs => Branch.slotsAt p (p.getD index 0) bs

def Node.slotsAlongOf (p : Path) : List Node → List String
  | [] => []
  | n :: ns => n.slotsAlong p ++ Node.slotsAlongOf p ns

def Branch.slotsAt (p : Path) (i : Nat) : List (Branch Node) → List String
  | [] => []
  | ⟨ns, _⟩ :: bs =>
    match i with
    | 0 => Node.slotsAlongOf p ns
    | i + 1 => Branch.slotsAt p i bs

end

namespace Variables

def lacks (vs : Variables) (name : String) : Bool :=
  (vs.get? name).isNone

def complete (vs : Variables) (names : List String) : Variables :=
  names.foldl (fun vs name => if vs.lacks name then vs.insert name "" else vs) vs

variable {vs : Variables} {name : String}

theorem lacks_iff : vs.lacks name = true ↔ vs.get? name = none := by
  simp [lacks]

theorem get?_insert (vs : Variables) (name value other : String) :
    (vs.insert name value).get? other = if other = name then some value else vs.get? other :=
  Entries.lookup_set name other value vs.entries

theorem get?_complete (vs : Variables) (names : List String) (name : String) :
    (vs.complete names).get? name =
      if name ∈ names then some ((vs.get? name).getD "") else vs.get? name := by
  induction names generalizing vs with
  | nil => simp [complete]
  | cons other names ih =>
    have hcons : vs.complete (other :: names) =
        (if vs.lacks other then vs.insert other "" else vs).complete names := rfl
    rw [hcons, ih]
    by_cases hname : name = other
    · subst hname
      by_cases hv : vs.lacks name = true
      · rw [if_pos hv, get?_insert, lacks_iff.mp hv]
        simp
      · obtain ⟨value, hvalue⟩ := Option.ne_none_iff_exists'.mp (mt lacks_iff.mpr hv)
        simp [hv, hvalue]
    · have hother : (if vs.lacks other then vs.insert other "" else vs).get? name =
          vs.get? name := by
        split
        · rw [get?_insert, if_neg hname]
        · rfl
      simp [hother, hname]

end Variables

namespace Policy

theorem fill_lenient (vs : Variables) (name : String) :
    lenient.fill vs name = .ok ((vs.get? name).getD "") := by
  unfold fill
  cases vs.get? name <;> rfl

theorem fill_strict (vs : Variables) (name : String) :
    strict.fill vs name = if vs.lacks name then .error (.missingVariable name)
      else lenient.fill vs name := by
  unfold fill Variables.lacks
  cases vs.get? name <;> rfl

end Policy

namespace Render

variable {path : Path} {vs vs' : Variables} {q q' : Passage} {names names' : List String}

/-- The passage, if no slot among these is without a value; otherwise the first of those that
are. -/
def demand (vs : Variables) (names : List String) (q : Passage) : Except RenderError Passage :=
  match names.find? vs.lacks with
  | some name => .error (.missingVariable name)
  | none => .ok q

theorem demand_append (vs : Variables) (names names' : List String) (q q' : Passage) :
    (demand vs names q >>= fun q => (demand vs names' q').map (q ++ ·)) =
      demand vs (names ++ names') (q ++ q') := by
  unfold demand
  rw [List.find?_append]
  cases names.find? vs.lacks with
  | some name => rfl
  | none =>
    rw [Option.none_or]
    cases names'.find? vs.lacks <;> rfl

theorem demand_map (vs : Variables) (names : List String) (q : Passage) (f : Passage → Passage) :
    (demand vs names q).map f = demand vs names (f q) := by
  unfold demand
  cases names.find? vs.lacks <;> rfl

mutual

/-- A strict rendering needs a value for each slot on its way, and apart from that it is the
lenient one. -/
theorem node_strict : ∀ (n : Node) {q : Passage}, node .lenient path vs n = .ok q →
    node .strict path vs n = demand vs (n.slotsAlong path) q
  | .literal _, q, h => h
  | .slot name, q, h => by
    rw [node] at h
    rw [node, Policy.fill_strict, demand, Node.slotsAlong, List.find?_cons]
    cases vs.lacks name with
    | true => rfl
    | false => exact h
  | .group index _ bs, q, h => by
    obtain ⟨q, hq, rfl⟩ := Result.map_eq_ok.mp h
    rw [node, branch_strict bs hq, demand_map]
    rfl

theorem nodes_strict : ∀ (ns : List Node) {q : Passage}, nodes .lenient path vs ns = .ok q →
    nodes .strict path vs ns = demand vs (Node.slotsAlongOf path ns) q
  | [], q, h => h
  | n :: ns, q, h => by
    obtain ⟨q₁, q₂, h₁, h₂, rfl⟩ := nodes_cons_eq_ok h
    rw [nodes_cons, node_strict n h₁, nodes_strict ns h₂]
    exact demand_append vs _ _ q₁ q₂

theorem branch_strict {absent : RenderError} {i : Nat} : ∀ (bs : List (Branch Node))
    {q : Passage}, branch .lenient path vs absent i bs = .ok q →
      branch .strict path vs absent i bs = demand vs (Branch.slotsAt path i bs) q
  | [], q, h => by cases h
  | ⟨ns, _⟩ :: bs, q, h => by
    cases i with
    | zero => exact nodes_strict ns h
    | succ i => exact branch_strict bs h

end

/-- The values are the same, but where there is none there is the empty one. -/
def Completes (vs vs' : Variables) (names : List String) : Prop :=
  ∀ name ∈ names, vs'.get? name = some ((vs.get? name).getD "")

theorem Completes.mono (h : Completes vs vs' names) (hsub : names' ⊆ names) :
    Completes vs vs' names' :=
  fun name hn => h name (hsub hn)

mutual

theorem node_of_completes : ∀ n : Node, Completes vs vs' n.slots →
    node .strict path vs' n = node .lenient path vs n
  | .literal _, _ => rfl
  | .slot name, h => by
    have hv := h name (by simp [Node.slots])
    rw [node, node, Policy.fill_strict, Policy.fill_lenient, Policy.fill_lenient, Variables.lacks,
      hv]
    rfl
  | .group _ _ bs, h => by
    rw [node, node, branch_of_completes bs h]

theorem nodes_of_completes : ∀ ns : List Node, Completes vs vs' (Node.slotsOf ns) →
    nodes .strict path vs' ns = nodes .lenient path vs ns
  | [], _ => rfl
  | n :: ns, h => by
    rw [nodes_cons, nodes_cons, node_of_completes n (h.mono (List.subset_append_left _ _)),
      nodes_of_completes ns (h.mono (List.subset_append_right _ _))]

theorem branch_of_completes {absent : RenderError} {i : Nat} : ∀ bs : List (Branch Node),
    Completes vs vs' (Branch.slotsIn bs) →
      branch .strict path vs' absent i bs = branch .lenient path vs absent i bs
  | [], _ => rfl
  | ⟨ns, _⟩ :: bs, h => by
    cases i with
    | zero => exact nodes_of_completes ns (h.mono (List.subset_append_left _ _))
    | succ i => exact branch_of_completes bs (h.mono (List.subset_append_right _ _))

end

end Render

mutual

theorem Node.slotsAlong_subset (p : Path) : ∀ n : Node, n.slotsAlong p ⊆ n.slots
  | .literal _ => List.Subset.refl _
  | .slot _ => List.Subset.refl _
  | .group index _ bs => Branch.slotsAt_subset p (p.getD index 0) bs

theorem Node.slotsAlongOf_subset (p : Path) : ∀ ns : List Node,
    Node.slotsAlongOf p ns ⊆ Node.slotsOf ns
  | [] => List.Subset.refl _
  | n :: ns =>
    List.append_subset.mpr
      ⟨List.Subset.trans (Node.slotsAlong_subset p n) (List.subset_append_left _ _),
        List.Subset.trans (Node.slotsAlongOf_subset p ns) (List.subset_append_right _ _)⟩

theorem Branch.slotsAt_subset (p : Path) (i : Nat) : ∀ bs : List (Branch Node),
    Branch.slotsAt p i bs ⊆ Branch.slotsIn bs
  | [] => List.Subset.refl _
  | ⟨ns, _⟩ :: bs => by
    cases i with
    | zero => exact List.Subset.trans (Node.slotsAlongOf_subset p ns) (List.subset_append_left _ _)
    | succ i =>
      exact List.Subset.trans (Branch.slotsAt_subset p i bs) (List.subset_append_right _ _)

end

mutual

/-- To each slot there is a route on which it is met. -/
theorem Node.exists_route {name : String} {depth : Nat} : ∀ n : Node, n.Normal depth →
    name ∈ n.slots → ∃ c ∈ n.routes, ∀ p : Path, p.Follows c → name ∈ n.slotsAlong p
  | .literal _, _, h => by cases h
  | .slot _, _, h => ⟨[], by simp [Node.routes], fun _ _ => h⟩
  | .group index _ bs, ⟨_, _, hbs⟩, h => by
    obtain ⟨k, c, hc, hmeet⟩ := Branch.exists_route index 0 bs hbs h
    rw [Nat.zero_add] at hc
    refine ⟨⟨index, k⟩ :: c, hc, fun p hp => ?_⟩
    obtain ⟨hk, hp⟩ := Path.follows_cons.mp hp
    rw [Node.slotsAlong, hk]
    exact hmeet p hp

theorem Node.exists_routeOf {name : String} {depth : Nat} : ∀ ns : List Node,
    Node.NormalOf depth ns → name ∈ Node.slotsOf ns →
      ∃ c ∈ Node.routesOf ns, ∀ p : Path, p.Follows c → name ∈ Node.slotsAlongOf p ns
  | [], _, h => by cases h
  | n :: ns, ⟨hn, _, hns⟩, h => by
    obtain h | h := List.mem_append.mp h
    · obtain ⟨c, hc, hmeet⟩ := Node.exists_route n hn h
      obtain ⟨d, hd⟩ := List.exists_mem_of_length_pos (Node.length_routesOf_pos ns hns)
      refine ⟨c ++ d, List.mem_flatMap.mpr ⟨c, hc, List.mem_map_of_mem hd⟩, fun p hp => ?_⟩
      exact List.mem_append_left _ (hmeet p (Path.follows_append.mp hp).1)
    · obtain ⟨c, hc⟩ := List.exists_mem_of_length_pos (Node.length_routes_pos n hn)
      obtain ⟨d, hd, hmeet⟩ := Node.exists_routeOf ns hns h
      refine ⟨c ++ d, List.mem_flatMap.mpr ⟨c, hc, List.mem_map_of_mem hd⟩, fun p hp => ?_⟩
      exact List.mem_append_right _ (hmeet p (Path.follows_append.mp hp).2)

theorem Branch.exists_route {name : String} {depth : Nat} (index i : Nat) :
    ∀ bs : List (Branch Node), Branch.NormalIn depth bs → name ∈ Branch.slotsIn bs →
      ∃ k c, ⟨index, i + k⟩ :: c ∈ Branch.routesIn index i bs ∧
        ∀ p : Path, p.Follows c → name ∈ Branch.slotsAt p k bs
  | [], _, h => by cases h
  | ⟨ns, _⟩ :: bs, ⟨_, hns, _, hbs⟩, h => by
    obtain h | h := List.mem_append.mp h
    · obtain ⟨c, hc, hmeet⟩ := Node.exists_routeOf ns hns h
      exact ⟨0, c, List.mem_append_left _ (List.mem_map_of_mem hc), hmeet⟩
    · obtain ⟨k, c, hc, hmeet⟩ := Branch.exists_route index (i + 1) bs hbs h
      rw [Nat.add_right_comm, Nat.add_assoc] at hc
      exact ⟨k + 1, c, List.mem_append_right _ hc, hmeet⟩

end

theorem ascending_insertName {name : String} {names : List String}
    (h : names.Pairwise (· < ·)) : (insertName name names).Pairwise (· < ·) := by
  induction names with
  | nil => exact List.pairwise_singleton _ _
  | cons other names ih =>
    obtain ⟨hother, hnames⟩ := List.pairwise_cons.mp h
    rw [insertName]
    split
    · exact h
    · next hne =>
      split
      · next hlt =>
        refine List.pairwise_cons.mpr ⟨fun n hn => ?_, h⟩
        obtain rfl | hn := List.mem_cons.mp hn
        · exact hlt
        · exact lt_trans hlt (hother n hn)
      · next hlt =>
        refine List.pairwise_cons.mpr ⟨fun n hn => ?_, ih hnames⟩
        obtain rfl | hn := mem_insertName.mp hn
        · exact lt_of_le_of_ne (not_lt.mp hlt) (Ne.symm hne)
        · exact hother n hn

namespace Template

variable {text : String} {t : Template} {vs : Variables} {p : Path}

def slotsAlong (t : Template) (p : Path) : List String :=
  Node.slotsAlongOf p t.nodes

theorem ascending_slotNames (t : Template) : t.slotNames.Pairwise (· < ·) := by
  unfold slotNames
  induction Node.slotsOf t.nodes with
  | nil => exact List.Pairwise.nil
  | cons name names ih => exact ascending_insertName ih

theorem mem_slotNames_iff (ht : parse text = .ok t) {name : String} :
    name ∈ t.slotNames ↔ ∃ p, t.Admits p ∧ name ∈ t.slotsAlong p := by
  rw [mem_slotNames]
  constructor
  · intro h
    obtain ⟨c, hc, hmeet⟩ := Node.exists_routeOf t.nodes (normalOf_of_parse ht) h
    have hch := charted_of_parse ht hc
    exact ⟨_, admits_along ht hch,
      hmeet _ (Path.follows_along hch.ascending fun d hd => hch.group_lt hd)⟩
  · rintro ⟨p, -, h⟩
    exact Node.slotsAlongOf_subset p t.nodes h

theorem render_strict (ht : parse text = .ok t) (vs : Variables) (hp : t.Admits p) :
    ∃ m, t.render .lenient p vs = .ok m ∧
      t.render .strict p vs = match (t.slotsAlong p).find? vs.lacks with
        | some name => .error (.missingVariable name)
        | none => .ok m := by
  obtain ⟨m, hm⟩ | ⟨e, -, he, -⟩ := render_of_admits ht .lenient vs hp
  · obtain ⟨-, q, hq, rfl⟩ := render_eq_ok hm
    refine ⟨_, hm, ?_⟩
    rw [render, if_pos hp.length, Render.nodes_strict t.nodes hq, Render.demand, slotsAlong]
    cases (Node.slotsAlongOf p t.nodes).find? vs.lacks <;> rfl
  · cases he

theorem render_strict_fails (ht : parse text = .ok t) (vs : Variables) (hp : t.Admits p) :
    (∃ e, t.render .strict p vs = .error e) ↔ ∃ name ∈ t.slotsAlong p, vs.get? name = none := by
  obtain ⟨m, -, hs⟩ := render_strict ht vs hp
  rw [hs]
  cases hf : (t.slotsAlong p).find? vs.lacks with
  | none =>
    have hnone := List.find?_eq_none.mp hf
    constructor
    · rintro ⟨e, he⟩
      cases he
    · rintro ⟨name, hn, hv⟩
      exact absurd (Variables.lacks_iff.mpr hv) (hnone name hn)
  | some name =>
    have hv := Variables.lacks_iff.mp (List.find?_some hf)
    exact ⟨fun _ => ⟨name, List.mem_of_find?_eq_some hf, hv⟩, fun _ => ⟨_, rfl⟩⟩

theorem render_strict_first (ht : parse text = .ok t) (hp : t.Admits p) {before after : List String}
    {name : String} (hsplit : t.slotsAlong p = before ++ name :: after)
    (hbefore : ∀ other ∈ before, vs.get? other ≠ none) (hv : vs.get? name = none) :
    t.render .strict p vs = .error (.missingVariable name) := by
  obtain ⟨m, -, hs⟩ := render_strict ht vs hp
  have hskip : before.find? vs.lacks = none :=
    List.find?_eq_none.mpr fun other ho hl => hbefore other ho (Variables.lacks_iff.mp hl)
  have hfind : (t.slotsAlong p).find? vs.lacks = some name := by
    rw [hsplit, List.find?_append, hskip, Option.none_or, List.find?_cons,
      Variables.lacks_iff.mpr hv]
  rw [hs, hfind]

theorem render_lenient_of_strict (ht : parse text = .ok t) (hp : t.Admits p) {m : Rendered}
    (hm : t.render .strict p vs = .ok m) : t.render .lenient p vs = .ok m := by
  obtain ⟨m', hm', hs⟩ := render_strict ht vs hp
  rw [hs] at hm
  split at hm
  · cases hm
  · cases hm
    exact hm'

theorem forall_render_strict_iff (ht : parse text = .ok t) (vs : Variables) :
    (∀ p, t.Admits p → ∃ m, t.render .strict p vs = .ok m) ↔
      ∀ name ∈ t.slotNames, vs.get? name ≠ none := by
  constructor
  · intro hall name hn hv
    obtain ⟨p, hp, hmeet⟩ := (mem_slotNames_iff ht).mp hn
    obtain ⟨m, hm⟩ := hall p hp
    obtain ⟨e, he⟩ := (render_strict_fails ht vs hp).mpr ⟨name, hmeet, hv⟩
    rw [hm] at he
    cases he
  · intro hall p hp
    cases hr : t.render .strict p vs with
    | ok m => exact ⟨m, rfl⟩
    | error e =>
      obtain ⟨name, hmeet, hv⟩ := (render_strict_fails ht vs hp).mp ⟨e, hr⟩
      exact absurd hv (hall name ((mem_slotNames_iff ht).mpr ⟨p, hp, hmeet⟩))

theorem render_complete (vs : Variables) (p : Path) :
    t.render .strict p (vs.complete t.slotNames) = t.render .lenient p vs := by
  have hcompletes : Render.Completes vs (vs.complete t.slotNames) (Node.slotsOf t.nodes) := by
    intro name hn
    rw [Variables.get?_complete, if_pos (mem_slotNames.mpr hn)]
  rw [render, render, Render.nodes_of_completes t.nodes hcompletes]

/-- The names that are reported of a text are those for which its renderings need values. The
values are any. -/
theorem slots_needed (ht : parse text = .ok t) (vs : Variables) :
    let names := (Report.ofText text).slotNames
    names.Pairwise (· < ·) ∧ (∀ name, name ∈ names ↔ ∃ p, t.Admits p ∧ name ∈ t.slotsAlong p) ∧
    (∀ p, t.Admits p →
      (∃ m, t.render .lenient p vs = .ok m) ∧
      t.render .strict p (vs.complete names) = t.render .lenient p vs ∧
      ((∃ e, t.render .strict p vs = .error e) ↔
        ∃ name ∈ t.slotsAlong p, vs.get? name = none) ∧
      (∀ before name after, t.slotsAlong p = before ++ name :: after →
        (∀ other ∈ before, vs.get? other ≠ none) → vs.get? name = none →
          t.render .strict p vs = .error (.missingVariable name)) ∧
      ∀ m, t.render .strict p vs = .ok m → t.render .lenient p vs = .ok m) ∧
    ((∀ p, t.Admits p → ∃ m, t.render .strict p vs = .ok m) ↔
      ∀ name ∈ names, vs.get? name ≠ none) := by
  intro names
  have hnames : names = t.slotNames := by
    simp only [names, Report.ofText, ht]
  clear_value names
  subst hnames
  refine ⟨ascending_slotNames t, fun name => mem_slotNames_iff ht, fun p hp => ?_,
    forall_render_strict_iff ht vs⟩
  obtain ⟨m, hm, -⟩ := render_strict ht vs hp
  exact ⟨⟨m, hm⟩, render_complete vs p, render_strict_fails ht vs hp,
    fun _ _ _ => render_strict_first ht hp, fun _ => render_lenient_of_strict ht hp⟩

theorem slots_needed_nested : ∃ t, parse "{{{x}}|{b|{{y}}}} {{x}}" = .ok t ∧
    (Report.ofText "{{{x}}|{b|{{y}}}} {{x}}").slotNames = ["x", "y"] ∧ t.Admits [1, 1] ∧
    t.slotsAlong [1, 1] = ["y", "x"] ∧
    t.render .strict [1, 1] (.ofList [("x", "1")]) = .error (.missingVariable "y") ∧
    t.render .strict [1, 1] ((Variables.ofList [("x", "1")]).complete ["x", "y"]) =
      t.render .lenient [1, 1] (.ofList [("x", "1")]) := by
  obtain ⟨t, ht, hnames, hshapes, hmeet⟩ : ∃ t, parse "{{{x}}|{b|{{y}}}} {{x}}" = .ok t ∧
      (Report.ofText "{{{x}}|{b|{{y}}}} {{x}}").slotNames = ["x", "y"] ∧
      t.shapes = [⟨2, none⟩, ⟨2, none⟩] ∧ t.slotsAlong [1, 1] = ["y", "x"] :=
    ⟨_, by cbv, by cbv, by cbv, by cbv⟩
  have hp : t.Admits [1, 1] := by
    refine ⟨by rw [groupCount, hshapes]; rfl, fun i hi hg => ?_⟩
    simp only [hshapes]
    rcases i with _ | _ | i
    · simp
    · simp
    · exact absurd hi (by simp)
  obtain ⟨-, -, hpath, -⟩ := slots_needed ht (.ofList [("x", "1")])
  obtain ⟨-, hcomplete, -, hfirst, -⟩ := hpath [1, 1] hp
  rw [hnames] at hcomplete
  exact ⟨t, ht, hnames, hp, hmeet, hfirst [] "y" ["x"] hmeet (by simp) (by decide), hcomplete⟩

end Template

end Spintax
