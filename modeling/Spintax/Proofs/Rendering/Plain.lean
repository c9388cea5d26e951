import Spintax.Proofs.Rendering.Slots

namespace Spintax

def Node.plain (vs : Variables) : Node → String
  | .literal text => text
  | .slot name => (vs.get? name).getD ""
  | .group .. => ""

/-- The values cover the template: there is one for each slot, or those that are missing do not
matter. -/
def Policy.Covers (policy : Policy) (t : Template) (vs : Variables) : Prop :=
  policy = .lenient ∨ ∀ name ∈ t.slotNames, vs.get? name ≠ none

instance (policy : Policy) (t : Template) (vs : Variables) : Decidable (policy.Covers t vs) :=
  inferInstanceAs (Decidable (_ ∨ _))

namespace Template

def plain (t : Template) (vs : Variables) : String :=
  String.join (t.nodes.map (Node.plain vs))

def firstLacking (t : Template) (vs : Variables) : String :=
  ((Node.slotsOf t.nodes).find? vs.lacks).getD ""

variable {t : Template} {policy : Policy} {vs vs' : Variables}

theorem nodes_plain {ns : List Node} (h : Node.shapesOf ns = []) (p : Path) (vs : Variables) :
    Render.nodes .lenient p vs ns = .ok ⟨String.join (ns.map (Node.plain vs)), []⟩ ∧
      Node.slotsAlongOf p ns = Node.slotsOf ns := by
  induction ns with
  | nil => exact ⟨rfl, rfl⟩
  | cons n ns ih =>
    obtain ⟨hn, hns⟩ := List.append_eq_nil_iff.mp h
    obtain ⟨hnodes, hslots⟩ := ih hns
    rw [Render.nodes_cons, hnodes, Node.slotsAlongOf, Node.slotsOf, hslots, List.map_cons,
      String.join_cons]
    cases n with
    | group => cases hn
    | literal text => exact ⟨rfl, rfl⟩
    | slot name =>
      refine ⟨?_, rfl⟩
      rw [Render.node, Policy.fill_lenient]
      rfl

theorem render_plain (h : t.groupCount = 0) (policy : Policy) (vs : Variables) :
    t.render policy [] vs = if policy.Covers t vs then .ok ⟨t.plain vs, [], []⟩
      else .error (.missingVariable (t.firstLacking vs)) := by
  obtain ⟨hnodes, hslots⟩ := nodes_plain (List.length_eq_zero_iff.mp h) [] vs
  rw [render, List.length_nil, if_pos h.symm]
  cases policy with
  | lenient =>
    rw [if_pos (.inl rfl), hnodes]
    rfl
  | strict =>
    rw [Render.nodes_strict t.nodes hnodes, Render.demand, hslots]
    have hcovers : Policy.strict.Covers t vs ↔ (Node.slotsOf t.nodes).find? vs.lacks = none := by
      simp [Policy.Covers, List.find?_eq_none, Variables.lacks, mem_slotNames]
    by_cases hc : Policy.strict.Covers t vs
    · rw [if_pos hc, hcovers.mp hc]
      rfl
    · rw [if_neg hc]
      obtain ⟨name, hname⟩ := Option.ne_none_iff_exists'.mp (mt hcovers.mpr hc)
      rw [firstLacking, hname]
      rfl

theorem renderRandom_plain (h : t.groupCount = 0) (policy : Policy) (vs : Variables) (s : Supply) :
    t.renderRandom policy vs s = .ok (t.render policy [] vs, s) := by
  rw [renderRandom, select, List.length_eq_zero_iff.mp h]
  rfl

theorem render_congr (h : t.groupCount = 0) (policy : Policy)
    (hvs : ∀ name, vs.get? name = vs'.get? name) :
    t.render policy [] vs = t.render policy [] vs' := by
  have hplain : Node.plain vs = Node.plain vs' := by
    funext n
    cases n <;> simp only [Node.plain, hvs]
  have hlacks : vs.lacks = vs'.lacks := by
    funext name
    rw [Variables.lacks, hvs, Variables.lacks]
  have hcovers : policy.Covers t vs ↔ policy.Covers t vs' := by
    simp only [Policy.Covers, hvs]
  rw [render_plain h, render_plain h, plain, plain, firstLacking, firstLacking, hplain, hlacks]
  simp only [hcovers]

end Template

end Spintax
