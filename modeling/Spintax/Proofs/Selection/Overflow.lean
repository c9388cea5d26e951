import Spintax.Proofs.Selection.Refusals
import Spintax.Proofs.Selection.Words
import Spintax.Proofs.Template.Printing

namespace Spintax

theorem Branch.normalIn_iff_forall {depth : Nat} {bs : List (Branch Node)} :
    Branch.NormalIn depth bs ↔
      ∀ b ∈ bs, b.nodes ≠ [] ∧ Node.NormalOf depth b.nodes ∧ b.weight ≠ some 0 := by
  induction bs with
  | nil => simp [Branch.NormalIn]
  | cons b bs ih => simp [Branch.NormalIn, ih, and_assoc]

def Branch.ofWeights (weights : List (Option UInt32)) : List (Branch Node) :=
  weights.map fun w => ⟨[.literal "a"], w⟩

namespace Branch

variable (weights : List (Option UInt32))

theorem normalIn_ofWeights {depth : Nat} (h : some 0 ∉ weights) :
    Branch.NormalIn depth (ofWeights weights) := by
  rw [normalIn_iff_forall]
  intro b hb
  obtain ⟨w, hw, rfl⟩ := List.mem_map.mp hb
  refine ⟨List.cons_ne_nil _ _, by simp [Node.NormalOf, Node.Normal], ?_⟩
  rintro rfl
  exact h hw

theorem placeIn_ofWeights (offset groups : Nat) :
    Branch.placeIn offset groups (ofWeights weights) = ofWeights weights := by
  induction weights generalizing offset groups with
  | nil => rfl
  | cons w ws ih =>
    rw [ofWeights, List.map_cons, Branch.placeIn]
    exact congrArg _ (ih _ _)

theorem shapesIn_ofWeights : Branch.shapesIn (ofWeights weights) = [] := by
  induction weights with
  | nil => rfl
  | cons w ws ih => exact ih

end Branch

namespace Template

def ofWeights (weights : List (Option UInt32)) : Template :=
  ⟨[.group 0 0 (Branch.ofWeights weights)]⟩

variable {weights : List (Option UInt32)}

theorem parse_print_ofWeights (h2 : 2 ≤ weights.length) (h : some 0 ∉ weights) :
    parse (ofWeights weights).print = .ok (ofWeights weights) := by
  have hnormal : Node.NormalOf 0 (ofWeights weights).nodes := by
    refine ⟨⟨by decide, ?_, Branch.normalIn_ofWeights weights h⟩, by simp, trivial⟩
    rwa [Branch.ofWeights, List.length_map]
  have hplaced : (ofWeights weights).placed = ofWeights weights := by
    simp only [placed, ofWeights, Node.placeOf, Node.place, Branch.placeIn_ofWeights]
  rw [parse_print_of_normalOf hnormal, hplaced]

theorem shapes_ofWeights (weights : List (Option UInt32)) :
    (ofWeights weights).shapes = [.ofBranches (Branch.ofWeights weights)] := by
  simp [shapes, ofWeights, Node.shapesOf, Node.shapes, Branch.shapesIn_ofWeights]

end Template

/-- The largest weight that there is some times, and then some branches without a weight. -/
def Template.packed (heavy light : Nat) : Template :=
  .ofWeights (.replicate heavy (some 0xFFFFFFFF) ++ .replicate light none)

def Shape.packed (heavy light : Nat) : Shape :=
  ⟨heavy + light, some (.replicate heavy 0xFFFFFFFF ++ .replicate light 1)⟩

variable {heavy light : Nat}

theorem Template.parse_print_packed (h2 : 2 ≤ heavy + light) :
    parse (packed heavy light).print = .ok (packed heavy light) := by
  apply parse_print_ofWeights
  · simpa using h2
  · simp [List.mem_append, List.mem_replicate]

theorem Template.shapes_packed (h : 0 < heavy) :
    (packed heavy light).shapes = [.packed heavy light] := by
  have hany : (Branch.ofWeights (.replicate heavy (some 0xFFFFFFFF) ++
      .replicate light none)).any (·.weight.isSome) = true := by
    simp [Branch.ofWeights, Nat.pos_iff_ne_zero.mp h]
  rw [packed, shapes_ofWeights, Shape.ofBranches, if_pos hany]
  simp [Shape.packed, Branch.ofWeights, Branch.share]

theorem Shape.total_packed (heavy light : Nat) :
    (packed heavy light).total = heavy * (2 ^ 32 - 1) + light := by
  simp [packed, total]

theorem Draw.accepts_one (word : UInt64) : accepts 1 word := by
  have hnone : remainder 1 = 0 := by decide
  simp [accepts, hnone]

theorem Shape.bound_packed (h : (packed heavy light).total = UInt64.size + 1) :
    (packed heavy light).bound = 1 := by
  rw [← UInt64.toNat_inj, toNat_bound_eq_mod, h]
  rfl

theorem Shape.pick_packed (h : 0 < heavy) (hone : (packed heavy light).bound = 1)
    (word : UInt64) : (packed heavy light).pick word = 0 := by
  obtain ⟨n, rfl⟩ := Nat.exists_eq_add_of_lt h
  rw [pick_eq, hone, UInt64.mod_one]
  simp [branchAt, packed, List.replicate_succ, Draw.covering]

theorem Path.drawBranch_of_dvd {shape : Shape} (h : UInt64.size ∣ shape.total) (s : Supply) :
    drawBranch shape s = .error .noChoice := by
  have hbound : shape.bound = 0 := by
    rw [← UInt64.toNat_inj, Shape.toNat_bound_eq_mod, Nat.mod_eq_zero_of_dvd h]
    rfl
  rw [drawBranch_eq, hbound]
  rfl

theorem Template.select_eq_noChoice {t : Template} {shape : Shape} (ht : t.shapes = [shape])
    (h : UInt64.size ∣ shape.total) (s : Supply) : t.select s = .error .noChoice := by
  rw [select, ht, Path.draw, Path.drawBranch_of_dvd h]

theorem Template.select_eq_ranDry {t : Template} {shape : Shape} (ht : t.shapes = [shape])
    (hb : shape.bound ≠ 0) {s : Supply} (h : ∀ i, ¬ Draw.accepts shape.bound (s.word i)) :
    t.select s = .error .ranDry := by
  have hu := Draw.uniform_eq_ranDry hb h
  have hd : Path.drawBranch shape s = .error .ranDry := by
    simp only [Path.drawBranch_eq, hu]
    rfl
  rw [select, ht, Path.draw, hd]

end Spintax
