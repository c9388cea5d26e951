import Spintax.Proofs.Selection.Drawing
import Spintax.Proofs.Template.NormalForm

namespace Spintax

open Grammar

theorem Branch.share_pos {b : Branch Node} (h : b.weight ≠ some 0) : 0 < b.share.toNat := by
  unfold share
  cases hw : b.weight with
  | none => decide
  | some n =>
    have hn : n ≠ 0 := by
      rintro rfl
      exact h hw
    rw [Option.getD_some]
    exact UInt32.lt_iff_toNat_lt.mp (UInt32.pos_iff_ne_zero.mpr hn)

theorem Branch.share_pos_of_normalIn {depth : Nat} {bs : List (Branch Node)}
    (h : Branch.NormalIn depth bs) : ∀ b ∈ bs, 0 < b.share.toNat := by
  induction bs with
  | nil => simp
  | cons b bs ih =>
    obtain ⟨-, -, hw, hbs⟩ := h
    intro c hc
    obtain rfl | hc := List.mem_cons.mp hc
    · exact share_pos hw
    · exact ih hbs c hc

theorem Shape.sound_ofBranches {depth : Nat} {bs : List (Branch Node)} (h2 : 2 ≤ bs.length)
    (h : Branch.NormalIn depth bs) : (Shape.ofBranches bs).Sound where
  branches := h2
  length := by
    intro weights hw
    simp only [ofBranches, Option.ite_none_right_eq_some, Option.some.injEq] at hw ⊢
    simp [← hw.2]
  pos := by
    intro weights hw w hm
    simp only [ofBranches, Option.ite_none_right_eq_some, Option.some.injEq] at hw
    rw [← hw.2] at hm
    obtain ⟨b, hb, rfl⟩ := List.mem_map.mp hm
    exact Branch.share_pos_of_normalIn h b hb

mutual

theorem Node.shapes_sound {depth : Nat} :
    ∀ n : Node, n.Normal depth → ∀ shape ∈ n.shapes, shape.Sound
  | .literal _, _, shape, hm => by simp [Node.shapes] at hm
  | .slot _, _, shape, hm => by simp [Node.shapes] at hm
  | .group _ _ bs, ⟨_, h2, hbs⟩, shape, hm => by
    obtain rfl | hm := List.mem_cons.mp hm
    · exact Shape.sound_ofBranches h2 hbs
    · exact Branch.shapesIn_sound bs hbs shape hm

theorem Node.shapesOf_sound {depth : Nat} :
    ∀ ns : List Node, Node.NormalOf depth ns → ∀ shape ∈ Node.shapesOf ns, shape.Sound
  | [], _, shape, hm => by simp [Node.shapesOf] at hm
  | n :: ns, ⟨hn, _, hns⟩, shape, hm =>
    (List.mem_append.mp hm).elim (Node.shapes_sound n hn shape)
      (Node.shapesOf_sound ns hns shape)

theorem Branch.shapesIn_sound {depth : Nat} :
    ∀ bs : List (Branch Node), Branch.NormalIn depth bs →
      ∀ shape ∈ Branch.shapesIn bs, shape.Sound
  | [], _, shape, hm => by simp [Branch.shapesIn] at hm
  | ⟨ns, _⟩ :: bs, ⟨_, hns, _, hbs⟩, shape, hm =>
    (List.mem_append.mp hm).elim (Node.shapesOf_sound ns hns shape)
      (Branch.shapesIn_sound bs hbs shape)

end

namespace Grammar

theorem Letter.length_pos {inside : Bool} {w rest : List Char} {c : Char}
    (h : Letter inside w c rest) : 0 < w.length := by
  cases h <;> simp

theorem Ending.length_pos {stop : Char} {weight : Option UInt32} {w : List Char}
    (h : Ending stop weight w) : 0 < w.length := by
  cases h <;> simp

mutual

/-- Each branch takes two characters, one for a node and one for its end. -/
theorem Sequence.room {depth : Nat} {x y : Cursor} {ns : List Node} :
    Sequence depth x ns y → y.rest.length ≤ x.rest.length ∧
      (ns ≠ [] → y.rest.length < x.rest.length) ∧
      ∀ shape ∈ Node.shapesOf ns, 2 * shape.branches ≤ x.rest.length
  | .nil => ⟨Nat.le_refl _, absurd rfl, by simp [Node.shapesOf]⟩
  | .letter hc hs => by
    obtain ⟨hle, -, hroom⟩ := hs.room
    have hpos := hc.length_pos
    simp only [List.length_append, shapesOf_addLetter] at hle hroom ⊢
    refine ⟨by omega, fun _ => by omega, fun shape hm => ?_⟩
    have := hroom shape hm
    omega
  | .slot hn hs => by
    obtain ⟨hle, -, hroom⟩ := hs.room
    simp only [List.length_append, braced, List.length_cons] at hle hroom ⊢
    refine ⟨by omega, fun _ => by omega, fun shape hm => ?_⟩
    have := hroom shape hm
    omega
  | .group hd hb h2 hs => by
    obtain ⟨hle, -, hroom⟩ := hs.room
    obtain ⟨hbs, hin⟩ := hb.room
    simp only [List.length_cons] at hle hroom hbs hin ⊢
    refine ⟨by omega, fun _ => by omega, fun shape hm => ?_⟩
    obtain hm | hm := List.mem_append.mp hm
    · obtain rfl | hm := List.mem_cons.mp hm
      · simp only [Shape.ofBranches]
        omega
      · have := hin shape hm
        omega
    · have := hroom shape hm
      omega

theorem Branches.room {depth : Nat} {x y : Cursor} {bs : List (Branch Node)} :
    Branches depth x bs y → y.rest.length + 2 * bs.length ≤ x.rest.length ∧
      ∀ shape ∈ Branch.shapesIn bs, 2 * shape.branches ≤ x.rest.length
  | .last hs hne he => by
    obtain ⟨-, hlt, hroom⟩ := hs.room
    have hlt := hlt hne
    have hpos := he.length_pos
    simp only [List.length_append, List.length_singleton] at hlt ⊢
    refine ⟨by omega, fun shape hm => hroom shape ?_⟩
    simpa [Branch.shapesIn] using hm
  | .more hs hne he hb => by
    obtain ⟨-, hlt, hroom⟩ := hs.room
    obtain ⟨hbs, hin⟩ := hb.room
    have hlt := hlt hne
    have hpos := he.length_pos
    simp only [List.length_append, List.length_cons] at hlt hbs hin ⊢
    refine ⟨by omega, fun shape hm => ?_⟩
    obtain hm | hm := List.mem_append.mp hm
    · exact hroom shape hm
    · have := hin shape hm
      omega

end

end Grammar

theorem Shape.total_le {shape : Shape} (h : shape.Sound) :
    shape.total ≤ shape.branches * (2 ^ 32 - 1) := by
  unfold total
  split
  · next weights hw =>
    rw [← h.length weights hw]
    exact Draw.sum_le weights
  · omega

namespace Template

theorem shapes_sound_of_parse {text : String} {t : Template} (h : parse text = .ok t) :
    ∀ shape ∈ t.shapes, shape.Sound :=
  Node.shapesOf_sound t.nodes (normalOf_of_parse h)

/-- The weights in a text of up to `2 ^ 33` characters have a place in 64 bits. -/
theorem total_lt_of_length {text : String} {t : Template} (h : parse text = .ok t)
    (hlen : text.length ≤ 2 ^ 33) : ∀ shape ∈ t.shapes, shape.total < UInt64.size := by
  intro shape hm
  obtain ⟨offset, groups, hs⟩ := derives_of_parse h
  have hroom := hs.room.2.2 shape hm
  have hle := Shape.total_le (shapes_sound_of_parse h shape hm)
  rw [← String.length_toList] at hlen
  simp only [UInt64.size]
  simp only at hroom
  omega

end Template

end Spintax
