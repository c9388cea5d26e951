import Mathlib
import Spintax.Proofs.Selection.Groups
import Spintax.Proofs.Selection.Overflow
import Spintax.Proofs.Template.Preorder

namespace Spintax

open Draw (Local Segment Takes)

/-- The branch that a word leads to, by its remainder: the remainder itself or, where there are
weights, the position of the weight that covers it. -/
def Shape.Gives (shape : Shape) (word : UInt64) (i : Nat) : Prop :=
  match shape.weights with
  | some weights => Draw.Covers weights (word.toNat % shape.total) i
  | none => i = word.toNat % shape.branches

theorem Shape.gives_pick {shape : Shape} (hs : shape.Sound) (ht : shape.total < UInt64.size)
    (word : UInt64) : shape.Gives word (shape.pick word) := by
  have hlt := mod_bound_lt hs ht word
  have hmod : (word % shape.bound).toNat = word.toNat % shape.total := by
    rw [UInt64.toNat_mod, toNat_bound ht]
  unfold Gives pick
  cases hw : shape.weights with
  | some weights =>
    simp only [total, hw] at hlt ⊢
    obtain ⟨i, hi, hcovers⟩ := Draw.covering_spec 0 _ hlt
    rw [hmod] at hcovers
    simpa only [hi, Nat.zero_add, total, hw] using hcovers
  | none =>
    simpa only [total, hw] using hmod

theorem Shape.not_gives_packed {heavy light : Nat} (h : 0 < heavy)
    (ht : 2 ^ 32 ≤ (packed heavy light).total) : ¬ (packed heavy light).Gives 0xFFFFFFFF 0 := by
  obtain ⟨n, rfl⟩ := Nat.exists_eq_add_of_lt h
  rintro ⟨-, -, hlt⟩
  have hmod : (0xFFFFFFFF : UInt64).toNat % (packed (0 + n + 1) light).total = 0xFFFFFFFF :=
    Nat.mod_eq_of_lt (Nat.lt_of_lt_of_le (by decide) ht)
  rw [hmod] at hlt
  simp [List.replicate_succ] at hlt

namespace Path

variable {shape : Shape} {shapes : List Shape}

theorem local_drawBranch (shape : Shape) : Local (drawBranch shape) := by
  rw [drawBranch_eq]
  exact (Draw.local_uniform _).map _

theorem takes_drawBranch (hb : shape.bound ≠ 0) (g : Segment shape.bound) :
    Takes (drawBranch shape) g.words (shape.pick g.word) := by
  rw [drawBranch_eq, Shape.pick_eq]
  exact (g.takes_uniform hb).map shape.branchAt

theorem draw_cons (shape : Shape) (shapes : List Shape) :
    draw (shape :: shapes) = Draw.andThen (drawBranch shape) (draw shapes) := by
  funext s
  rw [draw, Draw.andThen]
  cases drawBranch shape s <;> rfl

theorem local_draw (shapes : List Shape) : Local (draw shapes) := by
  induction shapes with
  | nil =>
    intro s p s' h
    cases h
    exact ⟨[], fun _ _ => rfl, Supply.begins_nil s, rfl⟩
  | cons shape shapes ih =>
    rw [draw_cons]
    exact (local_drawBranch shape).andThen ih

abbrev Segments (shapes : List Shape) :=
  (g : Fin shapes.length) → Segment (shapes.get g).bound

namespace Segments

def words (segments : Segments shapes) : List UInt64 :=
  (List.ofFn fun g => (segments g).words).flatten

def path (segments : Segments shapes) : Path :=
  List.ofFn fun g => (shapes.get g).pick (segments g).word

theorem getElem?_path (segments : Segments shapes) (g : Fin shapes.length) :
    segments.path[g.val]? = some ((shapes.get g).pick (segments g).word) := by
  rw [path, List.getElem?_ofFn, dif_pos g.isLt]

theorem getElem?_update {g h : Fin shapes.length} (hne : h ≠ g) (segments : Segments shapes)
    (segment : Segment (shapes.get g).bound) :
    (path (Function.update segments g segment))[h.val]? = segments.path[h.val]? := by
  rw [getElem?_path, getElem?_path, Function.update_of_ne hne]

end Segments

theorem takes_draw (hb : ∀ shape ∈ shapes, shape.bound ≠ 0) (segments : Segments shapes) :
    Takes (draw shapes) segments.words segments.path := by
  induction shapes with
  | nil => exact fun s _ => rfl
  | cons shape shapes ih =>
    have hfirst := takes_drawBranch (hb shape (by simp)) (segments 0)
    have hrest := ih (fun shape' hm => hb shape' (List.mem_cons_of_mem _ hm))
      fun g => segments g.succ
    rw [draw_cons, Segments.words, Segments.path, List.ofFn_succ, List.ofFn_succ,
      List.flatten_cons]
    exact hfirst.andThen hrest

end Path

namespace Template

variable {text : String} {t : Template}

/-- A path is drawn from the segments of the groups, one after the other, and each entry is what
the accepted word of its segment leads to. Weights are added in 64 bits, so that for this the sums
must have a place there. -/
theorem select_takes_segments (ht : parse text = .ok t) :
    ((∀ shape ∈ t.shapes, shape.total < UInt64.size) → ∀ segments : Path.Segments t.shapes,
        Takes t.select segments.words segments.path ∧ segments.path.length = t.groupCount ∧
        (∀ g, (t.shapes.get g).bound.toNat = (t.shapes.get g).total ∧
          ∃ i, segments.path[g.val]? = some i ∧ (t.shapes.get g).Gives (segments g).word i ∧
            Takes (Path.drawBranch (t.shapes.get g)) [(segments g).word] i) ∧
        ∀ g (segment : Segment (t.shapes.get g).bound),
          let changed : Path.Segments t.shapes := Function.update segments g segment
          Takes t.select changed.words changed.path ∧
            ∀ h ≠ g, changed.path[h.val]? = segments.path[h.val]?) ∧
    (∀ group ∈ t.preorder, t.shapes[group.index]? = some group.shape) ∧
    ∀ n s paths s', Draw.times t.select n s = .ok (paths, s') ↔
      ∃ parts : List (List UInt64), parts.length = n ∧
        List.Forall₂ (Takes t.select) parts paths ∧
        s.Begins parts.flatten ∧ s' = s.skip parts.flatten.length := by
  refine ⟨fun h64 segments => ?_, fun group hg => shapes_getElem ht hg,
    fun n s paths s' => (Path.local_draw t.shapes).times_eq_ok_iff⟩
  have hs : ∀ shape ∈ t.shapes, shape.Sound ∧ shape.total < UInt64.size :=
    fun shape hm => ⟨shapes_sound_of_parse ht shape hm, h64 shape hm⟩
  have hb : ∀ shape ∈ t.shapes, shape.bound ≠ 0 :=
    fun shape hm => Shape.bound_ne_zero (hs shape hm).1 (hs shape hm).2
  have htakes (segments : Path.Segments t.shapes) :
      Takes t.select segments.words segments.path :=
    Path.takes_draw hb segments
  refine ⟨htakes segments, List.length_ofFn, ?_, ?_⟩
  · intro g
    have hg := List.getElem_mem g.isLt
    obtain ⟨hsound, hsmall⟩ := hs _ hg
    exact ⟨Shape.toNat_bound hsmall, _, segments.getElem?_path g,
      Shape.gives_pick hsound hsmall _,
      Path.takes_drawBranch (hb _ hg) (.single (segments g).accepts)⟩
  · intro g segment changed
    exact ⟨htakes changed, fun h hne => Path.Segments.getElem?_update hne segments segment⟩

theorem select_takes_segments_nested : ∃ t, parse "{a^2|{b|c|d}} {{x}}" = .ok t ∧
    (∀ shape ∈ t.shapes, shape.total < UInt64.size) ∧
    Takes t.select [0xFFFFFFFFFFFFFFFF, 5, 0xFFFFFFFFFFFFFFFF, 5] [1, 2] := by
  obtain ⟨t, ht, hshapes⟩ : ∃ t, parse "{a^2|{b|c|d}} {{x}}" = .ok t ∧
      t.shapes = [⟨2, some [2, 1]⟩, ⟨3, none⟩] := ⟨_, by cbv, by cbv⟩
  have h64 := total_lt_of_length ht (by decide)
  have hwords : ∀ shape ∈ t.shapes,
      ¬ Draw.accepts shape.bound 0xFFFFFFFFFFFFFFFF ∧ Draw.accepts shape.bound 5 := by
    rw [hshapes]
    decide
  let segments : Path.Segments t.shapes := fun g =>
    ⟨[0xFFFFFFFFFFFFFFFF], 5, by simpa using (hwords _ (List.getElem_mem g.isLt)).1,
      (hwords _ (List.getElem_mem g.isLt)).2⟩
  have hpath : segments.path = t.shapes.map (·.pick 5) :=
    List.ofFn_getElem_eq_map t.shapes (·.pick 5)
  have hseg : segments.words = (t.shapes.map fun _ => [0xFFFFFFFFFFFFFFFF, 5]).flatten := by
    simp [Path.Segments.words, segments, Segment.words]
  obtain ⟨htakes, -⟩ := (select_takes_segments ht).1 h64 segments
  rw [hpath, hseg, hshapes] at htakes
  exact ⟨t, ht, h64, htakes⟩

theorem takes_packed {heavy light : Nat} (h : 0 < heavy)
    (hone : (Shape.packed heavy light).bound = 1) (word : UInt64) :
    Takes (packed heavy light).select [word] [0] := by
  have ha : Draw.accepts (Shape.packed heavy light).bound word := by
    rw [hone]
    exact Draw.accepts_one word
  have hb : (Shape.packed heavy light).bound ≠ 0 := by
    rw [hone]
    decide
  have hnone : Takes (Path.draw []) [] [] := fun _ _ => rfl
  have htakes := (Path.takes_drawBranch hb (.single ha)).andThen hnone
  rw [← Path.draw_cons, ← shapes_packed h] at htakes
  rw [← Shape.pick_packed h hone word]
  exact htakes

/-- With weights of `2 ^ 64 + 1` in all, every word leads to the first branch. -/
theorem select_takes_packed :
    let t := packed (2 ^ 32 + 1) 2
    parse t.print = .ok t ∧ ∃ shape, t.shapes = [shape] ∧
      Draw.accepts shape.bound 0xFFFFFFFF ∧ Takes t.select [0xFFFFFFFF] [0] ∧
      ¬ shape.Gives 0xFFFFFFFF 0 := by
  intro t
  have hshapes : t.shapes = [.packed (2 ^ 32 + 1) 2] := shapes_packed (by omega)
  have htotal : (Shape.packed (2 ^ 32 + 1) 2).total = UInt64.size + 1 := Shape.total_packed _ _
  have hone := Shape.bound_packed htotal
  have htakes := takes_packed (by omega) hone 0xFFFFFFFF
  exact ⟨parse_print_packed (by omega), _, hshapes, hone ▸ Draw.accepts_one _, htakes,
    Shape.not_gives_packed (by omega) (by rw [htotal]; decide)⟩

end Template

end Spintax
