import Spintax.Proofs.Rendering.Slots

namespace Spintax

inductive Piece where
  | literal (text : String)
  | slot (name : String)
deriving DecidableEq, Repr

def Piece.fill (vs : Variables) : Piece → String
  | literal text => text
  | slot name => (vs.get? name).getD ""

mutual

def Node.pieces (p : Path) : Node → List Piece
  | .literal text => [.literal text]
  | .slot name => [.slot name]
  | .group index _ bs => Branch.piecesAt p (p.getD index 0) bs

def Node.piecesOf (p : Path) : List Node → List Piece
  | [] => []
  | n :: ns => n.pieces p ++ Node.piecesOf p ns

def Branch.piecesAt (p : Path) (i : Nat) : List (Branch Node) → List Piece
  | [] => []
  | ⟨ns, _⟩ :: bs =>
    match i with
    | 0 => Node.piecesOf p ns
    | i + 1 => Branch.piecesAt p i bs

end

/-- The pieces that make up a text. Unless gaps are tolerated there is a value for each slot. -/
structure Composes (policy : Policy) (vs : Variables) (pieces : List Piece) (text : String) :
    Prop where
  text_eq : text = String.join (pieces.map (Piece.fill vs))
  supplied : policy = .strict → ∀ name, .slot name ∈ pieces → vs.get? name ≠ none

namespace Composes

variable {policy : Policy} {vs : Variables} {pieces pieces' : List Piece} {text text' : String}

theorem nil : Composes policy vs [] "" :=
  ⟨rfl, by simp⟩

theorem literal (text : String) : Composes policy vs [.literal text] text :=
  ⟨by simp [Piece.fill], by simp⟩

theorem slot {name : String} (h : policy.fill vs name = .ok text) :
    Composes policy vs [.slot name] text := by
  cases policy with
  | lenient =>
    rw [Policy.fill_lenient] at h
    cases h
    exact ⟨by simp [Piece.fill], by simp⟩
  | strict =>
    rw [Policy.fill_strict] at h
    split at h
    · cases h
    · next hv =>
      rw [Policy.fill_lenient] at h
      cases h
      refine ⟨by simp [Piece.fill], fun _ other ho => ?_⟩
      cases List.mem_singleton.mp ho
      exact mt Variables.lacks_iff.mpr hv

theorem append (h : Composes policy vs pieces text) (h' : Composes policy vs pieces' text') :
    Composes policy vs (pieces ++ pieces') (text ++ text') := by
  constructor
  · rw [h.text_eq, h'.text_eq, List.map_append, String.join_append]
  · intro hp name hn
    obtain hn | hn := List.mem_append.mp hn
    · exact h.supplied hp name hn
    · exact h'.supplied hp name hn

end Composes

namespace Render

variable {policy : Policy} {path : Path} {vs : Variables}

mutual

theorem node_composes : ∀ (n : Node) {q : Passage}, node policy path vs n = .ok q →
    Composes policy vs (n.pieces path) q.text
  | .literal text, q, h => by
    cases h
    exact .literal text
  | .slot name, q, h => by
    obtain ⟨text, htext, rfl⟩ := Result.map_eq_ok.mp h
    exact .slot htext
  | .group _ _ bs, q, h => by
    obtain ⟨q, hq, rfl⟩ := Result.map_eq_ok.mp h
    rw [Passage.text_append, String.empty_append]
    exact branch_composes bs hq

theorem nodes_composes : ∀ (ns : List Node) {q : Passage}, nodes policy path vs ns = .ok q →
    Composes policy vs (Node.piecesOf path ns) q.text
  | [], q, h => by
    cases h
    exact .nil
  | n :: ns, q, h => by
    obtain ⟨q₁, q₂, h₁, h₂, rfl⟩ := nodes_cons_eq_ok h
    exact (node_composes n h₁).append (nodes_composes ns h₂)

theorem branch_composes {absent : RenderError} {i : Nat} : ∀ (bs : List (Branch Node))
    {q : Passage}, branch policy path vs absent i bs = .ok q →
      Composes policy vs (Branch.piecesAt path i bs) q.text
  | [], q, h => by cases h
  | ⟨ns, _⟩ :: bs, q, h => by
    cases i with
    | zero => exact nodes_composes ns h
    | succ i => exact branch_composes bs h

end

end Render

namespace Path

variable {p q : Path} {c : List Choice} {d : Choice}

theorem Follows.getElem? (h : p.Follows c) (hd : d ∈ c) (hlt : d.group < p.length) :
    p[d.group]? = some d.branch := by
  have hb := h d hd
  rw [List.getD_eq_getElem?_getD, List.getElem?_eq_getElem hlt] at hb
  rw [List.getElem?_eq_getElem hlt]
  exact congrArg some hb

theorem Follows.congr (h : p.Follows c) (hq : ∀ d ∈ c, q[d.group]? = p[d.group]?) :
    q.Follows c := by
  intro d hd
  rw [List.getD_eq_getElem?_getD, hq d hd, ← List.getD_eq_getElem?_getD]
  exact h d hd

end Path

namespace Template

variable {text : String} {t : Template} {policy : Policy} {vs : Variables} {p : Path}
  {m : Rendered}

def pieces (t : Template) (c : List Choice) : List Piece :=
  Node.piecesOf (Path.along t.groupCount c) t.nodes

theorem render_composes (ht : parse text = .ok t) (hm : t.render policy p vs = .ok m) :
    Composes policy vs (t.pieces m.choices) m.text := by
  have hc := charted_of_parse ht (choices_of_render hm).1
  have halong := render_of_follows hm (Path.length_along _ _)
    (Path.follows_along hc.ascending fun d hd => hc.group_lt hd)
  obtain ⟨-, q, hq, he⟩ := render_eq_ok halong
  have htext : m.text = q.text := congrArg Rendered.text he
  rw [htext]
  exact Render.nodes_composes t.nodes hq

/-- A rendering is determined by the choices that it reports: they say which pieces there are,
for any values, and nothing else of the path counts. -/
theorem determined_by_choices (ht : parse text = .ok t) (hm : t.render policy p vs = .ok m) :
    m.choices.Pairwise (·.group < ·.group) ∧ (∀ d ∈ m.choices, p[d.group]? = some d.branch) ∧
    (∀ q : Path, q.length = p.length → (∀ d ∈ m.choices, q[d.group]? = p[d.group]?) →
      t.render policy q vs = .ok ⟨m.text, q, m.choices⟩) ∧
    (∀ policy' p' m', t.render policy' p' vs = .ok m' → m'.choices = m.choices →
      m'.text = m.text) ∧
    m.text = String.join ((t.pieces m.choices).map (Piece.fill vs)) ∧
    (policy = .strict → ∀ name, .slot name ∈ t.pieces m.choices → vs.get? name ≠ none) := by
  obtain ⟨hmem, hf⟩ := choices_of_render hm
  have hc := charted_of_parse ht hmem
  have hlen := (render_eq_ok hm).1
  have hcomposes := render_composes ht hm
  refine ⟨hc.ascending, fun d hd => hf.getElem? hd (hlen ▸ hc.group_lt hd), ?_, ?_,
    hcomposes.text_eq, hcomposes.supplied⟩
  · intro q hq hagree
    exact render_of_follows hm (hq.trans hlen) (hf.congr hagree)
  · intro policy' p' m' hm' hchoices
    rw [(render_composes ht hm').text_eq, hchoices, ← hcomposes.text_eq]

theorem determined_by_choices_nested : ∃ t m, parse "{a {{{x}}|y}|b} {{{x}}|d}" = .ok t ∧
    t.render .strict [1, 0, 0] (.ofList [("x", "{p|q}")]) = .ok m ∧ m.text = "b {p|q}" ∧
    m.choices = [⟨0, 1⟩, ⟨2, 0⟩] ∧
    t.pieces m.choices = [.literal "b", .literal " ", .slot "x"] ∧
    t.render .strict [1, 7, 0] (.ofList [("x", "{p|q}")]) = .ok ⟨m.text, [1, 7, 0], m.choices⟩ := by
  obtain ⟨t, m, ht, hm, htext, hchoices, hpieces⟩ :
      ∃ t m, parse "{a {{{x}}|y}|b} {{{x}}|d}" = .ok t ∧
        t.render .strict [1, 0, 0] (.ofList [("x", "{p|q}")]) = .ok m ∧ m.text = "b {p|q}" ∧
        m.choices = [⟨0, 1⟩, ⟨2, 0⟩] ∧
        t.pieces m.choices = [.literal "b", .literal " ", .slot "x"] :=
    ⟨_, _, by cbv, by cbv, by cbv, by cbv, by cbv⟩
  obtain ⟨-, -, hother, -⟩ := determined_by_choices ht hm
  refine ⟨t, m, ht, hm, htext, hchoices, hpieces, hother [1, 7, 0] rfl ?_⟩
  rw [hchoices]
  decide

end Template

end Spintax
