import Mathlib
import Spintax.Proofs.Selection.Groups
import Spintax.Proofs.Selection.Overflow

namespace Spintax

namespace Path

/-- From number `first` on, the path has a branch of each of some groups. -/
def Fits (p : Path) (first : Nat) (shapes : List Shape) : Prop :=
  ∀ i (h : i < shapes.length), p.getD (first + i) 0 < shapes[i].branches

theorem fits_cons {p : Path} {first : Nat} {shape : Shape} {shapes : List Shape}
    (h : p.Fits first (shape :: shapes)) :
    p.getD first 0 < shape.branches ∧ p.Fits (first + 1) shapes := by
  refine ⟨h 0 (by simp), fun i hi => ?_⟩
  have := h (i + 1) (by simpa using hi)
  rwa [Nat.add_right_comm, Nat.add_assoc]

theorem fits_append {p : Path} {first : Nat} {shapes shapes' : List Shape}
    (h : p.Fits first (shapes ++ shapes')) :
    p.Fits first shapes ∧ p.Fits (first + shapes.length) shapes' := by
  constructor
  · intro i hi
    have := h i (by simp; omega)
    rwa [List.getElem_append_left hi] at this
  · intro i hi
    have := h (shapes.length + i) (by simp; omega)
    rw [List.getElem_append_right (by omega)] at this
    simpa [Nat.add_assoc] using this

end Path

/-- The error is a slot that has no value, one of `names`, and strictness. -/
def RenderError.Missing (policy : Policy) (vs : Variables) (names : List String)
    (e : RenderError) : Prop :=
  policy = .strict ∧ ∃ name ∈ names, vs.get? name = none ∧ e = .missingVariable name

theorem RenderError.Missing.mono {policy : Policy} {vs : Variables} {names names' : List String}
    {e : RenderError} (h : e.Missing policy vs names) (hsub : names ⊆ names') :
    e.Missing policy vs names' := by
  obtain ⟨hp, name, hm, he⟩ := h
  exact ⟨hp, name, hsub hm, he⟩

theorem Policy.fill_eq_error {policy : Policy} {vs : Variables} {name : String}
    {e : RenderError} (h : policy.fill vs name = .error e) : e.Missing policy vs [name] := by
  unfold fill at h
  split at h
  · cases h
  · next hv =>
    cases h
    exact ⟨rfl, name, by simp, hv, rfl⟩
  · cases h

namespace Render

variable {policy : Policy} {path : Path} {vs : Variables} {e : RenderError}

theorem nodes_cons (n : Node) (ns : List Node) :
    nodes policy path vs (n :: ns) =
      node policy path vs n >>= fun p => (nodes policy path vs ns).map (p ++ ·) := by
  rw [nodes]
  cases node policy path vs n <;> cases nodes policy path vs ns <;> rfl

mutual

/-- Where the path fits, nothing but a missing value stops a rendering. -/
theorem node_eq_error {first : Nat} : ∀ n : Node, n.Numbered first → path.Fits first n.shapes →
    node policy path vs n = .error e → e.Missing policy vs n.slots
  | .literal _, _, _, h => by cases h
  | .slot _, _, _, h => Policy.fill_eq_error (Result.map_eq_error.mp h)
  | .group _ _ bs, ⟨rfl, hbs⟩, hfit, h => by
    obtain ⟨hi, hfit⟩ := Path.fits_cons hfit
    exact branch_eq_error bs _ hi hbs hfit (Result.map_eq_error.mp h)

theorem nodes_eq_error {first : Nat} : ∀ ns : List Node, Node.NumberedOf first ns →
    path.Fits first (Node.shapesOf ns) → nodes policy path vs ns = .error e →
    e.Missing policy vs (Node.slotsOf ns)
  | [], _, _, h => by cases h
  | n :: ns, ⟨hn, hns⟩, hfit, h => by
    obtain ⟨hfit, hfit'⟩ := Path.fits_append hfit
    rw [nodes_cons] at h
    obtain h | ⟨p, -, h⟩ := Result.bind_eq_error.mp h
    · exact (node_eq_error n hn hfit h).mono (List.subset_append_left _ _)
    · exact (nodes_eq_error ns hns hfit' (Result.map_eq_error.mp h)).mono
        (List.subset_append_right _ _)

theorem branch_eq_error {first : Nat} {absent : RenderError} : ∀ (bs : List (Branch Node))
    (i : Nat), i < bs.length → Branch.NumberedIn first bs →
    path.Fits first (Branch.shapesIn bs) → branch policy path vs absent i bs = .error e →
    e.Missing policy vs (Branch.slotsIn bs)
  | [], i, hi, _, _, _ => absurd hi (Nat.not_lt_zero i)
  | ⟨ns, _⟩ :: bs, 0, _, ⟨hns, _⟩, hfit, h =>
    (nodes_eq_error ns hns (Path.fits_append hfit).1 h).mono (List.subset_append_left _ _)
  | ⟨ns, _⟩ :: bs, i + 1, hi, ⟨_, hbs⟩, hfit, h =>
    (branch_eq_error bs i (by simpa using hi) hbs (Path.fits_append hfit).2 h).mono
      (List.subset_append_right _ _)

end

end Render

theorem mem_insertName {name other : String} {names : List String} :
    name ∈ insertName other names ↔ name = other ∨ name ∈ names := by
  induction names with
  | nil => simp [insertName]
  | cons n ns ih =>
    rw [insertName]
    split
    · next h => simp [h]
    · split
      · simp
      · simp [ih, or_left_comm]

namespace Template

theorem mem_slotNames {t : Template} {name : String} :
    name ∈ t.slotNames ↔ name ∈ Node.slotsOf t.nodes := by
  unfold slotNames
  induction Node.slotsOf t.nodes with
  | nil => simp
  | cons n ns ih => simp [mem_insertName, ih]

/-- A path along which the template can be rendered: it has an entry for each group, and
the entry is the position of a branch. -/
structure Admits (t : Template) (p : Path) : Prop where
  length : p.length = t.groupCount
  branch : ∀ i (hp : i < p.length) (hg : i < t.shapes.length), p[i] < t.shapes[i].branches

theorem admits_of_select {text : String} {t : Template} (ht : parse text = .ok t)
    {s s' : Supply} {p : Path} (h : t.select s = .ok (p, s')) : t.Admits p := by
  obtain ⟨hlen, hfit⟩ := Path.draw_eq_ok (shapes_sound_of_parse ht) h
  exact ⟨hlen, hfit⟩

theorem render_of_admits {text : String} {t : Template} (ht : parse text = .ok t)
    (policy : Policy) (vs : Variables) {p : Path} (h : t.Admits p) :
    (∃ m, t.render policy p vs = .ok m) ∨
      ∃ e : RenderError, t.render policy p vs = .error e ∧ e.Missing policy vs t.slotNames := by
  have hfits : p.Fits 0 (Node.shapesOf t.nodes) := by
    intro i hi
    have hp : i < p.length := by rw [h.length]; exact hi
    have hb : p[i] < (Node.shapesOf t.nodes)[i].branches := h.branch i hp hi
    simpa [List.getD_eq_getElem?_getD, hp] using hb
  cases hr : t.render policy p vs with
  | ok m => exact .inl ⟨m, rfl⟩
  | error e =>
    refine .inr ⟨e, rfl, ?_⟩
    rw [render, if_pos h.length] at hr
    have he := Render.nodes_eq_error t.nodes (numberedOf_of_parse ht) hfits
      (Result.map_eq_error.mp hr)
    exact he.mono fun name hn => mem_slotNames.mpr hn

/-- A drawn path fits its template. A message that is rendered along it can only lack a
value, and no weighted draw goes beyond the weights. Weights are added in 64 bits, so that no sum
may be a multiple of `2 ^ 64`. -/
theorem select_admits {text : String} {t : Template} (ht : parse text = .ok t)
    (h64 : ∀ shape ∈ t.shapes, ¬ UInt64.size ∣ shape.total)
    (policy : Policy) (vs : Variables) (s : Supply) (hs : t.select s ≠ .error .ranDry) :
    (∃ p s' r, t.select s = .ok (p, s') ∧ t.Admits p ∧
      t.renderRandom policy vs s = .ok (r, s') ∧
      ((∃ m, r = .ok m) ∨ policy = .strict ∧ ∃ name ∈ t.slotNames,
        vs.get? name = none ∧ r = .error (.missingVariable name))) ∧
    ∀ shape ∈ t.shapes, ∀ weights, shape.weights = some weights → ∀ u target u',
      Draw.uniform (Draw.total weights) u = .ok (target, u') →
        Draw.Covers weights target.toNat (Draw.covering 0 target weights) := by
  refine ⟨?_, fun _ _ _ _ _ _ _ => Draw.covers_of_uniform⟩
  cases hsel : t.select s with
  | error e =>
    obtain rfl | ⟨-, shape, hm, hdvd⟩ := Path.draw_eq_error hsel
    · exact absurd hsel hs
    · exact absurd hdvd (h64 shape hm)
  | ok drawn =>
    obtain ⟨p, s'⟩ := drawn
    have hp := admits_of_select ht hsel
    refine ⟨p, s', t.render policy p vs, rfl, hp, ?_, ?_⟩
    · rw [renderRandom, hsel]
      rfl
    · refine (render_of_admits ht policy vs hp).imp_right ?_
      rintro ⟨e, he, hstrict, name, hm, hv, rfl⟩
      exact ⟨hstrict, name, hm, hv, he⟩

theorem select_admits_nested : ∃ t p s', parse "{a^2|{b|c}} {{x}}" = .ok t ∧
    (∀ shape ∈ t.shapes, ¬ UInt64.size ∣ shape.total) ∧
    t.select (.ofArray #[5, 7]) ≠ .error .ranDry ∧
    t.select (.ofArray #[5, 7]) = .ok (p, s') ∧ t.Admits p := by
  obtain ⟨t, ht, hdraw⟩ : ∃ t, parse "{a^2|{b|c}} {{x}}" = .ok t ∧
      (t.select (.ofArray #[5, 7])).toBool = true := ⟨_, by cbv, by cbv⟩
  have h64 : ∀ shape ∈ t.shapes, ¬ UInt64.size ∣ shape.total := fun shape hm =>
    Nat.not_dvd_of_pos_of_lt (shapes_sound_of_parse ht shape hm).total_pos
      (total_lt_of_length ht (by decide) shape hm)
  have hs : t.select (.ofArray #[5, 7]) ≠ .error .ranDry := by
    intro he
    rw [he] at hdraw
    cases hdraw
  obtain ⟨⟨p, s', -, hp, ha, -⟩, -⟩ := select_admits ht h64 .strict .empty _ hs
  exact ⟨t, p, s', ht, h64, hs, hp, ha⟩

/-- Weights that add up to `2 ^ 64` leave nothing to draw from. And a supply may go on and on with
a word that a group refuses. -/
theorem select_stuck :
    (parse (packed (2 ^ 32 + 1) 1).print = .ok (packed (2 ^ 32 + 1) 1) ∧
      ∀ s, (packed (2 ^ 32 + 1) 1).select s = .error .noChoice) ∧
    ∃ t, parse "{a|b|c}" = .ok t ∧
      ∀ size, t.select (.cycle #[0xFFFFFFFFFFFFFFFF] size) = .error .ranDry := by
  refine ⟨⟨parse_print_packed (by omega), ?_⟩, ?_⟩
  · have htotal : (Shape.packed (2 ^ 32 + 1) 1).total = UInt64.size := Shape.total_packed _ _
    exact select_eq_noChoice (shapes_packed (by omega)) htotal.symm.dvd
  · obtain ⟨t, ht, hshapes⟩ : ∃ t, parse "{a|b|c}" = .ok t ∧ t.shapes = [⟨3, none⟩] :=
      ⟨_, by cbv, by cbv⟩
    have hrefused : ¬ Draw.accepts 3 0xFFFFFFFFFFFFFFFF := by decide
    refine ⟨t, ht, fun size => select_eq_ranDry hshapes (by decide) fun i => ?_⟩
    simpa [Supply.cycle, Nat.mod_one, Shape.bound] using hrefused

end Template

end Spintax
