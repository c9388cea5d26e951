import Mathlib.Data.List.Forall2
import Spintax.Draw
import Spintax.Proofs.Result

namespace Spintax

namespace Supply

def Begins (s : Supply) (ws : List UInt64) : Prop :=
  ∀ i (h : i < ws.length), s.used + i < s.size ∧ s.word (s.used + i) = ws[i]

def skip (s : Supply) (n : Nat) : Supply :=
  { s with used := s.used + n }

variable {s : Supply} {w : UInt64} {ws us : List UInt64}

theorem skip_skip (s : Supply) (m n : Nat) : (s.skip m).skip n = s.skip (m + n) := by
  rw [skip, skip, skip, Nat.add_assoc]

theorem begins_nil (s : Supply) : s.Begins [] :=
  fun _ h => absurd h (Nat.not_lt_zero _)

theorem begins_append :
    s.Begins (ws ++ us) ↔ s.Begins ws ∧ (s.skip ws.length).Begins us := by
  constructor
  · intro h
    constructor
    · intro i hi
      have hi' := h i (by rw [List.length_append]; omega)
      rwa [List.getElem_append_left hi] at hi'
    · intro i hi
      have hi' := h (ws.length + i) (by rw [List.length_append]; omega)
      rw [List.getElem_append_right (by omega)] at hi'
      simpa [skip, Nat.add_assoc] using hi'
  · rintro ⟨hws, hus⟩ i hi
    by_cases hlt : i < ws.length
    · rw [List.getElem_append_left hlt]
      exact hws i hlt
    · rw [List.length_append] at hi
      have hi' := hus (i - ws.length) (by omega)
      have heq : s.used + ws.length + (i - ws.length) = s.used + i := by omega
      rw [List.getElem_append_right (by omega)]
      simpa [skip, heq] using hi'

theorem begins_ofArray (ws : List UInt64) : (ofArray ws.toArray).Begins ws := by
  intro i hi
  simp [ofArray, hi]

end Supply

namespace Draw

variable {α β : Type} {draw first : Supply → Drawn α} {rest : Supply → Drawn (List α)}
  {s s' : Supply} {ws us : List UInt64} {a b : α} {as : List α} {n : Nat}

/-- Whatever comes after these words, the draw gives `a` for them and uses all of them. -/
def Takes (draw : Supply → Drawn α) (ws : List UInt64) (a : α) : Prop :=
  ∀ s : Supply, s.Begins ws → draw s = .ok (a, s.skip ws.length)

/-- The words that a draw uses decide what it gives. -/
def Local (draw : Supply → Drawn α) : Prop :=
  ∀ s a s', draw s = .ok (a, s') → ∃ ws, Takes draw ws a ∧ s.Begins ws ∧ s' = s.skip ws.length

def andThen (first : Supply → Drawn α) (rest : Supply → Drawn (List α)) (s : Supply) :
    Drawn (List α) :=
  match first s with
  | .error e => .error e
  | .ok (a, s) => (rest s).map fun (as, s) => (a :: as, s)

theorem Takes.unique (h : Takes draw ws a) (h' : Takes draw ws b) : a = b := by
  have heq := (h _ (Supply.begins_ofArray ws)).symm.trans (h' _ (Supply.begins_ofArray ws))
  simp only [Except.ok.injEq, Prod.mk.injEq, and_true] at heq
  exact heq

theorem Takes.map (h : Takes draw ws a) (f : α → β) :
    Takes (fun s => (draw s).map fun (a, s) => (f a, s)) ws (f a) := by
  intro s hs
  simp only [h s hs]
  rfl

theorem Local.map (h : Local draw) (f : α → β) :
    Local fun s => (draw s).map fun (a, s) => (f a, s) := by
  intro s b s' hb
  obtain ⟨⟨a, s₁⟩, ha, heq⟩ := Result.map_eq_ok.mp hb
  obtain ⟨ws, htakes, hbegins, hskip⟩ := h s a s₁ ha
  simp only [Prod.mk.injEq] at heq
  obtain ⟨rfl, rfl⟩ := heq
  exact ⟨ws, htakes.map f, hbegins, hskip⟩

theorem Takes.andThen (h : Takes first ws a) (h' : Takes rest us as) :
    Takes (andThen first rest) (ws ++ us) (a :: as) := by
  intro s hs
  obtain ⟨hws, hus⟩ := Supply.begins_append.mp hs
  rw [Draw.andThen, h s hws]
  simp only [h' _ hus, Supply.skip_skip, List.length_append]
  rfl

theorem andThen_eq_ok (h : andThen first rest s = .ok (as, s')) :
    ∃ a s₁ bs, first s = .ok (a, s₁) ∧ rest s₁ = .ok (bs, s') ∧ as = a :: bs := by
  rw [andThen] at h
  split at h
  · cases h
  · next a s₁ ha =>
    obtain ⟨⟨bs, s₂⟩, hbs, heq⟩ := Result.map_eq_ok.mp h
    cases heq
    exact ⟨a, s₁, bs, ha, hbs, rfl⟩

theorem Local.andThen (h : Local first) (h' : Local rest) : Local (andThen first rest) := by
  intro s as s' has
  obtain ⟨a, s₁, bs, ha, hbs, rfl⟩ := andThen_eq_ok has
  obtain ⟨ws, hws, hbegins, rfl⟩ := h s a s₁ ha
  obtain ⟨us, hus, hbegins', rfl⟩ := h' _ bs s' hbs
  refine ⟨ws ++ us, hws.andThen hus, Supply.begins_append.mpr ⟨hbegins, hbegins'⟩, ?_⟩
  rw [Supply.skip_skip, List.length_append]

theorem times_succ (draw : Supply → Drawn α) (n : Nat) :
    times draw (n + 1) = andThen draw (times draw n) :=
  rfl

theorem takes_times {parts : List (List UInt64)} (h : List.Forall₂ (Takes draw) parts as) :
    Takes (times draw parts.length) parts.flatten as := by
  induction h with
  | nil => exact fun s _ => rfl
  | cons hfirst _ ih => exact hfirst.andThen ih

/-- To draw several times in turn is to draw once from each of the successive parts of a supply. -/
theorem Local.times_eq_ok_iff (h : Local draw) : times draw n s = .ok (as, s') ↔
    ∃ parts : List (List UInt64), parts.length = n ∧ List.Forall₂ (Takes draw) parts as ∧
      s.Begins parts.flatten ∧ s' = s.skip parts.flatten.length := by
  constructor
  · intro ht
    induction n generalizing s as with
    | zero =>
      cases ht
      exact ⟨[], rfl, .nil, Supply.begins_nil _, rfl⟩
    | succ n ih =>
      rw [times_succ] at ht
      obtain ⟨a, s₁, bs, ha, hbs, rfl⟩ := andThen_eq_ok ht
      obtain ⟨ws, hws, hbegins, rfl⟩ := h s a s₁ ha
      obtain ⟨parts, rfl, hparts, hbegins', rfl⟩ := ih hbs
      refine ⟨ws :: parts, rfl, .cons hws hparts, Supply.begins_append.mpr ⟨hbegins, hbegins'⟩, ?_⟩
      rw [Supply.skip_skip, List.flatten_cons, List.length_append]
  · rintro ⟨parts, rfl, hparts, hbegins, rfl⟩
    exact takes_times hparts s hbegins

end Draw

end Spintax
