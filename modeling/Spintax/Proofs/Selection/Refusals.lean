import Mathlib.Order.Bounds.Basic
import Spintax.Proofs.Selection.Streams

namespace Spintax.Draw

variable {bound word i : UInt64} {s : Supply}

def acceptedAt (bound : UInt64) (s : Supply) : Set Nat :=
  {i | s.used ≤ i ∧ i < s.size ∧ accepts bound (s.word i)}

theorem accepted_cases (bound : UInt64) (s : Supply) :
    (∃ i, IsLeast (acceptedAt bound s) i ∧
      accepted bound s = .ok (s.word i, { s with used := i + 1 })) ∨
    acceptedAt bound s = ∅ ∧ accepted bound s = .error .ranDry := by
  fun_induction accepted bound s with
  | case1 s hs word s' hacc =>
    exact .inl ⟨s.used, ⟨⟨Nat.le_refl _, hs, hacc⟩, fun i hi => hi.1⟩, rfl⟩
  | case2 s hs word s' hacc ih =>
    -- the word that comes next is refused, so that the others are those of the rest
    have hrest : acceptedAt bound s' = acceptedAt bound s := by
      ext i
      constructor
      · rintro ⟨hi, hsize, ha⟩
        exact ⟨Nat.le_of_succ_le hi, hsize, ha⟩
      · rintro ⟨hi, hsize, ha⟩
        refine ⟨Nat.lt_of_le_of_ne hi ?_, hsize, ha⟩
        rintro rfl
        exact hacc ha
    rwa [hrest] at ih
  | case3 s hs =>
    refine .inr ⟨Set.eq_empty_of_forall_notMem ?_, rfl⟩
    rintro i ⟨hi, hsize, -⟩
    omega

theorem uniform_eq (hb : bound ≠ 0) (s : Supply) :
    uniform bound s = (accepted bound s).map fun (word, s) => (word % bound, s) := by
  rw [uniform, if_neg hb]

theorem uniform_cases (hb : bound ≠ 0) (s : Supply) :
    (∃ i, IsLeast (acceptedAt bound s) i ∧
      uniform bound s = .ok (s.word i % bound, { s with used := i + 1 })) ∨
    acceptedAt bound s = ∅ ∧ uniform bound s = .error .ranDry := by
  rw [uniform_eq hb]
  obtain ⟨i, hi, ha⟩ | ⟨hnone, ha⟩ := accepted_cases bound s
  · exact .inl ⟨i, hi, by rw [ha]; rfl⟩
  · exact .inr ⟨hnone, by rw [ha]; rfl⟩

theorem uniform_eq_ranDry (hb : bound ≠ 0) (h : ∀ i, ¬ accepts bound (s.word i)) :
    uniform bound s = .error .ranDry := by
  obtain ⟨i, hi, -⟩ | ⟨-, he⟩ := uniform_cases hb s
  · exact absurd hi.1.2.2 (h i)
  · exact he

/-- Some words that a draw refuses, and one that it accepts. -/
structure Segment (bound : UInt64) where
  refused : List UInt64
  word : UInt64
  refuses : ∀ w ∈ refused, ¬ accepts bound w
  accepts : Draw.accepts bound word

namespace Segment

variable {g : Segment bound}

def words (g : Segment bound) : List UInt64 :=
  g.refused ++ [g.word]

def single (ha : Draw.accepts bound word) : Segment bound :=
  ⟨[], word, by simp, ha⟩

theorem length_words (g : Segment bound) : g.words.length = g.refused.length + 1 := by
  rw [words, List.length_append, List.length_singleton]

theorem isLeast (h : s.Begins g.words) :
    IsLeast (acceptedAt bound s) (s.used + g.refused.length) ∧
      s.word (s.used + g.refused.length) = g.word := by
  obtain ⟨hrefused, hword⟩ := Supply.begins_append.mp h
  obtain ⟨hsize, hlast⟩ := hword 0 (by simp)
  simp only [Supply.skip, Nat.add_zero, List.getElem_cons_zero] at hsize hlast
  refine ⟨⟨⟨by omega, hsize, by rw [hlast]; exact g.accepts⟩, ?_⟩, hlast⟩
  rintro i ⟨hi, -, ha⟩
  by_contra hlt
  obtain ⟨-, hw⟩ := hrefused (i - s.used) (by omega)
  have heq : s.used + (i - s.used) = i := by omega
  rw [heq] at hw
  rw [hw] at ha
  exact g.refuses _ (List.getElem_mem _) ha

theorem takes_uniform (hb : bound ≠ 0) (g : Segment bound) :
    Takes (uniform bound) g.words (g.word % bound) := by
  intro s hs
  obtain ⟨hleast, hword⟩ := isLeast hs
  obtain ⟨i, hi, hu⟩ | ⟨hnone, -⟩ := uniform_cases hb s
  · obtain rfl := hi.unique hleast
    rw [hu, hword, Supply.skip, length_words, Nat.add_assoc]
  · have hmem := hleast.1
    rw [hnone] at hmem
    exact absurd hmem (Set.notMem_empty _)

/-- The words from the first that a draw meets to the first that it accepts. -/
def upTo (s : Supply) (i : Nat) (h : IsLeast (acceptedAt bound s) i) : Segment bound where
  refused := (List.range' s.used (i - s.used)).map s.word
  word := s.word i
  refuses := by
    intro w hw ha
    obtain ⟨j, hj, rfl⟩ := List.mem_map.mp hw
    obtain ⟨hle, hlt⟩ := List.mem_range'_1.mp hj
    have hsize := h.1.2.1
    have hleast := h.2 ⟨hle, by omega, ha⟩
    omega
  accepts := h.1.2.2

theorem begins_upTo {i : Nat} (h : IsLeast (acceptedAt bound s) i) :
    s.Begins (upTo s i h).words := by
  obtain ⟨hle, hsize, -⟩ := h.1
  intro j hj
  simp only [words, upTo, List.length_append, List.length_map, List.length_range',
    List.length_singleton] at hj
  refine ⟨by omega, ?_⟩
  by_cases hlt : j < i - s.used
  · simp [words, upTo, hlt]
  · have heq : j = i - s.used := by omega
    subst heq
    have hi : s.used + (i - s.used) = i := by omega
    simp [words, upTo, hi]

end Segment

theorem local_uniform (bound : UInt64) : Local (uniform bound) := by
  intro s i s' h
  by_cases hb : bound = 0
  · rw [uniform, if_pos hb] at h
    cases h
  · obtain ⟨k, hk, hu⟩ | ⟨-, hu⟩ := uniform_cases hb s
    · have hbegins := Segment.begins_upTo hk
      have htakes := (Segment.upTo s k hk).takes_uniform hb
      have heq := (htakes s hbegins).symm.trans h
      simp only [Except.ok.injEq, Prod.mk.injEq] at heq
      obtain ⟨rfl, rfl⟩ := heq
      exact ⟨_, htakes, hbegins, rfl⟩
    · rw [hu] at h
      cases h

theorem acceptedAt_single (h : ¬ accepts bound word) : acceptedAt bound (.ofArray #[word]) = ∅ := by
  apply Set.eq_empty_of_forall_notMem
  rintro i ⟨-, hsize, ha⟩
  obtain rfl : i = 0 := Nat.lt_one_iff.mp hsize
  exact h ha

theorem takes_single_iff {α : Type} (hb : bound ≠ 0) {f : UInt64 → α} {a : α} :
    Takes (fun s => (uniform bound s).map fun (i, s) => (f i, s)) [word] a ↔
      accepts bound word ∧ f (word % bound) = a := by
  have hlead : ∀ ha : accepts bound word,
      Takes (fun s => (uniform bound s).map fun (i, s) => (f i, s)) [word] (f (word % bound)) :=
    fun ha => ((Segment.single ha).takes_uniform hb).map f
  constructor
  · intro h
    by_cases ha : accepts bound word
    · exact ⟨ha, (hlead ha).unique h⟩
    · have hs := h _ (Supply.begins_ofArray [word])
      obtain ⟨i, hi, -⟩ | ⟨-, hu⟩ := uniform_cases hb (.ofArray #[word])
      · rw [acceptedAt_single ha] at hi
        exact absurd hi.1 (Set.notMem_empty i)
      · simp only [hu] at hs
        cases hs
  · rintro ⟨ha, rfl⟩
    exact hlead ha

theorem takes_uniform_iff (hb : bound ≠ 0) :
    Takes (uniform bound) [word] i ↔ accepts bound word ∧ word % bound = i := by
  have hid : (fun s => (uniform bound s).map fun (i, s) => (id i, s)) = uniform bound := by
    funext s
    cases uniform bound s <;> rfl
  rw [← hid, takes_single_iff hb]
  rfl

end Spintax.Draw
