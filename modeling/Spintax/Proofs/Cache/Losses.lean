import Spintax.Proofs.Cache.Refinement

namespace Spintax.Cache

variable {f f' g : Flat} {now n : Nat} {text : String} {p : Parse}

namespace Flat

def losses (f : Flat) : Nat :=
  f.stats.evictions + f.stats.expirations

def Has (f : Flat) (text : String) : Prop :=
  ∃ k ∈ f.kept, k.text = text

/-- Nothing new is kept, and each text that was kept still is unless a loss was counted. -/
structure Thins (f f' : Flat) : Prop where
  subset : f'.kept ⊆ f.kept
  losses_le : f.losses ≤ f'.losses
  keeps : f'.losses = f.losses → ∀ text, f.Has text → f'.Has text

theorem Thins.of_eq (hk : f'.kept = f.kept) (hl : f'.losses = f.losses) : Thins f f' where
  subset := by rw [hk]; exact List.Subset.refl _
  losses_le := Nat.le_of_eq hl.symm
  keeps _ text := by
    rw [Has, Has, hk]
    exact id

theorem Thins.trans (h : Thins f g) (h' : Thins g f') : Thins f f' where
  subset := List.Subset.trans h'.subset h.subset
  losses_le := Nat.le_trans h.losses_le h'.losses_le
  keeps hl text ht := by
    have h₁ := h.losses_le
    have h₂ := h'.losses_le
    exact h'.keeps (by omega) text (h.keeps (by omega) text ht)

theorem Thins.of_losses_lt (hk : f'.kept ⊆ f.kept) (hl : f.losses < f'.losses) :
    Thins f f' where
  subset := hk
  losses_le := Nat.le_of_lt hl
  keeps he := absurd he (Nat.ne_of_gt hl)

theorem thins_lookup (f : Flat) (now : Nat) (text : String) : Thins f (f.lookup now text).2 := by
  rw [lookup]
  cases hf : f.kept.find? (·.text = text) with
  | none => exact .of_eq rfl rfl
  | some k =>
    have hkt : k.text = text := by simpa using List.find?_some hf
    have hkm := List.mem_of_find?_eq_some hf
    simp only
    split
    · exact .of_losses_lt (List.filter_subset_self _) (by simp only [losses]; omega)
    · refine ⟨?_, Nat.le_refl _, fun _ x hx => ?_⟩
      · intro d hd
        obtain hd | hd := List.mem_append.mp hd
        · exact (List.mem_filter.mp hd).1
        · rwa [List.mem_singleton.mp hd]
      · obtain ⟨d, hd, rfl⟩ := hx
        by_cases hdt : d.text = text
        · exact ⟨k, by simp, hkt.trans hdt.symm⟩
        · exact ⟨d, by simp [hd, hdt], rfl⟩

theorem thins_get (f : Flat) (now : Nat) (text : String) : Thins f (f.get now text).2 := by
  have h := f.thins_lookup now text
  rw [get]
  split <;> next hl => rw [hl] at h; exact h.trans (.of_eq rfl rfl)

theorem thins_purge (f : Flat) (now : Nat) : Thins f (f.purge now).2 := by
  by_cases h : f.kept.filter (·.isExpired f.limits.maxAge now) = []
  · have hall : f.kept.filter (fun k => !k.isExpired f.limits.maxAge now) = f.kept := by
      rw [List.filter_eq_self]
      simpa using List.filter_eq_nil_iff.mp h
    exact .of_eq hall (by simp [purge, losses, h])
  · have hpos := List.length_pos_iff.mpr h
    exact .of_losses_lt (List.filter_subset_self _) (by simp only [purge, losses]; omega)

theorem thins_evict (f : Flat) (n : Nat) : Thins f (f.evict n) := by
  cases n with
  | zero => exact .of_eq rfl rfl
  | succ n => exact .of_losses_lt (List.drop_subset _ _) (by simp only [evict, losses]; omega)

theorem thins_fit (f : Flat) (now : Nat) : Thins f (f.fit now) := by
  rw [fit]
  split
  · exact (f.thins_purge now).trans (thins_evict _ _)
  · exact .of_eq rfl rfl

theorem mem_of_lookup (h : f.lookup now text = (some p, f')) :
    ∃ k ∈ f.kept, k.text = text ∧ k.parse = p := by
  rw [lookup] at h
  cases hf : f.kept.find? (·.text = text) with
  | none => simp [hf] at h
  | some k =>
    simp only [hf] at h
    split at h
    · cases h
    · cases h
      exact ⟨k, List.mem_of_find?_eq_some hf, by simpa using List.find?_some hf, rfl⟩

theorem mem_of_get (h : f.get now text = (some p, f')) :
    ∃ k ∈ f.kept, k.text = text ∧ k.parse = p := by
  rw [get] at h
  split at h
  · next hl =>
    cases h
    exact mem_of_lookup hl
  · cases h

theorem not_has_of_lookup (h : f.lookup now text = (none, f')) : ¬ f'.Has text := by
  rintro ⟨k, hk, ht⟩
  have hg : f.get now text = (none, { f' with stats :=
      { f'.stats with misses := f'.stats.misses + 1 } }) := by
    rw [get, h]
  exact Flat.notMem_of_get hg k hk ht

def tally (f : Flat) : Nat × Nat :=
  (f.stats.hits + f.stats.misses, f.stats.parses)

theorem tally_lookup (f : Flat) (now : Nat) (text : String) :
    (f.lookup now text).2.tally = f.tally := by
  rw [lookup]
  split
  · rfl
  · split <;> rfl

theorem tally_get (f : Flat) (now : Nat) (text : String) :
    (f.get now text).2.tally = (f.tally.1 + 1, f.tally.2) := by
  have h := f.tally_lookup now text
  rw [get]
  split <;> next hl =>
    rw [hl] at h
    simp only [tally, Prod.mk.injEq] at h ⊢
    omega

theorem tally_parse (f : Flat) (text : String) :
    (f.parse text).2.tally = (f.tally.1, f.tally.2 + 1) := by
  rw [parse]
  split <;> rfl

theorem tally_fit (f : Flat) (now : Nat) : (f.fit now).tally = f.tally := by
  rw [fit]
  split <;> rfl

end Flat

end Spintax.Cache
