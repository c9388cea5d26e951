import Mathlib.Data.List.Nodup
import Spintax.Campaign.Tally
import Spintax.Entries

namespace Spintax

variable {c d e : Choice} {n : Nat} {es fs : List (Choice × Nat)} {t u : Tally}

namespace Choice

theorem before_iff :
    c.before d = true ↔ c.group < d.group ∨ c.group = d.group ∧ c.branch < d.branch := by
  simp [before]

theorem before_trans (h : c.before d = true) (h' : d.before e = true) : c.before e = true := by
  rw [before_iff] at h h' ⊢
  omega

theorem ne_of_before (h : c.before d = true) : c ≠ d := by
  rintro rfl
  rw [before_iff] at h
  omega

theorem before_or_before (h : c ≠ d) : c.before d = true ∨ d.before c = true := by
  obtain ⟨g, b⟩ := c
  obtain ⟨g', b'⟩ := d
  rw [Ne, Choice.mk.injEq] at h
  simp only [before_iff]
  omega

end Choice

namespace Tally

structure Ordered (es : List (Choice × Nat)) : Prop where
  ascending : es.Pairwise (·.1.before ·.1)
  positive : ∀ e ∈ es, 0 < e.2

theorem Ordered.nodup (h : Ordered es) : (es.map Prod.fst).Nodup := by
  rw [List.Nodup, List.pairwise_map]
  exact h.ascending.imp Choice.ne_of_before

theorem Ordered.tail {p : Choice × Nat} (h : Ordered (p :: es)) : Ordered es where
  ascending := h.ascending.of_cons
  positive e he := h.positive e (List.mem_cons_of_mem p he)

theorem Ordered.mem_iff (h : Ordered es) : (c, n) ∈ es ↔ 0 < n ∧ (es.lookup c).getD 0 = n := by
  rw [← Entries.lookup_eq_some_iff_mem h.nodup]
  cases hl : es.lookup c with
  | none =>
    simp only [reduceCtorEq, Option.getD_none, false_iff]
    omega
  | some m =>
    have hpos := h.positive _ ((Entries.lookup_eq_some_iff_mem h.nodup).mp hl)
    simp only [Option.some.injEq, Option.getD_some]
    constructor
    · rintro rfl
      exact ⟨hpos, rfl⟩
    · exact fun h => h.2

theorem Ordered.ext (h : Ordered es) (h' : Ordered fs)
    (hc : ∀ c, (es.lookup c).getD 0 = (fs.lookup c).getD 0) : es = fs := by
  have hmem : ∀ e, e ∈ es ↔ e ∈ fs := by
    rintro ⟨c, n⟩
    rw [h.mem_iff, h'.mem_iff, hc]
  have hperm : es.Perm fs :=
    (List.perm_ext_iff_of_nodup h.nodup.of_map h'.nodup.of_map).mpr hmem
  refine hperm.eq_of_pairwise ?_ h.ascending h'.ascending
  intro d e _ _ hde hed
  exact absurd rfl (Choice.ne_of_before (Choice.before_trans hde hed))

theorem mem_addTo {p : Choice × Nat} (h : p ∈ addTo c n es) :
    p.1 = c ∧ n ≤ p.2 ∨ p ∈ es := by
  induction es with
  | nil => simp_all [addTo]
  | cons e es ih =>
    rw [addTo] at h
    split at h
    · obtain rfl | h := List.mem_cons.mp h
      · exact .inl ⟨rfl, Nat.le_add_left n e.2⟩
      · exact .inr (List.mem_cons_of_mem e h)
    · split at h
      · obtain rfl | h := List.mem_cons.mp h
        · exact .inl ⟨rfl, Nat.le_refl n⟩
        · exact .inr h
      · obtain rfl | h := List.mem_cons.mp h
        · exact .inr List.mem_cons_self
        · exact (ih h).imp_right (List.mem_cons_of_mem e)

theorem Ordered.addTo (h : Ordered es) (c : Choice) (hn : 0 < n) : Ordered (addTo c n es) where
  ascending := by
    induction es with
    | nil => exact List.pairwise_singleton _ _
    | cons e es ih =>
      have he := List.pairwise_cons.mp h.ascending
      rw [Tally.addTo]
      split
      · next hce =>
        subst hce
        exact List.pairwise_cons.mpr he
      · next hce =>
        split
        · next hbefore =>
          refine List.pairwise_cons.mpr ⟨fun p hp => ?_, h.ascending⟩
          obtain rfl | hp := List.mem_cons.mp hp
          · exact hbefore
          · exact Choice.before_trans hbefore (he.1 p hp)
        · next hbefore =>
          refine List.pairwise_cons.mpr ⟨fun p hp => ?_, ih h.tail⟩
          obtain ⟨rfl, -⟩ | hp := mem_addTo hp
          · exact (Choice.before_or_before hce).resolve_left hbefore
          · exact he.1 p hp
  positive p hp := by
    obtain ⟨-, hle⟩ | hp := mem_addTo hp
    · exact Nat.lt_of_lt_of_le hn hle
    · exact h.positive p hp

theorem Ordered.lookup_addTo (h : Ordered es) (c d : Choice) (n : Nat) :
    ((Tally.addTo c n es).lookup d).getD 0 =
      (es.lookup d).getD 0 + if d = c then n else 0 := by
  induction es with
  | nil =>
    rw [Tally.addTo, Entries.lookup_cons, List.lookup_nil]
    split <;> simp
  | cons e es ih =>
    rw [Tally.addTo]
    by_cases hce : c = e.1
    · rw [if_pos hce, Entries.lookup_cons, Entries.lookup_cons, hce]
      by_cases hd : d = e.1 <;> simp [hd]
    · rw [if_neg hce]
      split
      · next hbefore =>
        have hnone : (e :: es).lookup c = none := by
          rw [List.lookup_eq_none_iff]
          intro p hp
          have hcp : c.before p.1 = true := by
            obtain rfl | hp := List.mem_cons.mp hp
            · exact hbefore
            · exact Choice.before_trans hbefore ((List.pairwise_cons.mp h.ascending).1 p hp)
          simpa using Choice.ne_of_before hcp
        rw [Entries.lookup_cons]
        by_cases hd : d = c
        · simp [hd, hnone]
        · simp [hd]
      · rw [Entries.lookup_cons, Entries.lookup_cons]
        by_cases hd : d = e.1
        · have hdc : d ≠ c := fun hdc => hce (hdc.symm.trans hd)
          simp only [if_pos hd, if_neg hdc, Nat.add_zero]
        · rw [if_neg hd, if_neg hd]
          exact ih h.tail

theorem ordered_empty : Ordered Tally.empty.entries :=
  ⟨List.Pairwise.nil, by simp [Tally.empty]⟩

theorem ordered_addAll (h : Ordered t.entries) (cs : List Choice) :
    Ordered (t.addAll cs).entries := by
  induction cs generalizing t with
  | nil => exact h
  | cons c cs ih => exact ih (t := t.add c 1) (h.addTo c Nat.one_pos)

theorem count_addAll (h : Ordered t.entries) (cs : List Choice) (c : Choice) :
    (t.addAll cs).count c = t.count c + cs.count c := by
  induction cs generalizing t with
  | nil => rfl
  | cons d cs ih =>
    have hadd : (t.add d 1).count c = t.count c + if c = d then 1 else 0 :=
      h.lookup_addTo d c 1
    have hrest := ih (t := t.add d 1) (h.addTo d Nat.one_pos)
    rw [addAll, List.foldl_cons, ← addAll, hrest, hadd, List.count_cons]
    by_cases hcd : c = d
    · simp [hcd]
      omega
    · simp [hcd, Ne.symm hcd]

theorem ordered_merge (h : Ordered t.entries) (hu : Ordered u.entries) :
    Ordered (t.merge u).entries := by
  obtain ⟨es⟩ := u
  induction es generalizing t with
  | nil => exact h
  | cons e es ih =>
    exact ih (t := t.add e.1 e.2) (h.addTo e.1 (hu.positive e List.mem_cons_self)) hu.tail

theorem count_merge (h : Ordered t.entries) (hu : Ordered u.entries) (c : Choice) :
    (t.merge u).count c = t.count c + u.count c := by
  obtain ⟨es⟩ := u
  induction es generalizing t with
  | nil => rfl
  | cons e es ih =>
    have hadd : (t.add e.1 e.2).count c = t.count c + if c = e.1 then e.2 else 0 :=
      h.lookup_addTo e.1 c e.2
    have hrest := ih (t := t.add e.1 e.2) (h.addTo e.1 (hu.positive e List.mem_cons_self)) hu.tail
    have hmerge : t.merge ⟨e :: es⟩ = (t.add e.1 e.2).merge ⟨es⟩ := rfl
    rw [hmerge, hrest, hadd, count, count, count, Entries.lookup_cons]
    by_cases hc : c = e.1
    · have hnone : es.lookup c = none := by
        rw [List.lookup_eq_none_iff]
        intro p hp
        rw [hc]
        simpa using Choice.ne_of_before ((List.pairwise_cons.mp hu.ascending).1 p hp)
      simp only [hnone, if_pos hc, Option.getD_none, Option.getD_some, Nat.add_zero]
    · simp [hc]

end Tally

end Spintax
