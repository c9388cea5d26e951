namespace Spintax.Entries

variable {α β : Type} [DecidableEq α]

/-- Set the value of a key. A new key goes to the end. -/
def set (k : α) (v : β) : List (α × β) → List (α × β)
  | [] => [(k, v)]
  | e :: es => if e.1 = k then (k, v) :: es else e :: set k v es

theorem lookup_cons (k : α) (e : α × β) (es : List (α × β)) :
    (e :: es).lookup k = if k = e.1 then some e.2 else es.lookup k := by
  obtain ⟨a, b⟩ := e
  rw [List.lookup_cons]
  by_cases h : k = a
  · subst h
    simp
  · have hb : (k == a) = false := by simpa using h
    simp [hb, h]

theorem lookup_set (k k' : α) (v : β) (es : List (α × β)) :
    (set k v es).lookup k' = if k' = k then some v else es.lookup k' := by
  induction es with
  | nil => simp [set, lookup_cons, List.lookup_nil]
  | cons e es ih =>
    by_cases he : e.1 = k
    · subst he
      by_cases h : k' = e.1 <;> simp [set, lookup_cons, h]
    · have hset : set k v (e :: es) = e :: set k v es := by simp [set, he]
      rw [hset, lookup_cons, lookup_cons, ih]
      by_cases h : k' = e.1
      · have : k' ≠ k := fun hk => he (h.symm.trans hk)
        simp [h, he]
      · simp [h]

theorem lookup_eq_some_iff_mem {k : α} {v : β} {es : List (α × β)}
    (h : (es.map Prod.fst).Nodup) : es.lookup k = some v ↔ (k, v) ∈ es := by
  induction es with
  | nil => simp [List.lookup_nil]
  | cons e es ih =>
    rw [List.map_cons, List.nodup_cons] at h
    rw [lookup_cons, List.mem_cons]
    by_cases hk : k = e.1
    · have hnot : (k, v) ∉ es := fun hm => h.1 (hk ▸ List.mem_map_of_mem hm)
      rw [if_pos hk, or_iff_left hnot, Option.some.injEq, hk]
      exact ⟨fun hv => by rw [← hv], fun he => by rw [← he]⟩
    · have hne : (k, v) ≠ e := fun he => hk (by rw [← he])
      rw [if_neg hk, ih h.2, or_iff_right hne]

end Spintax.Entries
