import Mathlib
import Spintax.Config.Key

namespace Spintax

namespace Entries

variable {α β : Type} [DecidableEq α] {k : α} {v : β} {es : List (α × β)}

theorem mem_names_set {n : α} : n ∈ (set k v es).map Prod.fst ↔ n = k ∨ n ∈ es.map Prod.fst := by
  induction es with
  | nil => simp [set]
  | cons e es ih =>
    rw [set]
    split
    · next he => simp [← he]
    · rw [List.map_cons, List.mem_cons, ih, List.map_cons, List.mem_cons, or_left_comm]

theorem nodup_set (h : (es.map Prod.fst).Nodup) : ((set k v es).map Prod.fst).Nodup := by
  induction es with
  | nil => exact List.nodup_singleton k
  | cons e es ih =>
    rw [List.map_cons, List.nodup_cons] at h
    rw [set]
    split
    · next he => rwa [List.map_cons, List.nodup_cons, ← he]
    · next he =>
      rw [List.map_cons, List.nodup_cons, mem_names_set, not_or]
      exact ⟨⟨he, h.1⟩, ih h.2⟩

theorem flatMap_eq_of_nodup {γ : Type} (h : (es.map Prod.fst).Nodup) (f : β → List γ) :
    (es.flatMap fun e => if e.1 = k then f e.2 else []) = (es.lookup k).elim [] f := by
  induction es with
  | nil => rfl
  | cons e es ih =>
    rw [List.map_cons, List.nodup_cons] at h
    rw [List.flatMap_cons, lookup_cons]
    by_cases he : k = e.1
    · subst he
      have hnone : (es.flatMap fun d => if d.1 = e.1 then f d.2 else []) = [] := by
        refine List.flatMap_eq_nil_iff.mpr fun d hd => if_neg fun hde => h.1 ?_
        exact hde ▸ List.mem_map_of_mem hd
      rw [if_pos rfl, if_pos rfl, hnone, List.append_nil]
      rfl
    · rw [if_neg (Ne.symm he), if_neg he, List.nil_append, ih h.2]

end Entries

theorem Text.toLower_toLower (c : Char) : c.toLower.toLower = c.toLower := by
  by_cases h : c.val ≥ 'A'.val ∧ c.val ≤ 'Z'.val
  · have hsmall : ¬ (c.toLower.val ≥ 'A'.val ∧ c.toLower.val ≤ 'Z'.val) := by
      have hval : c.toLower.val = c.val + ('a'.val - 'A'.val) := by
        rw [Char.toLower, dif_pos h]
      rw [hval]
      simp only [ge_iff_le, UInt32.le_iff_toNat_le, UInt32.toNat_add] at h ⊢
      simp at h ⊢
      omega
    exact dif_neg hsmall
  · have hself : c.toLower = c := dif_neg h
    rw [hself, hself]

namespace Config.Value

variable {v w : Value} {k n : String} {es : List (String × Value)}

theorem foldKey_foldKey (key : String) : foldKey (foldKey key) = foldKey key := by
  simp only [foldKey, Text.lower, String.map_map]
  congr 1
  funext c
  simp only [Function.comp_apply]
  by_cases hk : c.toLower = '\u212a'
  · rw [if_pos hk]
    decide
  · rw [if_neg hk, Text.toLower_toLower, if_neg hk]

theorem lookup_withEntry (v : Value) (k n : String) (w : Value) :
    Value.entry? (v.withEntry k w) n = if n = k then some w else v.entry? n :=
  Entries.lookup_set k n w v.entries

structure Tidy (v : Value) : Prop where
  nodup : (v.entries.map Prod.fst).Nodup
  folded : ∀ n ∈ v.entries.map Prod.fst, foldKey n = n

theorem Tidy.empty : Tidy (table []) where
  nodup := List.nodup_nil
  folded := by simp [entries]

theorem Tidy.withEntry (h : v.Tidy) (k : String) (w : Value) :
    (v.withEntry (foldKey k) w).Tidy where
  nodup := Entries.nodup_set h.nodup
  folded n hn := by
    obtain rfl | hn := Entries.mem_names_set.mp hn
    · exact foldKey_foldKey k
    · exact h.folded n hn

theorem Tidy.entriesOnto (h : v.Tidy) (es : List (String × Value)) :
    (Value.entriesOnto es v).Tidy := by
  induction es generalizing v with
  | nil => rwa [Value.entriesOnto]
  | cons e es ih =>
    rw [Value.entriesOnto]
    exact ih (h.withEntry _ _)

def isTable : Value → Bool
  | table _ => true
  | _ => false

theorem isTable_entriesOnto (h : v.isTable) (es : List (String × Value)) :
    (entriesOnto es v).isTable := by
  induction es generalizing v with
  | nil => rwa [entriesOnto]
  | cons e es ih =>
    rw [entriesOnto]
    exact ih rfl

def named (n : String) (es : List (String × Value)) : List Value :=
  (es.filter fun e => foldKey e.1 = n).map Prod.snd

theorem named_eq_flatMap (n : String) (es : List (String × Value)) :
    named n es = es.flatMap fun e => if foldKey e.1 = n then [e.2] else [] := by
  induction es with
  | nil => rfl
  | cons e es ih =>
    rw [List.flatMap_cons, ← ih, named, List.filter_cons]
    by_cases he : foldKey e.1 = n
    · rw [if_pos (decide_eq_true he), if_pos he]
      rfl
    · rw [if_neg (by simpa using he), if_neg he]
      rfl

theorem Tidy.named_eq (h : v.Tidy) (n : String) : named n v.entries = (v.entry? n).toList := by
  have hfolded : (v.entries.flatMap fun e => if foldKey e.1 = n then [e.2] else []) =
      v.entries.flatMap fun e => if e.1 = n then [e.2] else [] := by
    refine List.flatMap_congr fun e he => ?_
    rw [h.folded e.1 (List.mem_map_of_mem he)]
  rw [named_eq_flatMap, hfolded, Entries.flatMap_eq_of_nodup h.nodup fun w => [w], entry?]
  cases v.entries.lookup n <;> rfl

theorem onto_eq_of_not_isTable (h : ¬ v.isTable) (old : Option Value) : v.onto old = v := by
  rw [onto]
  rintro es rfl
  exact h rfl

theorem lookup_entriesOnto (h : ∀ w ∈ named n es, ¬ w.isTable) (v : Value) :
    Value.entry? (entriesOnto es v) n = (named n es).getLast?.or (v.entry? n) := by
  induction es generalizing v with
  | nil => rw [entriesOnto]; rfl
  | cons e es ih =>
    rw [entriesOnto]
    by_cases hn : foldKey e.1 = n
    · have hnamed : named n (e :: es) = e.2 :: named n es := by
        rw [named, List.filter_cons_of_pos (by simpa using hn)]
        rfl
      rw [hnamed, List.forall_mem_cons] at h
      rw [ih h.2, lookup_withEntry, if_pos hn.symm, onto_eq_of_not_isTable h.1, hnamed]
      cases hlast : (named n es).getLast? with
      | none => simp [List.getLast?_eq_none_iff.mp hlast]
      | some w => simp [List.getLast?_cons, hlast]
    · have hnamed : named n (e :: es) = named n es := by
        rw [named, List.filter_cons_of_neg (by simpa using hn)]
        rfl
      rw [hnamed] at h
      rw [ih h, lookup_withEntry, if_neg (Ne.symm hn), hnamed]

end Config.Value

end Spintax
