import Mathlib.Data.List.Nodup
import Spintax.Proofs.Cache.Turns

namespace Spintax.Cache.Crowd

variable {w w' : Crowd} {now i j k : Nat} {x y : String} {s s' : Stage} {r : Outcome}

/-- The slots are those of the callers between claim and release, one for each text. -/
structure Slotted (w : Crowd) : Prop where
  held : ∀ x k, (x, k) ∈ w.slots ↔ ∃ i s, w.At i x s ∧ s.slot? = some k
  texts : (w.slots.map Prod.fst).Nodup

def Served (w : Crowd) (x : String) (k : Nat) : Prop :=
  (∃ j s, w.At j x s ∧ s.leads? = some k) ∨ ∃ r, (k, r) ∈ w.published

/-- A flight has one leader as long as its outcome is not published, and nobody waits in
vain. -/
structure Led (w : Crowd) : Prop where
  leader : ∀ i j x y s s' k, w.At i x s → w.At j y s' → s.leads? = some k →
    s'.leads? = some k → i = j
  fresh : ∀ i x s k, w.At i x s → s.leads? = some k → k < w.flights ∧ ∀ r, (k, r) ∉ w.published
  past : ∀ k r, (k, r) ∈ w.published → k < w.flights
  once : (w.published.map Prod.fst).Nodup
  served : ∀ i x k, w.At i x (.waiting k) → w.Served x k

structure Orderly (w : Crowd) : Prop extends Slotted w, Led w

theorem leads_of_slot (h : s.slot? = some k) : s.leads? = some k := by
  cases s with
  | leading | parsing | keeping | releasing => exact h
  | asking | missed | waiting | publishing | answered => cases h

theorem at_start {c : Cache} {texts : List String} (h : (start c texts).At i x s) :
    s = .asking ∧ texts[i]? = some x := by
  simp only [At, start, List.getElem?_map, Option.map_eq_some_iff] at h
  obtain ⟨y, hy, h⟩ := h
  cases h
  exact ⟨rfl, hy⟩

theorem start_orderly (c : Cache) (texts : List String) : (start c texts).Orderly where
  held x k := by
    refine ⟨fun h => absurd h (List.not_mem_nil), ?_⟩
    rintro ⟨i, s, hi, hk⟩
    cases (at_start hi).1
    cases hk
  texts := List.nodup_nil
  leader i j x y s s' k hi _ hk := by
    cases (at_start hi).1
    cases hk
  fresh i x s k hi hk := by
    cases (at_start hi).1
    cases hk
  past k r h := absurd h (List.not_mem_nil)
  once := List.nodup_nil
  served i x k hi := by cases (at_start hi).1

theorem Orderly.holder_unique (h : w.Orderly) {l : Nat} (hi : w.At i x s) (hj : w.At j x s')
    (hk : s.slot? = some k) (hl : s'.slot? = some l) : i = j := by
  have hik := (h.held x k).mpr ⟨i, s, hi, hk⟩
  have hjl := (h.held x l).mpr ⟨j, s', hj, hl⟩
  have hkl : (x, k) = (x, l) := List.inj_on_of_nodup_map h.texts hik hjl rfl
  cases hkl
  exact h.leader i j x x s s' k hi hj (leads_of_slot hk) (leads_of_slot hl)

namespace Turn

variable (ht : Turn w now x s w' s') (hi : w.At i x s)

include ht hi

theorem at_iff {α : Type} {g : Stage → α} {a : α} (hg : g s' = g s) :
    (∃ s₁, (w'.move i s').At j y s₁ ∧ g s₁ = a) ↔ ∃ s₁, w.At j y s₁ ∧ g s₁ = a := by
  constructor
  · rintro ⟨s₁, hj, ha⟩
    obtain ⟨rfl, rfl, rfl⟩ | ⟨-, hj⟩ := (ht.at_move hi).mp hj
    · exact ⟨s, hi, hg.symm.trans ha⟩
    · exact ⟨s₁, hj, ha⟩
  · rintro ⟨s₁, hj, ha⟩
    by_cases hji : j = i
    · subst hji
      cases hi.symm.trans hj
      exact ⟨s', (ht.at_move hi).mpr (.inl ⟨rfl, rfl, rfl⟩), hg.trans ha⟩
    · exact ⟨s₁, (ht.at_move hi).mpr (.inr ⟨hji, hj⟩), ha⟩

theorem slotted (h : w.Slotted) (hslots : w'.slots = w.slots) (hs : s'.slot? = s.slot?) :
    (w'.move i s').Slotted where
  held y k := by
    rw [move, hslots, h.held]
    exact exists_congr fun j => (ht.at_iff hi hs).symm
  texts := by
    rw [move, hslots]
    exact h.texts

theorem led (h : w.Led) (hpub : w'.published = w.published) (hfl : w'.flights = w.flights)
    (hs : s'.leads? = s.leads?) (hw : ∀ k, s' = .waiting k → w.Served x k) :
    (w'.move i s').Led where
  leader a b y z s₁ s₂ k ha hb hka hkb := by
    obtain ⟨s₃, ha, hka⟩ := (ht.at_iff hi hs).mp ⟨s₁, ha, hka⟩
    obtain ⟨s₄, hb, hkb⟩ := (ht.at_iff hi hs).mp ⟨s₂, hb, hkb⟩
    exact h.leader a b y z s₃ s₄ k ha hb hka hkb
  fresh a y s₁ k ha hk := by
    obtain ⟨s₂, ha, hk⟩ := (ht.at_iff hi hs).mp ⟨s₁, ha, hk⟩
    rw [move, hfl, hpub]
    exact h.fresh a y s₂ k ha hk
  past := by
    rw [move, hfl, hpub]
    exact h.past
  once := by
    rw [move, hpub]
    exact h.once
  served a y k ha := by
    have hserved : w.Served y k := by
      obtain ⟨rfl, rfl, rfl⟩ | ⟨-, ha⟩ := (ht.at_move hi).mp ha
      · exact hw k rfl
      · exact h.served a y k ha
    rw [Served, move, hpub]
    refine hserved.imp_left ?_
    rintro ⟨j, hj⟩
    exact ⟨j, (ht.at_iff hi hs).mpr hj⟩

end Turn

theorem ne_of_leads (hi : w.At i x .missed) (hj : w.At j y s) (hs : s.leads? = some k) :
    j ≠ i := by
  rintro rfl
  cases hi.symm.trans hj
  cases hs

theorem Slotted.claim (h : w.Slotted) (hi : w.At i x .missed) (hl : w.slots.lookup x = none) :
    ({ w with slots := (x, w.flights) :: w.slots, flights := w.flights + 1 }.move i
      (.leading w.flights)).Slotted where
  held y k := by
    have ht : Turn w 0 x .missed _ _ := .claim hl
    constructor
    · intro hs
      obtain hs | hs := List.mem_cons.mp hs
      · cases hs
        exact ⟨i, _, (ht.at_move hi).mpr (.inl ⟨rfl, rfl, rfl⟩), rfl⟩
      · obtain ⟨j, s₁, hj, hk⟩ := (h.held y k).mp hs
        have hji := ne_of_leads hi hj (leads_of_slot hk)
        exact ⟨j, s₁, (ht.at_move hi).mpr (.inr ⟨hji, hj⟩), hk⟩
    · rintro ⟨j, s₁, hj, hk⟩
      obtain ⟨rfl, rfl, rfl⟩ | ⟨-, hj⟩ := (ht.at_move hi).mp hj
      · cases hk
        exact List.mem_cons_self
      · exact List.mem_cons_of_mem _ ((h.held y k).mpr ⟨j, s₁, hj, hk⟩)
  texts := by
    refine List.nodup_cons.mpr ⟨fun hm => ?_, h.texts⟩
    obtain ⟨⟨y, k⟩, hs, rfl⟩ := List.mem_map.mp hm
    simpa using List.lookup_eq_none_iff.mp hl _ hs

theorem Led.claim (h : w.Led) (hi : w.At i x .missed) (hl : w.slots.lookup x = none) :
    ({ w with slots := (x, w.flights) :: w.slots, flights := w.flights + 1 }.move i
      (.leading w.flights)).Led where
  leader a b y z s₁ s₂ k ha hb hka hkb := by
    have ht : Turn w 0 x .missed _ _ := .claim hl
    obtain ⟨rfl, rfl, rfl⟩ | ⟨-, ha'⟩ := (ht.at_move hi).mp ha <;>
      obtain ⟨rfl, rfl, rfl⟩ | ⟨-, hb'⟩ := (ht.at_move hi).mp hb
    · rfl
    · cases hka
      exact absurd (h.fresh b z s₂ _ hb' hkb).1 (Nat.lt_irrefl _)
    · cases hkb
      exact absurd (h.fresh a y s₁ _ ha' hka).1 (Nat.lt_irrefl _)
    · exact h.leader a b y z s₁ s₂ k ha' hb' hka hkb
  fresh a y s₁ k ha hk := by
    have ht : Turn w 0 x .missed _ _ := .claim hl
    obtain ⟨rfl, rfl, rfl⟩ | ⟨-, ha⟩ := (ht.at_move hi).mp ha
    · cases hk
      exact ⟨Nat.lt_succ_self _, fun r hr => Nat.lt_irrefl _ (h.past _ r hr)⟩
    · obtain ⟨hlt, hr⟩ := h.fresh a y s₁ k ha hk
      exact ⟨Nat.lt_succ_of_lt hlt, hr⟩
  past k r hr := Nat.lt_succ_of_lt (h.past k r hr)
  once := h.once
  served a y k ha := by
    have ht : Turn w 0 x .missed _ _ := .claim hl
    obtain ⟨-, -, hs⟩ | ⟨-, ha⟩ := (ht.at_move hi).mp ha
    · cases hs
    · refine (h.served a y k ha).imp_left ?_
      rintro ⟨j, s₁, hj, hk⟩
      exact ⟨j, s₁, (ht.at_move hi).mpr (.inr ⟨ne_of_leads hi hj hk, hj⟩), hk⟩

theorem Led.publish (h : w.Led) (hi : w.At i x (.publishing k r)) :
    ({ w with published := (k, r) :: w.published }.move i (.answered r)).Led where
  leader a b y z s₁ s₂ l ha hb hla hlb := by
    have ht : Turn w 0 x (.publishing k r) _ _ := .publish
    obtain ⟨-, -, rfl⟩ | ⟨-, ha⟩ := (ht.at_move hi).mp ha
    · cases hla
    obtain ⟨-, -, rfl⟩ | ⟨-, hb⟩ := (ht.at_move hi).mp hb
    · cases hlb
    exact h.leader a b y z s₁ s₂ l ha hb hla hlb
  fresh a y s₁ l ha hl := by
    have ht : Turn w 0 x (.publishing k r) _ _ := .publish
    obtain ⟨-, -, rfl⟩ | ⟨hai, ha⟩ := (ht.at_move hi).mp ha
    · cases hl
    obtain ⟨hlt, hfresh⟩ := h.fresh a y s₁ l ha hl
    refine ⟨hlt, fun r' hr => ?_⟩
    obtain hr | hr := List.mem_cons.mp hr
    · cases hr
      exact hai (h.leader a i y x s₁ _ k ha hi hl rfl)
    · exact hfresh r' hr
  past l r' hr := by
    obtain hr | hr := List.mem_cons.mp hr
    · cases hr
      exact (h.fresh i x _ k hi rfl).1
    · exact h.past l r' hr
  once := by
    refine List.nodup_cons.mpr ⟨fun hm => ?_, h.once⟩
    obtain ⟨⟨l, r'⟩, hr, rfl⟩ := List.mem_map.mp hm
    exact (h.fresh i x _ l hi rfl).2 r' hr
  served a y l ha := by
    have ht : Turn w 0 x (.publishing k r) _ _ := .publish
    obtain ⟨-, -, hs⟩ | ⟨-, ha⟩ := (ht.at_move hi).mp ha
    · cases hs
    obtain ⟨j, s₁, hj, hl⟩ | ⟨r', hr⟩ := h.served a y l ha
    · by_cases hji : j = i
      · subst hji
        cases hi.symm.trans hj
        cases hl
        exact .inr ⟨r, List.mem_cons_self⟩
      · exact .inl ⟨j, s₁, (ht.at_move hi).mpr (.inr ⟨hji, hj⟩), hl⟩
    · exact .inr ⟨r', List.mem_cons_of_mem _ hr⟩

namespace Orderly

theorem release (h : w.Orderly) (hi : w.At i x (.releasing k r)) :
    ({ w with slots := w.slots.filter (· ≠ (x, k)) }.move i (.publishing k r)).Orderly := by
  have ht : Turn w 0 x (.releasing k r) _ _ := .release
  refine ⟨⟨fun y l => ⟨fun hs => ?_, ?_⟩, h.texts.sublist (List.filter_sublist.map _)⟩,
    ht.led hi h.toLed rfl rfl rfl (fun _ hw => by cases hw)⟩
  · obtain ⟨hs, hne⟩ := List.mem_filter.mp hs
    obtain ⟨j, s₁, hj, hl⟩ := (h.held y l).mp hs
    have hji : j ≠ i := by
      rintro rfl
      cases hi.symm.trans hj
      cases hl
      simp at hne
    exact ⟨j, s₁, (ht.at_move hi).mpr (.inr ⟨hji, hj⟩), hl⟩
  · rintro ⟨j, s₁, hj, hl⟩
    obtain ⟨-, -, rfl⟩ | ⟨hji, hj⟩ := (ht.at_move hi).mp hj
    · cases hl
    · refine List.mem_filter.mpr ⟨(h.held y l).mpr ⟨j, s₁, hj, hl⟩, ?_⟩
      rw [decide_eq_true_eq]
      rintro ⟨⟩
      exact hji (h.leader j i x x s₁ _ k hj hi (leads_of_slot hl) rfl)

theorem led_of_lookup (h : w.Orderly) (hl : w.slots.lookup x = some k) :
    ∃ j s, w.At j x s ∧ s.leads? = some k := by
  obtain ⟨l₁, l₂, hs, -⟩ := List.lookup_eq_some_iff.mp hl
  obtain ⟨j, s₁, hj, hk⟩ := (h.held x k).mp (by simp [hs])
  exact ⟨j, s₁, hj, leads_of_slot hk⟩

theorem turn (h : w.Orderly) (ht : Turn w now x s w' s') (hi : w.At i x s) :
    (w'.move i s').Orderly := by
  have hquiet : w'.slots = w.slots → w'.published = w.published → w'.flights = w.flights →
      s'.slot? = s.slot? → s'.leads? = s.leads? → (∀ k, s' = .waiting k → w.Served x k) →
      (w'.move i s').Orderly := fun hs hp hf hsl hl hw =>
    ⟨ht.slotted hi h.toSlotted hs hsl, ht.led hi h.toLed hp hf hl hw⟩
  cases ht with
  | claim hl => exact ⟨h.toSlotted.claim hi hl, h.toLed.claim hi hl⟩
  | release => exact h.release hi
  | @publish k r =>
    have ht : Turn w now x (.publishing k r) _ _ := .publish
    exact ⟨ht.slotted hi h.toSlotted rfl rfl, h.toLed.publish hi⟩
  | @join k hl =>
    refine hquiet rfl rfl rfl rfl rfl ?_
    rintro _ ⟨⟩
    exact .inl (h.led_of_lookup hl)
  | hit | miss | receive | find | lack | parse | reject | keep =>
    exact hquiet rfl rfl rfl rfl rfl (fun _ hw => by cases hw)

theorem cache (h : w.Orderly) (c : Cache) : { w with cache := c }.Orderly :=
  ⟨⟨h.held, h.texts⟩, h.leader, h.fresh, h.past, h.once, h.served⟩

theorem after (h : w.Orderly) (e : Event) : (w.after e).Orderly := by
  cases e with
  | call now i =>
    rw [Crowd.after]
    cases hs : w.step now i with
    | none => exact h
    | some w' =>
      obtain ⟨x, s, w₁, s', hi, ht, rfl⟩ := turn_of_step hs
      exact h.turn ht hi
  | purge | clear | reorder => exact h.cache _

theorem follow (h : w.Orderly) (es : List Event) : (w.follow es).Orderly := by
  induction es generalizing w with
  | nil => exact h
  | cons e es ih => exact ih (h.after e)

end Orderly

def Aboard (w : Crowd) (i : Nat) (x : String) (k : Nat) : Prop :=
  (∃ s, w.At i x s ∧ s.flight? = some k) ∨
    ∃ r, w.At i x (.answered r) ∧ w.published.lookup k = some r

theorem Turn.lookup_published (ho : w.Orderly) (ht : Turn w now x s w' s') (hi : w.At i x s)
    (hr : w.published.lookup k = some r) : w'.published.lookup k = some r := by
  cases ht with
  | @publish l r' =>
    have hkl : k ≠ l := by
      rintro rfl
      obtain ⟨l₁, l₂, hl, -⟩ := List.lookup_eq_some_iff.mp hr
      exact (ho.fresh i x _ k hi rfl).2 r (by simp [hl])
    rw [Entries.lookup_cons, if_neg hkl]
    exact hr
  | hit | miss | join | claim | receive | find | lack | parse | reject | keep | release =>
    exact hr

namespace Aboard

theorem turn (h : w.Aboard i x k) (ho : w.Orderly) (ht : Turn w now y s w' s')
    (hj : w.At j y s) : (w'.move j s').Aboard i x k := by
  obtain ⟨s₁, hi, hk⟩ | ⟨r, hi, hr⟩ := h
  · by_cases hij : i = j
    · subst hij
      cases hj.symm.trans hi
      have hnew : (w'.move i s').At i x s' := (ht.at_move hj).mpr (.inl ⟨rfl, rfl, rfl⟩)
      cases ht with
      | receive hl =>
        cases hk
        exact .inr ⟨_, hnew, hl⟩
      | publish =>
        cases hk
        refine .inr ⟨_, hnew, ?_⟩
        exact (Entries.lookup_cons _ _ _).trans (if_pos rfl)
      | find | lack | parse | reject | keep | release => exact .inl ⟨_, hnew, hk⟩
      | hit | miss | join | claim => cases hk
    · exact .inl ⟨s₁, (ht.at_move hj).mpr (.inr ⟨hij, hi⟩), hk⟩
  · by_cases hij : i = j
    · subst hij
      cases hj.symm.trans hi
      cases ht
    · have hl : w'.published.lookup k = some r := ht.lookup_published ho hj hr
      exact .inr ⟨r, (ht.at_move hj).mpr (.inr ⟨hij, hi⟩), hl⟩

theorem follow (h : w.Aboard i x k) (ho : w.Orderly) (es : List Event) :
    (w.follow es).Aboard i x k := by
  induction es generalizing w with
  | nil => exact h
  | cons e es ih =>
    refine ih ?_ (ho.after e)
    cases e with
    | call now j =>
      rw [Crowd.after]
      cases hs : w.step now j with
      | none => exact h
      | some w' =>
        obtain ⟨y, s, w₁, s', hj, ht, rfl⟩ := turn_of_step hs
        exact h.turn ho ht hj
    | purge | clear | reorder => exact h

end Aboard

theorem step_ne_none (hi : w.At i x s) (hw : ∀ k, s = .waiting k → w.published.lookup k ≠ none)
    (ha : ∀ r, s ≠ .answered r) : w.step now i ≠ none := by
  have hstep : w.step now i = w.stepFrom now i x s := by
    rw [step, show w.callers[i]? = _ from hi]
  rw [hstep]
  cases s with
  | waiting k =>
    rw [stepFrom, ne_eq, Option.map_eq_none_iff]
    exact hw k rfl
  | answered r => exact absurd rfl (ha r)
  | asking | missed | leading | parsing =>
    simp only [stepFrom]
    split <;> simp
  | keeping | releasing | publishing => simp [stepFrom]

/-- Somebody can go on as long as somebody has no answer. -/
theorem Orderly.complete_or_step (h : w.Orderly) :
    w.Complete ∨ ∃ i, ∀ now, w.step now i ≠ none := by
  by_contra hno
  rw [not_or, not_exists] at hno
  obtain ⟨hc, hstuck⟩ := hno
  have hwait : ∀ j y s, w.At j y s → (∀ r, s ≠ .answered r) →
      ∃ k, s = .waiting k ∧ w.published.lookup k = none := by
    intro j y s hj ha
    by_contra hk
    refine hstuck j fun now => step_ne_none hj (fun k hs hl => hk ⟨k, hs, hl⟩) ha
  apply hc
  intro i x s hi
  by_contra ha
  obtain ⟨k, rfl, hl⟩ := hwait i x s hi fun r hs => ha ⟨r, hs⟩
  obtain ⟨j, s₁, hj, hk⟩ | ⟨r, hr⟩ := h.served i x k hi
  · obtain ⟨l, rfl, -⟩ := hwait j x s₁ hj (by rintro r rfl; cases hk)
    cases hk
  · simpa using List.lookup_eq_none_iff.mp hl _ hr

end Spintax.Cache.Crowd
