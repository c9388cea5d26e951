import Mathlib
import Spintax.Proofs.Cache.Outcomes
import Spintax.Proofs.Result

namespace Spintax.Cache.Crowd

variable {w w' : Crowd} {f f' : Flat} {now i j k : Nat} {x y : String} {s s' : Stage}
  {r : Outcome} {p : Parse} {log : List (String × Outcome)} {e : Event} {es : List Event}

def Brings : Stage → Prop
  | .parsing _ | .keeping _ _ => True
  | _ => False

theorem slot_of_brings (h : Brings s) : ∃ k, s.slot? = some k := by
  cases s with
  | parsing k | keeping k => exact ⟨k, rfl⟩
  | asking | missed | waiting | leading | releasing | publishing | answered => exact h.elim

/-- The crowd when its cache is seen as `f` and `log` are the parses done so far. -/
structure Accounted (log : List (String × Outcome)) (w : Crowd) (f : Flat) : Prop where
  orderly : w.Orderly
  refines : Refines w.cache f
  absent : ∀ i x s, w.At i x s → Brings s → ¬ f.Has x
  vouched : Vouched (fun x r => (x, r) ∈ log) w f
  honest : ∀ x r, (x, r) ∈ log → r.map Parse.template = Template.parse x
  parses : f.tally.2 = log.length
  asks : f.tally.1 + (w.callers.map (·.stage.asks)).sum = w.callers.length

/-- The crowd when nothing was lost so far. -/
structure Once (log : List (String × Outcome)) (w : Crowd) (f : Flat) : Prop where
  found : ∀ x p, (x, .ok p) ∈ log → f.Has x ∨ ∃ i k q, w.At i x (.keeping k q)
  single : ∀ x t, Template.parse x = .ok t → (log.filter (·.1 = x)).length ≤ 1

theorem start_accounted (limits : Limits) (fp : String → UInt32) (texts : List String) :
    Accounted [] (start (.empty limits fp) texts) (.empty limits) where
  orderly := start_orderly _ _
  refines := refines_empty limits fp
  absent i x s hi hs := by
    cases (at_start hi).1
    exact hs.elim
  vouched := by
    refine ⟨fun d hd => absurd hd List.not_mem_nil, fun i x s r hi hr => ?_, fun i x k r hi => ?_⟩
    · cases (at_start hi).1
      cases hr
    · cases (at_start hi).1
  honest x r h := absurd h List.not_mem_nil
  parses := rfl
  asks := by
    simp [start, Flat.tally, Flat.empty, Stats.zero, Stage.asks, Function.comp_def]

theorem parse_honest (c : Cache) (x : String) :
    (c.parse x).1.map Parse.template = Template.parse x := by
  rw [Cache.parse]
  split <;> next h => rw [h]; rfl

namespace Accounted

theorem absent_turn (h : Accounted log w f) (ht : Turn w now x s w' s') (hi : w.At i x s)
    (he : Effect w f f' x s s') : ∀ j y s₁, (w'.move i s').At j y s₁ → Brings s₁ → ¬ f'.Has y := by
  rintro j y s₁ hj hs ⟨d, hd, rfl⟩
  obtain ⟨rfl, hdx, rfl⟩ | ⟨hji, hj⟩ := (ht.at_move hi).mp hj
  · cases ht with
    | lack => exact he.lacks _ rfl ⟨d, hd, hdx⟩
    | parse =>
      obtain hd | ⟨-, k, hk⟩ := he.kept d hd
      · exact h.absent _ _ _ hi trivial ⟨d, hd, hdx⟩
      · cases hk
    | hit | miss | join | claim | receive | find | reject | keep | release | publish =>
      exact hs.elim
  · obtain hd | ⟨rfl, k, rfl⟩ := he.kept d hd
    · exact h.absent j _ s₁ hj hs ⟨d, hd, rfl⟩
    · obtain ⟨l, hl⟩ := slot_of_brings hs
      exact hji (h.orderly.holder_unique hj hi hl rfl)

theorem asks_turn (h : Accounted log w f) (ht : Turn w now x s w' s') (hi : w.At i x s)
    (he : Effect w f f' x s s') : f'.tally.1 + ((w'.move i s').callers.map (·.stage.asks)).sum =
      (w'.move i s').callers.length := by
  have hs' : s'.asks = 0 := by cases ht <;> rfl
  obtain ⟨l₁, l₂, hw, hw'⟩ := ht.split hi
  have hsum := h.asks
  rw [hw] at hsum
  rw [hw', he.tally]
  simp only [List.map_append, List.map_cons, List.sum_append, List.sum_cons, List.length_append,
    List.length_cons] at hsum ⊢
  omega

theorem turn (h : Accounted log w f) (ht : Turn w now x s w' s') (hi : w.At i x s)
    (hr : Refines w'.cache f') (he : Effect w f f' x s s') :
    Accounted (log ++ (w.parseOf? (.call now i)).toList) (w'.move i s') f' where
  orderly := h.orderly.turn ht hi
  refines := hr
  absent := h.absent_turn ht hi he
  vouched := by
    have hv := h.vouched.mono (Q := fun x r => (x, r) ∈ log ++ (w.parseOf? (.call now i)).toList)
      fun x r hr => List.mem_append_left _ hr
    refine hv.turn h.orderly ht hi he ?_
    rintro k rfl
    simp [parseOf?_call hi]
  honest y r hy := by
    obtain hy | hy := List.mem_append.mp hy
    · exact h.honest y r hy
    · rw [parseOf?_call hi] at hy
      cases s with
      | parsing k =>
        cases List.mem_singleton.mp hy
        exact parse_honest _ _
      | asking | missed | waiting | leading | keeping | releasing | publishing | answered =>
        cases hy
  parses := by
    rw [he.tally, parseOf?_call hi, List.length_append, h.parses]
    cases s <;> rfl
  asks := h.asks_turn ht hi he

theorem cache {c : Cache} (h : Accounted log w f) (hr : Refines c f') (hk : f'.kept ⊆ f.kept)
    (hn : f'.tally = f.tally) : Accounted log { w with cache := c } f' where
  orderly := h.orderly.cache c
  refines := hr
  absent i x s hi hs := by
    rintro ⟨d, hd, ht⟩
    exact h.absent i x s hi hs ⟨d, hk hd, ht⟩
  vouched := ⟨fun d hd => h.vouched.kept d (hk hd), h.vouched.carried, h.vouched.heard⟩
  honest := h.honest
  parses := by rw [hn, h.parses]
  asks := by rw [hn, ← h.asks]

end Accounted

theorem Once.turn (ho : Once log w f) (h : Accounted log w f) (ht : Turn w now x s w' s')
    (hi : w.At i x s) (he : Effect w f f' x s s') (hl : f'.losses = f.losses) :
    Once (log ++ (w.parseOf? (.call now i)).toList) (w'.move i s') f' where
  found y p hy := by
    obtain hy | hy := List.mem_append.mp hy
    · obtain hf | ⟨j, k, q, hj⟩ := ho.found y p hy
      · exact .inl (he.keeps hl y (.inl hf))
      · by_cases hji : j = i
        · subst hji
          cases hi.symm.trans hj
          exact .inl (he.keeps hl _ (.inr ⟨rfl, k, q, rfl⟩))
        · exact .inr ⟨j, k, q, (ht.at_move hi).mpr (.inr ⟨hji, hj⟩)⟩
    · have hnew : (w'.move i s').At i x s' := (ht.at_move hi).mpr (.inl ⟨rfl, rfl, rfl⟩)
      rw [parseOf?_call hi] at hy
      cases ht with
      | @parse k q c hp =>
        obtain ⟨rfl, -⟩ := Prod.mk.inj (List.mem_singleton.mp hy)
        exact .inr ⟨i, k, q, hnew⟩
      | @reject k e c hp =>
        have hr := (Prod.mk.inj (List.mem_singleton.mp hy)).2
        rw [hp] at hr
        cases hr
      | hit | miss | join | claim | receive | find | lack | keep | release | publish => cases hy
  single y t hy := by
    rw [parseOf?_call hi, List.filter_append, List.length_append]
    cases s with
    | parsing k =>
      by_cases hxy : x = y
      · subst hxy
        -- Nobody parsed the text before: it would be kept, or about to be kept by somebody
        -- who holds the slot that this caller holds.
        have hnone : log.filter (·.1 = x) = [] := by
          rw [List.filter_eq_nil_iff]
          rintro ⟨x', r⟩ hr hx
          obtain rfl : x' = x := by simpa using hx
          have hok := h.honest _ r hr
          rw [hy] at hok
          obtain _ | q := r
          · cases hok
          obtain hf | ⟨j, k', q', hj⟩ := ho.found _ q hr
          · exact h.absent i _ _ hi trivial hf
          · cases h.orderly.holder_unique hi hj rfl rfl
            cases hi.symm.trans hj
        simp [hnone]
      · have := ho.single y t hy
        simpa [hxy] using this
    | asking | missed | waiting | leading | keeping | releasing | publishing | answered =>
      exact ho.single y t hy

theorem accounted_after (h : Accounted log w f) (e : Event) :
    ∃ f', Accounted (log ++ (w.parseOf? e).toList) (w.after e) f' ∧ f.losses ≤ f'.losses ∧
      (f'.losses = f.losses → e ≠ .clear → Once log w f →
        Once (log ++ (w.parseOf? e).toList) (w.after e) f') := by
  cases e with
  | call now i =>
    rw [after]
    cases hs : w.step now i with
    | none =>
      rw [parseOf?_of_step hs, Option.toList_none, List.append_nil]
      exact ⟨f, h, Nat.le_refl _, fun _ _ ho => ho⟩
    | some w' =>
      obtain ⟨x, s, w₁, s', hi, ht, rfl⟩ := turn_of_step hs
      have habs : ∀ k p, s = .keeping k p → ¬ f.Has x := by
        rintro k p rfl
        exact h.absent i x _ hi trivial
      obtain ⟨f', hr, he⟩ := ht.effect h.refines habs
      exact ⟨f', h.turn ht hi hr he, he.losses_le, fun hl _ ho => ho.turn h ht hi he hl⟩
  | purge now =>
    have hthin := f.thins_purge now
    obtain ⟨n, c, f', hc, hf, hr⟩ := h.refines.purge now
    rw [hf] at hthin
    have hw : w.after (.purge now) = { w with cache := c } := by rw [after, hc]
    have hn : f'.tally = f.tally := by
      rw [Flat.purge] at hf
      cases hf
      rfl
    rw [hw, parseOf?_purge, Option.toList_none, List.append_nil]
    refine ⟨f', h.cache hr hthin.subset hn, hthin.losses_le, fun hl _ ho => ⟨?_, ho.single⟩⟩
    exact fun x p hx => (ho.found x p hx).imp_left (hthin.keeps hl x)
  | clear =>
    rw [parseOf?_clear, Option.toList_none, List.append_nil]
    exact ⟨_, h.cache h.refines.clear (List.nil_subset _) rfl, Nat.le_refl _,
      fun _ hne => absurd rfl hne⟩
  | reorder order =>
    rw [parseOf?_reorder, Option.toList_none, List.append_nil]
    exact ⟨f, h.cache (h.refines.reorder order) (List.Subset.refl _) rfl, Nat.le_refl _,
      fun _ _ ho => ⟨ho.found, ho.single⟩⟩

theorem accounted_follow (h : Accounted log w f) (es : List Event) :
    ∃ f', Accounted (log ++ w.parses es) (w.follow es) f' ∧ f.losses ≤ f'.losses ∧
      (f'.losses = f.losses → .clear ∉ es → Once log w f →
        Once (log ++ w.parses es) (w.follow es) f') := by
  induction es generalizing log w f with
  | nil =>
    rw [parses, List.append_nil]
    exact ⟨f, h, Nat.le_refl _, fun _ _ ho => ho⟩
  | cons e es ih =>
    obtain ⟨f₁, h₁, hl₁, ho₁⟩ := accounted_after h e
    obtain ⟨f₂, h₂, hl₂, ho₂⟩ := ih h₁
    rw [parses, ← List.append_assoc]
    refine ⟨f₂, h₂, Nat.le_trans hl₁ hl₂, fun hl hc ho => ?_⟩
    rw [List.mem_cons, not_or] at hc
    exact ho₂ (by omega) hc.2 (ho₁ (by omega) (Ne.symm hc.1) ho)

theorem start_texts (c : Cache) (texts : List String) :
    (start c texts).callers.map Caller.text = texts := by
  simp [start, Function.comp_def]

theorem texts_follow (w : Crowd) (es : List Event) :
    (w.follow es).callers.map Caller.text = w.callers.map Caller.text := by
  induction es generalizing w with
  | nil => rfl
  | cons e es ih =>
    refine (ih (w.after e)).trans ?_
    cases e with
    | call now i =>
      rw [after]
      cases hs : w.step now i with
      | none => rfl
      | some w' =>
        obtain ⟨x, s, w₁, s', hi, ht, rfl⟩ := turn_of_step hs
        obtain ⟨l₁, l₂, hw, hw'⟩ := ht.split hi
        rw [Option.getD_some, hw, hw']
        simp
    | purge | clear | reorder => rfl

theorem kept_of_entries {c : Cache} {e : UInt32 × Entry} (h : Refines c f)
    (he : e ∈ c.store.entries) : ∃ d ∈ f.kept, d.text = e.2.text ∧ d.parse = e.2.parse :=
  ⟨e.2.forget, h.entries.subset (List.mem_map_of_mem he), rfl, rfl⟩

theorem Accounted.lookups_of_complete (h : Accounted log w f) (hc : w.Complete) :
    f.tally.1 = w.callers.length := by
  have hzero : (w.callers.map (·.stage.asks)).sum = 0 := by
    refine List.sum_eq_zero fun n hn => ?_
    obtain ⟨⟨x, s⟩, hm, rfl⟩ := List.mem_map.mp hn
    obtain ⟨i, hi⟩ := List.mem_iff_getElem?.mp hm
    obtain ⟨r, rfl⟩ := hc i x s hi
    rfl
  have hasks := h.asks
  rwa [hzero, Nat.add_zero] at hasks

/-- Each answer was parsed, and only one thing was. -/
theorem Accounted.share (h : Accounted log w f) (ho : Once log w f) (hc : w.Complete)
    {t : Template} (ht : Template.parse x = .ok t) (hi : w.At i x s) :
    ∃ p : Parse, p.template = t ∧ log.filter (·.1 = x) = [(x, .ok p)] ∧
      ∀ j s, w.At j x s → s = .answered (.ok p) := by
  have hall : ∀ j s, w.At j x s → ∃ r, s = .answered r ∧ log.filter (·.1 = x) = [(x, r)] := by
    intro j s hj
    obtain ⟨r, rfl⟩ := hc j x s hj
    have hm : (x, r) ∈ log.filter (·.1 = x) :=
      List.mem_filter.mpr ⟨h.vouched.carried j x _ r hj rfl, by simp⟩
    obtain ⟨a, ha⟩ := List.length_eq_one_iff.mp
      (Nat.le_antisymm (ho.single x t ht) (List.length_pos_of_mem hm))
    rw [ha] at hm ⊢
    exact ⟨r, rfl, by rw [List.mem_singleton.mp hm]⟩
  obtain ⟨r, rfl, hone⟩ := hall i s hi
  have hr := h.honest x r (h.vouched.carried i x _ r hi rfl)
  rw [ht] at hr
  obtain ⟨p, rfl, hp⟩ := Result.map_eq_ok.mp hr
  refine ⟨p, hp, hone, fun j s' hj => ?_⟩
  obtain ⟨r', rfl, hone'⟩ := hall j s' hj
  rw [hone] at hone'
  cases hone'
  rfl

def Undisturbed (w : Crowd) (es : List Event) : Prop :=
  .clear ∉ es ∧ (w.follow es).cache.stats.evictions = 0 ∧
    (w.follow es).cache.stats.expirations = 0

/-- Any number of callers ask an empty cache for any texts, and their steps follow each other
in any order. -/
theorem single_flight (limits : Limits) (fp : String → UInt32) (texts : List String)
    (es : List Event) :
    let w₀ := start (.empty limits fp) texts
    let w := w₀.follow es
    (∀ i j x s s', w.At i x s → w.At j x s' → s.slot?.isSome → s'.slot?.isSome → i = j) ∧
    (∀ i x k, w.At i x (.waiting k) → w.Served x k) ∧
    (w.Complete ∨ ∃ i, ∀ now, w.step now i ≠ none) ∧
    (∀ es₁ es₂ i x s k r, es = es₁ ++ es₂ → (w₀.follow es₁).At i x s → s.flight? = some k →
      w.At i x (.answered r) → w.published.lookup k = some r) ∧
    (∀ x e, Template.parse x = .error e → (∀ d ∈ w.cache.store.entries, d.2.text ≠ x) ∧
      ∀ i r, w.At i x (.answered r) → r = .error e) ∧
    (w.Complete → w.cache.stats.hits + w.cache.stats.misses = texts.length) ∧
    -- If nothing was lost on the way, a template was parsed once, and all have that parse.
    (w.Complete → w₀.Undisturbed es → ∀ x ∈ texts, ∀ t, Template.parse x = .ok t →
      ∃ p : Parse, p.template = t ∧ (w₀.parses es).filter (·.1 = x) = [(x, .ok p)] ∧
        ∀ i s, w.At i x s → s = .answered (.ok p)) := by
  intro w₀ w
  have ho : w.Orderly := (start_orderly _ _).follow es
  obtain ⟨f, h, -, honce⟩ := accounted_follow (start_accounted limits fp texts) es
  have htrue : ∀ i x r, w.At i x (.answered r) → r.map Parse.template = Template.parse x :=
    fun i x r hi => h.honest x r (h.vouched.carried i x _ r hi rfl)
  refine ⟨?_, ho.served, ho.complete_or_step, ?_, ?_, ?_, ?_⟩
  · intro i j x s s' hi hj hs hs'
    obtain ⟨k, hk⟩ := Option.isSome_iff_exists.mp hs
    obtain ⟨l, hl⟩ := Option.isSome_iff_exists.mp hs'
    exact ho.holder_unique hi hj hk hl
  · rintro es₁ es₂ i x s k r rfl hi hk hr
    have ha : w.Aboard i x k := by
      have := Aboard.follow (.inl ⟨s, hi, hk⟩) ((start_orderly _ _).follow es₁) es₂
      rwa [← follow_append] at this
    obtain ⟨s', hi', hk'⟩ | ⟨r', hi', hl⟩ := ha
    · cases hr.symm.trans hi'
      cases hk'
    · cases hr.symm.trans hi'
      exact hl
  · intro x e hx
    constructor
    · intro d hd ht
      obtain ⟨d', hd', ht', hp⟩ := kept_of_entries h.refines hd
      have hok := h.honest _ _ (h.vouched.kept d' hd')
      rw [ht', ht, hx] at hok
      cases hok
    · intro i r hi
      exact Result.map_eq_error.mp ((htrue i x r hi).trans hx)
  · intro hc
    have hlen := congrArg List.length
      ((texts_follow _ es).trans (start_texts (.empty limits fp) texts))
    rw [List.length_map] at hlen
    rw [h.refines.stats, ← hlen]
    exact h.lookups_of_complete hc
  · intro hc hu x hx t ht
    have hloss : f.losses = 0 := by
      rw [Flat.losses, ← h.refines.stats, hu.2.1, hu.2.2]
    obtain ⟨i, s, hi⟩ : ∃ i s, w.At i x s := by
      rw [← start_texts (.empty limits fp) texts, ← texts_follow _ es] at hx
      obtain ⟨⟨_, s⟩, hm, rfl⟩ := List.mem_map.mp hx
      obtain ⟨i, hi⟩ := List.mem_iff_getElem?.mp hm
      exact ⟨i, s, hi⟩
    exact h.share (honce hloss hu.1 ⟨by simp, by simp⟩) hc ht hi

theorem complete_of_answers (h : w.answers.length = w.callers.length) : w.Complete := by
  intro i x s hi
  rw [answers, List.filterMap_length_eq_length] at h
  have hs := h ⟨x, s⟩ (List.mem_iff_getElem?.mpr ⟨i, hi⟩)
  cases s with
  | answered r => exact ⟨r, rfl⟩
  | asking | missed | waiting | leading | parsing | keeping | releasing | publishing => cases hs

theorem single_flight_three :
    let w₀ := start (.empty .standard fun _ => 0) ["{a|b}", "{a}", "{a|b}"]
    let es := (rounds 3).map (.call 0)
    (w₀.follow es).Complete ∧ w₀.Undisturbed es ∧ ∃ p : Parse,
      Template.parse "{a|b}" = .ok p.template ∧
      (w₀.parses es).filter (·.1 = "{a|b}") = [("{a|b}", .ok p)] ∧
      (w₀.follow es).At 2 "{a|b}" (.answered (.ok p)) := by
  intro w₀ es
  obtain ⟨t, ht⟩ : ∃ t, Template.parse "{a|b}" = .ok t := ⟨_, by cbv⟩
  have hc : (w₀.follow es).Complete := complete_of_answers (by cbv)
  have hu : w₀.Undisturbed es := ⟨by simp [es], by cbv, by cbv⟩
  have hat : ∃ s, (w₀.follow es).At 2 "{a|b}" s := ⟨_, by rw [At]; cbv⟩
  obtain ⟨-, -, -, -, -, -, h⟩ := single_flight .standard (fun _ => 0) ["{a|b}", "{a}", "{a|b}"] es
  obtain ⟨p, rfl, hp, hall⟩ := h hc hu "{a|b}" (by simp) t ht
  obtain ⟨s, hs⟩ := hat
  cases hall 2 s hs
  exact ⟨hc, hu, p, ht, hp, hs⟩

end Spintax.Cache.Crowd
