import Spintax.Proofs.Cache.Losses
import Spintax.Proofs.Cache.Slots

namespace Spintax.Cache

variable {f f' : Flat} {c : Cache}

theorem Refines.wait (h : Refines c f) :
    Refines c.wait { f with stats := { f.stats with waits := f.stats.waits + 1 } } := by
  obtain ⟨es, hk, rfl⟩ := h
  exact ⟨es, ⟨hk.holds, hk.recent⟩, rfl⟩

theorem Refines.of_agree {α : Type} {r : α × Cache} {r' : α × Flat} {a : α} (h : Agree r r')
    (hr : r = (a, c)) : ∃ f', r' = (a, f') ∧ Refines c f' := by
  obtain ⟨b, c', f', rfl, hf, hr'⟩ := h
  cases hr
  exact ⟨f', hf, hr'⟩

namespace Crowd

variable {w w' : Crowd} {now i j k : Nat} {x y : String} {s s' : Stage} {r : Outcome}
  {P Q : String → Outcome → Prop}

/-- What a caller that asks for `x` and is at stage `s` may get hold of: what it has already,
what is kept, what is published for it, or what its own parse makes. -/
inductive Source (w : Crowd) (f : Flat) (x : String) (s : Stage) (r : Outcome) : Prop
  | own (h : s.outcome? = some r)
  | kept {d : Kept} (hd : d ∈ f.kept) (ht : d.text = x) (hr : r = .ok d.parse)
  | heard {k : Nat} (hs : s = .waiting k) (hr : (k, r) ∈ w.published)
  | made {k : Nat} (hs : s = .parsing k) (hr : r = (w.cache.parse x).1)

/-- What a turn of a caller does to what is kept and counted. -/
structure Effect (w : Crowd) (f f' : Flat) (x : String) (s s' : Stage) : Prop where
  kept : ∀ d ∈ f'.kept, d ∈ f.kept ∨ d.text = x ∧ ∃ k, s = .keeping k d.parse
  losses_le : f.losses ≤ f'.losses
  keeps : f'.losses = f.losses → ∀ y, f.Has y ∨ (y = x ∧ ∃ k p, s = .keeping k p) → f'.Has y
  tally : f'.tally = (f.tally.1 + s.asks, f.tally.2 + s.parses)
  source : ∀ r, s'.outcome? = some r → Source w f x s r
  lacks : ∀ k, s' = .parsing k → ¬ f'.Has x

theorem Effect.of_thins (h : f.Thins f')
    (hn : f'.tally = (f.tally.1 + s.asks, f.tally.2 + s.parses))
    (hs : ∀ k p, s ≠ .keeping k p) (hr : ∀ r, s'.outcome? = some r → Source w f x s r)
    (hl : ∀ k, s' = .parsing k → ¬ f'.Has x) : Effect w f f' x s s' where
  kept d hd := .inl (h.subset hd)
  losses_le := h.losses_le
  keeps he y hy := by
    obtain hy | ⟨-, k, p, hk⟩ := hy
    · exact h.keeps he y hy
    · exact absurd hk (hs k p)
  tally := hn
  source := hr
  lacks := hl

theorem Effect.of_same (hk : f'.kept = f.kept) (hl : f'.losses = f.losses)
    (hn : f'.tally = (f.tally.1 + s.asks, f.tally.2 + s.parses))
    (hs : ∀ k p, s ≠ .keeping k p) (hr : ∀ r, s'.outcome? = some r → Source w f x s r)
    (hp : ∀ k, s' ≠ .parsing k) : Effect w f f' x s s' :=
  .of_thins (.of_eq hk hl) hn hs hr fun k he => absurd he (hp k)

theorem Effect.of_parse {r : Outcome} (h : f.parse x = (r, f')) (hs : s'.outcome? = some r)
    (hw : (w.cache.parse x).1 = r) : Effect w f f' x (.parsing k) s' := by
  have hn := f.tally_parse x
  rw [h] at hn
  have hl : f'.losses = f.losses := by
    rw [Flat.parse] at h
    split at h <;> cases h <;> rfl
  refine .of_same (Flat.kept_of_parse h) hl hn (by simp) (fun r' hr => ?_) ?_
  · rw [hs] at hr
    cases hr
    exact .made rfl hw.symm
  · rintro k rfl
    cases hs

theorem Effect.of_insert (f : Flat) (k : Nat) (p : Parse) :
    Effect w f (f.insert now x p) x (.keeping k p) (.releasing k (.ok p)) := by
  have h := Flat.thins_fit { f with kept := f.kept ++ [⟨x, p, now⟩] } now
  refine ⟨fun d hd => ?_, h.losses_le, fun he y hy => h.keeps he y ?_, Flat.tally_fit _ now,
    fun r hr => .own hr, by simp⟩
  · obtain hd | hd := List.mem_append.mp (h.subset hd)
    · exact .inl hd
    · rw [List.mem_singleton.mp hd]
      exact .inr ⟨rfl, k, rfl⟩
  · obtain ⟨d, hd, ht⟩ | ⟨rfl, -⟩ := hy
    · exact ⟨d, List.mem_append_left _ hd, ht⟩
    · exact ⟨_, List.mem_append_right _ (List.mem_singleton_self _), rfl⟩

/-- A turn of a caller, seen on the flat cache. Nobody keeps a parse of a text that is kept. -/
theorem Turn.effect (h : Turn w now x s w' s') (hr : Refines w.cache f)
    (habs : ∀ k p, s = .keeping k p → ¬ f.Has x) :
    ∃ f', Refines w'.cache f' ∧ Effect w f f' x s s' := by
  have hget := f.thins_get now x
  have hgetn := f.tally_get now x
  have hlook := f.thins_lookup now x
  have hlookn := f.tally_lookup now x
  cases h with
  | @hit p c h =>
    obtain ⟨f', hf, hr'⟩ := Refines.of_agree (hr.get now x) h
    obtain ⟨d, hd, ht, rfl⟩ := Flat.mem_of_get hf
    rw [hf] at hget hgetn
    refine ⟨f', hr', .of_thins hget hgetn (by simp) (fun r hp => ?_) (by simp)⟩
    cases hp
    exact .kept hd ht rfl
  | @miss c h =>
    obtain ⟨f', hf, hr'⟩ := Refines.of_agree (hr.get now x) h
    rw [hf] at hget hgetn
    exact ⟨f', hr', .of_thins hget hgetn (by simp) (fun r hp => by cases hp) (by simp)⟩
  | @find k p c h =>
    obtain ⟨f', hf, hr'⟩ := Refines.of_agree (hr.lookup now x) h
    obtain ⟨d, hd, ht, rfl⟩ := Flat.mem_of_lookup hf
    rw [hf] at hlook hlookn
    refine ⟨f', hr', .of_thins hlook hlookn (by simp) (fun r hp => ?_) (by simp)⟩
    cases hp
    exact .kept hd ht rfl
  | @lack k c h =>
    obtain ⟨f', hf, hr'⟩ := Refines.of_agree (hr.lookup now x) h
    rw [hf] at hlook hlookn
    exact ⟨f', hr', .of_thins hlook hlookn (by simp) (fun r hp => by cases hp)
      (fun _ _ => Flat.not_has_of_lookup hf)⟩
  | @parse k p c h =>
    obtain ⟨f', hf, hr'⟩ := Refines.of_agree (hr.parse x) h
    exact ⟨f', hr', .of_parse hf rfl (by rw [h])⟩
  | @reject k e c h =>
    obtain ⟨f', hf, hr'⟩ := Refines.of_agree (hr.parse x) h
    exact ⟨f', hr', .of_parse hf rfl (by rw [h])⟩
  | @keep k p =>
    have hnew : ∀ d ∈ f.kept, d.text ≠ x := fun d hd ht => habs k p rfl ⟨d, hd, ht⟩
    exact ⟨_, hr.insert hnew now p, .of_insert f k p⟩
  | receive h =>
    refine ⟨_, hr, .of_same rfl rfl rfl (by simp) (fun r hp => ?_) (by simp)⟩
    cases hp
    obtain ⟨l₁, l₂, hl, -⟩ := List.lookup_eq_some_iff.mp h
    exact .heard rfl (by simp [hl])
  | join => exact ⟨_, hr.wait, .of_same rfl rfl rfl (by simp) (fun r hp => by cases hp) (by simp)⟩
  | claim => exact ⟨_, hr, .of_same rfl rfl rfl (by simp) (fun r hp => by cases hp) (by simp)⟩
  | release | publish =>
    exact ⟨_, hr, .of_same rfl rfl rfl (by simp) (fun r hp => .own hp) (by simp)⟩

structure Vouched (P : String → Outcome → Prop) (w : Crowd) (f : Flat) : Prop where
  kept : ∀ d ∈ f.kept, P d.text (.ok d.parse)
  carried : ∀ i x s r, w.At i x s → s.outcome? = some r → P x r
  heard : ∀ i x k r, w.At i x (.waiting k) → (k, r) ∈ w.published → P x r

namespace Vouched

theorem mono (h : Vouched P w f) (hPQ : ∀ x r, P x r → Q x r) : Vouched Q w f where
  kept d hd := hPQ _ _ (h.kept d hd)
  carried i x s r hi hr := hPQ _ _ (h.carried i x s r hi hr)
  heard i x k r hi hr := hPQ _ _ (h.heard i x k r hi hr)

theorem of_source (h : Vouched P w f) (hi : w.At i x s)
    (hnew : ∀ k, s = .parsing k → P x (w.cache.parse x).1) (hr : Source w f x s r) : P x r := by
  cases hr with
  | own hr => exact h.carried i x s r hi hr
  | kept hd ht hr =>
    subst ht hr
    exact h.kept _ hd
  | heard hs hr =>
    subst hs
    exact h.heard i x _ r hi hr
  | made hs hr =>
    subst hr
    exact hnew _ hs

end Vouched

theorem Turn.published_cases (h : Turn w now x s w' s') (hr : (k, r) ∈ w'.published) :
    (k, r) ∈ w.published ∨ s = .publishing k r := by
  cases h with
  | publish =>
    obtain hr | hr := List.mem_cons.mp hr
    · cases hr
      exact .inr rfl
    · exact .inl hr
  | hit | miss | join | claim | receive | find | lack | parse | reject | keep | release =>
    exact .inl hr

theorem Vouched.turn (h : Vouched P w f) (ho : w.Orderly) (ht : Turn w now x s w' s')
    (hi : w.At i x s) (he : Effect w f f' x s s')
    (hnew : ∀ k, s = .parsing k → P x (w.cache.parse x).1) : Vouched P (w'.move i s') f' where
  kept d hd := by
    obtain hd | ⟨rfl, k, rfl⟩ := he.kept d hd
    · exact h.kept d hd
    · exact h.carried i _ _ _ hi rfl
  carried j y s₁ r hj hr := by
    obtain ⟨rfl, rfl, rfl⟩ | ⟨-, hj⟩ := (ht.at_move hi).mp hj
    · exact h.of_source hi hnew (he.source r hr)
    · exact h.carried j y s₁ r hj hr
  heard j y k r hj hr := by
    obtain ⟨rfl, rfl, rfl⟩ | ⟨-, hj⟩ := (ht.at_move hi).mp hj
    · cases ht with
      | join hl =>
        obtain ⟨a, s₁, ha, hk⟩ := ho.led_of_lookup hl
        exact absurd hr ((ho.fresh a y s₁ k ha hk).2 r)
    · obtain hr | rfl := ht.published_cases hr
      · exact h.heard j y k r hj hr
      · obtain ⟨a, s₁, ha, hk⟩ | ⟨r', hr'⟩ := ho.served j y k hj
        · cases ho.leader a i y x s₁ _ k ha hi hk rfl
          cases ha.symm.trans hi
          exact h.carried _ _ _ r hi rfl
        · exact absurd hr' ((ho.fresh i x _ k hi rfl).2 r')

end Crowd

end Spintax.Cache
