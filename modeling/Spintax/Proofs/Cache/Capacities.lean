import Mathlib
import Spintax.Proofs.Cache.Agreement
import Spintax.Proofs.Cache.Purges

namespace Spintax.Cache

variable {f f' g g' : Flat} {now m n : Nat} {text : String} {k d : Kept} {ks ds : List Kept}
  {r : Request} {a b : Answer} {x y : Exchange} {s s' : Session}

theorem sublist_rtake {l₁ l₂ : List String} (h : l₁.Sublist l₂) (hm : l₁.length ≤ m + 1)
    (hn : l₂.length ≤ n + 1) (hmn : m ≤ n) (hall : l₁.length ≤ m → l₁ = l₂) :
    (l₁.rtake m).Sublist (l₂.rtake n) := by
  by_cases h₁ : l₁.length ≤ m
  · obtain rfl := hall h₁
    rw [rtake_of_length_le h₁, rtake_of_length_le (h₁.trans hmn)]
  · have hone : l₁.length - m = 1 := by omega
    by_cases h₂ : l₂.length ≤ n
    · rw [rtake_of_length_le h₂]
      exact (List.drop_sublist _ l₁).trans h
    · have hone' : l₂.length - n = 1 := by omega
      rw [List.rtake, List.rtake, hone, hone', List.drop_one, List.drop_one]
      exact h.tail

theorem Flat.texts_use (f : Flat) (k : Kept) :
    (f.use k).texts = f.texts.filter (· ≠ k.text) ++ [k.text] := by
  rw [texts, use, List.map_append, texts_others]
  rfl

theorem Flat.mem_of_mem_use (hk : k ∈ f.kept) (hd : d ∈ (f.use k).kept) : d ∈ f.kept := by
  obtain hd | hd := List.mem_append.mp hd
  · exact (List.mem_filter.mp hd).1
  · rwa [List.mem_singleton.mp hd]

/-- What a smaller cache keeps is a part of what a larger one keeps, in the same order, and all of
it as long as there is room. The larger cache may have kept it for a longer time. -/
structure Within (capacity : Nat) (ks ds : List Kept) : Prop where
  order : (ks.map Kept.text).Sublist (ds.map Kept.text)
  all : ks.length < capacity → ks.map Kept.text = ds.map Kept.text
  age : ∀ k ∈ ks, ∀ d ∈ ds, d.text = k.text → d.since ≤ k.since

namespace Within

theorem nil (capacity : Nat) : Within capacity [] [] :=
  ⟨.refl _, fun _ => rfl, by simp⟩

theorem exists_of_mem (h : Within n ks ds) (hk : k ∈ ks) : ∃ d ∈ ds, d.text = k.text :=
  List.mem_map.mp (h.order.subset (List.mem_map_of_mem hk))

theorem isExpired (h : Within n ks ds) {maxAge : Nat}
    (hfresh : ∀ d ∈ ds, d.isExpired maxAge now = false) :
    ∀ k ∈ ks, k.isExpired maxAge now = false := by
  intro k hk
  obtain ⟨d, hd, ht⟩ := h.exists_of_mem hk
  have hage := h.age k hk d hd ht
  have hyoung := hfresh d hd
  rw [Kept.isExpired, decide_eq_false_iff_not] at hyoung ⊢
  omega

theorem filter_texts (habs : ∀ k ∈ ks, k.text ≠ text) :
    (ks.map Kept.text).filter (· ≠ text) = ks.map Kept.text := by
  rw [List.filter_eq_self]
  simpa using habs

theorem le_length (h : Within n ks ds) (hd : d ∈ ds) (habs : ∀ k ∈ ks, k.text ≠ d.text) :
    n ≤ ks.length := by
  by_contra hroom
  have hmem : d.text ∈ ks.map Kept.text := by
    rw [h.all (Nat.lt_of_not_le hroom)]
    exact List.mem_map_of_mem hd
  obtain ⟨k, hk, ht⟩ := List.mem_map.mp hmem
  exact habs k hk ht

theorem use (h : Within f.limits.capacity f.kept g.kept) (hn : f.texts.Nodup)
    (hk : k ∈ f.kept) (hd : d ∈ g.kept) (ht : d.text = k.text) :
    Within f.limits.capacity (f.use k).kept (g.use d).kept where
  order := by
    have horder : (f.use k).texts.Sublist (g.use d).texts := by
      rw [Flat.texts_use, Flat.texts_use, ht]
      exact (h.order.filter _).append_right _
    exact horder
  all := by
    intro hroom
    have hlength : (f.use k).kept.length = f.kept.length := by
      rw [Flat.use, List.length_append, List.length_singleton]
      exact Flat.length_others hn hk
    have hall : f.texts = g.texts := h.all (hlength ▸ hroom)
    have heq : (f.use k).texts = (g.use d).texts := by
      rw [Flat.texts_use, Flat.texts_use, ht, hall]
    exact heq
  age k' hk' d' hd' :=
    h.age k' (Flat.mem_of_mem_use hk hk') d' (Flat.mem_of_mem_use hd hd')

theorem use_right (h : Within n ks g.kept) (hd : d ∈ g.kept) (habs : ∀ k ∈ ks, k.text ≠ d.text) :
    Within n ks (g.use d).kept where
  order := by
    have horder : (ks.map Kept.text).Sublist (g.use d).texts := by
      rw [Flat.texts_use, ← filter_texts habs]
      exact (h.order.filter _).trans (List.sublist_append_left _ _)
    exact horder
  all hroom := absurd hroom (Nat.not_lt.mpr (h.le_length hd habs))
  age k hk d' hd' := h.age k hk d' (Flat.mem_of_mem_use hd hd')

theorem push (h : Within m ks ds) (hm : ks.length ≤ m) (hn : ds.length ≤ n) (hpos : 0 < m)
    (hmn : m ≤ n) (ht : d.text = k.text) (habs : ∀ k' ∈ ks, k'.text ≠ k.text)
    (hage : ∀ d' ∈ ds ++ [d], d'.since ≤ k.since) :
    Within m ((ks ++ [k]).rtake m) ((ds ++ [d]).rtake n) where
  order := by
    obtain ⟨m, rfl⟩ := Nat.exists_eq_succ_of_ne_zero (Nat.ne_of_gt hpos)
    obtain ⟨n, rfl⟩ := Nat.exists_eq_succ_of_ne_zero (Nat.ne_of_gt (hpos.trans_le hmn))
    rw [List.rtake_concat_succ, List.rtake_concat_succ, List.map_append, List.map_append,
      map_rtake, map_rtake]
    simp only [List.map_cons, List.map_nil, ht]
    refine (sublist_rtake h.order (by simpa using hm) (by simpa using hn)
      (Nat.le_of_succ_le_succ hmn) fun hlt => h.all ?_).append_right _
    rw [List.length_map] at hlt
    omega
  all := by
    intro hroom
    rw [List.rtake, List.length_drop, List.length_append, List.length_singleton] at hroom
    have hall := h.all (by omega)
    have hlength : ks.length = ds.length := by
      have hlength := congrArg List.length hall
      rwa [List.length_map, List.length_map] at hlength
    rw [rtake_of_length_le, rtake_of_length_le, List.map_append, List.map_append, hall,
      List.map_singleton, List.map_singleton, ht]
    all_goals
      rw [List.length_append, List.length_singleton]
      omega
  age := by
    intro k' hk' d' hd' ht'
    have hd := (List.drop_sublist _ _).subset hd'
    obtain hk' | hk' := List.mem_append.mp ((List.drop_sublist _ _).subset hk')
    · obtain hd' | hd' := List.mem_append.mp hd
      · exact h.age k' hk' d' hd' ht'
      · rw [List.mem_singleton.mp hd', ht] at ht'
        exact absurd ht'.symm (habs k' hk')
    · rw [List.mem_singleton.mp hk']
      exact hage d' hd

theorem push_left (h : Within m ks g.kept) (hm : ks.length ≤ m) (hpos : 0 < m) (hd : d ∈ g.kept)
    (ht : d.text = k.text) (habs : ∀ k' ∈ ks, k'.text ≠ k.text)
    (hage : ∀ d' ∈ g.kept, d'.since ≤ k.since) :
    Within m ((ks ++ [k]).rtake m) (g.use d).kept where
  order := by
    obtain ⟨m, rfl⟩ := Nat.exists_eq_succ_of_ne_zero (Nat.ne_of_gt hpos)
    have horder : ((ks.rtake m ++ [k]).map Kept.text).Sublist (g.use d).texts := by
      rw [Flat.texts_use, ht, List.map_append, map_rtake, ← filter_texts habs]
      exact ((List.drop_sublist _ _).trans (h.order.filter _)).append_right _
    rw [List.rtake_concat_succ]
    exact horder
  all := by
    intro hroom
    have hfull := h.le_length hd (ht ▸ habs)
    rw [List.rtake, List.length_drop, List.length_append, List.length_singleton] at hroom
    omega
  age := by
    intro k' hk' d' hd' ht'
    have hd := Flat.mem_of_mem_use hd hd'
    obtain hk' | hk' := List.mem_append.mp ((List.drop_sublist _ _).subset hk')
    · exact h.age k' hk' d' hd ht'
    · rw [List.mem_singleton.mp hk']
      exact hage d' hd

end Within

namespace Flat

theorem kept_lack (habs : ∀ k ∈ f.kept, k.text ≠ text) : (f.lack text).kept = f.kept := by
  rw [lack, List.filter_eq_self]
  simpa using habs

theorem Turn.past (h : f.Turn now r a f') (hpast : ∀ k ∈ f.kept, k.since ≤ now) :
    ∀ k ∈ f'.kept, k.since ≤ now + r.passes := by
  intro k hk
  obtain hold | hmade := h.kept_cases hk
  · exact (hpast k hold).trans (Nat.le_add_right _ _)
  · exact hmade.since.le.trans (Nat.le_add_right _ _)

theorem Insertion.kept_of_attempt (h : (f.attempt text).Insertion now k f')
    (habs : ∀ d ∈ f.kept, d.text ≠ text)
    (hfresh : ∀ d ∈ f.kept, d.isExpired f.limits.maxAge now = false) :
    f'.kept = (f.kept ++ [k]).rtake f.limits.capacity := by
  have hkept : (f.attempt text).kept = f.kept := kept_lack habs
  rw [← hkept]
  exact h.kept_of_fresh (hkept ▸ hfresh)

/-- The smaller cache turns from `f` into `f'`, and the larger one from `g` into `g'`. -/
structure Abreast (f f' g g' : Flat) : Prop where
  kept : Within f.limits.capacity f'.kept g'.kept
  hits : f'.stats.hits = f.stats.hits ∧ g.stats.hits ≤ g'.stats.hits ∨
    f'.stats.hits = f.stats.hits + 1 ∧ g'.stats.hits = g.stats.hits + 1
  parses : g'.stats.parses = g.stats.parses ∧ f.stats.parses ≤ f'.stats.parses ∨
    g'.stats.parses = g.stats.parses + 1 ∧ f'.stats.parses = f.stats.parses + 1

/-- The smaller cache `f` keeps less than `g`. It has found less and parsed more. -/
structure Trails (now : Nat) (f g : Flat) : Prop where
  capacity : f.limits.capacity ≤ g.limits.capacity
  maxAge : f.limits.maxAge = g.limits.maxAge
  kept : Within f.limits.capacity f.kept g.kept
  past : ∀ d ∈ g.kept, d.since ≤ now
  hits : f.stats.hits ≤ g.stats.hits
  parses : g.stats.parses ≤ f.stats.parses

structure Ready (f : Flat) (now : Nat) : Prop where
  room : f.kept.length ≤ f.limits.capacity
  texts : f.texts.Nodup
  fresh : ∀ k ∈ f.kept, k.isExpired f.limits.maxAge now = false

theorem Ready.kept_purge (h : f.Ready now) : (f.purge now).2.kept = f.kept :=
  young_of_fresh h.fresh

namespace Trails

theorem get (h : Trails now f g) (hf : f.Ready now) (hg : g.Ready now)
    (hturn : f.Turn now (.get text) a f') (hturn' : g.Turn now (.get text) b g') :
    Abreast f f' g g' := by
  have hcases := hturn.get_cases
  have hcases' := hturn'.get_cases
  rw [young_of_fresh hf.fresh] at hcases
  rw [young_of_fresh hg.fresh] at hcases'
  obtain ⟨k, hk, hkt, -, rfl⟩ | ⟨habs, -, rfl⟩ := hcases <;>
    obtain ⟨d, hd, hdt, -, rfl⟩ | ⟨habs', -, rfl⟩ := hcases'
  · exact ⟨h.kept.use hf.texts hk hd (hdt.trans hkt.symm), .inr ⟨rfl, rfl⟩, .inl ⟨rfl, le_rfl⟩⟩
  · obtain ⟨d, hd, hdt⟩ := h.kept.exists_of_mem hk
    exact absurd (hdt.trans hkt) (habs' d hd)
  · refine ⟨?_, .inl ⟨rfl, Nat.le_succ _⟩, .inl ⟨rfl, le_rfl⟩⟩
    rw [kept_lack habs]
    exact h.kept.use_right hd (hdt ▸ habs)
  · refine ⟨?_, .inl ⟨rfl, le_rfl⟩, .inl ⟨rfl, le_rfl⟩⟩
    rw [kept_lack habs, kept_lack habs']
    exact h.kept

theorem resolve (h : Trails now f g) (hf : f.Ready now) (hg : g.Ready now)
    (hturn : f.Turn now (.resolve text) a f') (hturn' : g.Turn now (.resolve text) b g') :
    Abreast f f' g g' := by
  have hcases := hturn.resolve_cases
  have hcases' := hturn'.resolve_cases
  rw [young_of_fresh hf.fresh] at hcases
  rw [young_of_fresh hg.fresh] at hcases'
  obtain ⟨k, hk, hkt, -, rfl⟩ | ⟨habs, hcases⟩ := hcases <;>
    obtain ⟨d, hd, hdt, -, rfl⟩ | ⟨habs', hcases'⟩ := hcases'
  · exact ⟨h.kept.use hf.texts hk hd (hdt.trans hkt.symm), .inr ⟨rfl, rfl⟩, .inl ⟨rfl, le_rfl⟩⟩
  · obtain ⟨d, hd, hdt⟩ := h.kept.exists_of_mem hk
    exact absurd (hdt.trans hkt) (habs' d hd)
  · obtain ⟨e, hp, -, rfl⟩ | ⟨t, hp, -, hi⟩ := hcases
    · refine ⟨?_, .inl ⟨rfl, Nat.le_succ _⟩, .inl ⟨rfl, Nat.le_succ _⟩⟩
      exact (kept_lack habs).symm ▸ h.kept.use_right hd (hdt ▸ habs)
    · obtain ⟨hhits, -, hparses⟩ := hi.stats
      refine ⟨?_, .inl ⟨hhits, Nat.le_succ _⟩, .inl ⟨rfl, ?_⟩⟩
      · rw [hi.kept_of_attempt habs hf.fresh]
        exact h.kept.push_left hf.room f.limits.capacity_pos hd hdt habs h.past
      · rw [hparses]
        exact Nat.le_succ _
  · obtain ⟨e, hp, -, rfl⟩ | ⟨t, hp, -, hi⟩ := hcases <;>
      obtain ⟨e', hp', -, rfl⟩ | ⟨t', hp', -, hi'⟩ := hcases' <;> cases hp.symm.trans hp'
    · refine ⟨?_, .inl ⟨rfl, le_rfl⟩, .inr ⟨rfl, rfl⟩⟩
      exact (kept_lack habs).symm ▸ (kept_lack habs').symm ▸ h.kept
    · obtain ⟨hhits, -, hparses⟩ := hi.stats
      obtain ⟨hhits', -, hparses'⟩ := hi'.stats
      refine ⟨?_, .inl ⟨hhits, hhits'.ge⟩, .inr ⟨hparses', hparses⟩⟩
      rw [hi.kept_of_attempt habs hf.fresh, hi'.kept_of_attempt habs' hg.fresh]
      exact h.kept.push hf.room hg.room f.limits.capacity_pos h.capacity rfl habs
        (List.forall_mem_append.mpr ⟨h.past, by simp⟩)

theorem abreast (h : Trails now f g) (hf : f.Ready now) (hg : g.Ready now)
    (hturn : f.Turn now r a f') (hturn' : g.Turn now r b g') : Abreast f f' g g' := by
  cases r with
  | get text => exact h.get hf hg hturn hturn'
  | resolve text => exact h.resolve hf hg hturn hturn'
  | purge =>
    obtain rfl := hturn.of_purge
    obtain rfl := hturn'.of_purge
    refine ⟨?_, .inl ⟨rfl, le_rfl⟩, .inl ⟨rfl, le_rfl⟩⟩
    rw [hf.kept_purge, hg.kept_purge]
    exact h.kept
  | clear =>
    cases hturn
    cases hturn'
    exact ⟨.nil _, .inl ⟨rfl, le_rfl⟩, .inl ⟨rfl, le_rfl⟩⟩
  | pass ms =>
    cases hturn
    cases hturn'
    exact ⟨h.kept, .inl ⟨rfl, le_rfl⟩, .inl ⟨rfl, le_rfl⟩⟩

theorem turn (h : Trails now f g) (hf : f.Ready now) (hg : g.Ready now)
    (hturn : f.Turn now r a f') (hturn' : g.Turn now r b g') : Trails (now + r.passes) f' g' where
  capacity := by rw [hturn.limits, hturn'.limits]; exact h.capacity
  maxAge := by rw [hturn.limits, hturn'.limits]; exact h.maxAge
  kept := hturn.limits ▸ (h.abreast hf hg hturn hturn').kept
  past := hturn'.past h.past
  hits := by
    have hhits := (h.abreast hf hg hturn hturn').hits
    have hless := h.hits
    omega
  parses := by
    have hparses := (h.abreast hf hg hturn hturn').parses
    have hmore := h.parses
    omega

end Trails

end Flat

def Exchange.IsHit (x : Exchange) : Prop :=
  x.after.cache.stats.hits = x.before.cache.stats.hits + 1

/-- The same request to a smaller cache (`x`) and to a larger one (`y`). -/
structure Exchange.Outdone (x y : Exchange) : Prop where
  request : x.request = y.request
  texts : x.after.texts ⊆ y.after.texts
  hit : x.IsHit → y.IsHit
  hits : x.after.cache.stats.hits ≤ y.after.cache.stats.hits
  parses : y.after.cache.stats.parses ≤ x.after.cache.stats.parses

structure Session.Trails (s s' : Session) : Prop where
  now : s.now = s'.now
  flat : ∃ f g, Refines s.cache f ∧ Refines s'.cache g ∧ f.kept.length ≤ f.limits.capacity ∧
    g.kept.length ≤ g.limits.capacity ∧ Flat.Trails s.now f g

namespace Session.Trails

theorem start {limits limits' : Limits} (hcapacity : limits.capacity ≤ limits'.capacity)
    (hage : limits.maxAge = limits'.maxAge) (fp fp' : String → UInt32) :
    (Session.start limits fp).Trails (Session.start limits' fp') where
  now := rfl
  flat := ⟨_, _, refines_empty limits fp, refines_empty limits' fp', Nat.zero_le _, Nat.zero_le _,
    hcapacity, hage, .nil _, by simp [Flat.empty], le_rfl, le_rfl⟩

theorem exchange (h : s.Trails s') (o o' : Order) (r : Request) (hfresh : s'.isFresh = true) :
    (s.exchange (o, r)).Outdone (s'.exchange (o', r)) ∧
      (s.exchange (o, r)).after.Trails (s'.exchange (o', r)).after := by
  obtain ⟨f, g, hf, hg, hroomf, hroomg, htrails⟩ := h.flat
  obtain ⟨f', hx⟩ := exists_mirrors hf hroomf (o, r)
  obtain ⟨g', hy⟩ := exists_mirrors hg hroomg (o', r)
  have hturn : f.Turn s.now r (s.exchange (o, r)).answer f' := hx.turn
  have hturn' : g.Turn s.now r (s'.exchange (o', r)).answer g' := h.now ▸ hy.turn
  have hyoung' : ∀ d ∈ g.kept, d.isExpired g.limits.maxAge s.now = false := by
    rw [h.now]
    exact hg.isFresh_iff.mp hfresh
  have hyoung : ∀ k ∈ f.kept, k.isExpired f.limits.maxAge s.now = false := by
    rw [htrails.maxAge]
    exact htrails.kept.isExpired hyoung'
  have hready : f.Ready s.now := ⟨hroomf, hf.texts, hyoung⟩
  have hready' : g.Ready s.now := ⟨hroomg, hg.texts, hyoung'⟩
  have habreast := htrails.abreast hready hready' hturn hturn'
  have htrails' := htrails.turn hready hready' hturn hturn'
  refine ⟨⟨rfl, ?_, ?_, ?_, ?_⟩, ?_, f', g', hx.after, hy.after, hx.turn.room hroomf,
    hy.turn.room hroomg, ?_⟩
  · intro text htext
    have horder : f'.texts.Sublist g'.texts := habreast.kept.order
    exact hy.after.perm_texts.symm.subset (horder.subset (hx.after.perm_texts.subset htext))
  · rw [Exchange.IsHit, Exchange.IsHit, hx.before.stats, hx.after.stats, hy.before.stats,
      hy.after.stats]
    have hhits := habreast.hits
    omega
  · rw [hx.after.stats, hy.after.stats]
    exact htrails'.hits
  · rw [hx.after.stats, hy.after.stats]
    exact htrails'.parses
  · rw [Resembles.now_exchange, Resembles.now_exchange, h.now]
  · rw [Resembles.now_exchange]
    exact htrails'

theorem follow {rs rs' : List (Order × Request)} (h : s.Trails s')
    (hrs : rs.map Prod.snd = rs'.map Prod.snd)
    (hfresh : ∀ y ∈ s'.log rs', y.before.isFresh = true) :
    List.Forall₂ Exchange.Outdone (s.log rs) (s'.log rs') := by
  induction rs generalizing s s' rs' with
  | nil =>
    obtain rfl : rs' = [] := by simpa using hrs.symm
    exact .nil
  | cons or rs ih =>
    obtain ⟨o, r⟩ := or
    obtain ⟨⟨o', r'⟩, rs₁, rfl, hr, hrs₁⟩ := List.map_eq_cons_iff.mp hrs.symm
    obtain rfl : r' = r := hr
    obtain ⟨hbefore, hfresh⟩ := List.forall_mem_cons.mp hfresh
    obtain ⟨houtdone, hafter⟩ := h.exchange o o' r' hbefore
    exact .cons houtdone (ih hafter hrs₁.symm hfresh)

end Session.Trails

namespace Session

/-- Of two new caches that get the same requests, the larger one keeps after each of them all that
the smaller one keeps, finds all that the smaller one finds, and parses no more. Nothing that the
larger cache keeps may become too old; then the same goes for the smaller one. To get or parse a
text is to resolve it. -/
theorem larger_outdoes (limits limits' : Limits) (fp fp' : String → UInt32)
    (rs rs' : List (Order × Request)) (hrs : rs.map Prod.snd = rs'.map Prod.snd)
    (hcapacity : limits.capacity ≤ limits'.capacity) (hage : limits.maxAge = limits'.maxAge)
    (hfresh : ∀ y ∈ (start limits' fp').log rs', y.before.isFresh = true) :
    List.Forall₂ Exchange.Outdone ((start limits fp).log rs) ((start limits' fp').log rs') :=
  (Trails.start hcapacity hage fp fp').follow hrs hfresh

theorem larger_outdoes_three :
    let small : Limits := ⟨2, 10, by decide, by decide⟩
    let large : Limits := ⟨3, 10, by decide, by decide⟩
    let reversed : Order := ⟨List.reverse, List.reverse_perm⟩
    let requests : List Request := [.resolve "a", .resolve "b", .pass 4, .resolve "c", .get "a",
      .resolve "d", .get "c", .resolve "a", .clear, .resolve "a"]
    let rs := requests.map fun r => (Order.asKept, r)
    let rs' := requests.map fun r => (reversed, r)
    let log := (start small fun _ => 0).log rs
    let log' := (start large fun _ => 0).log rs'
    rs.map Prod.snd = rs'.map Prod.snd ∧ small.capacity ≤ large.capacity ∧
      small.maxAge = large.maxAge ∧ (∀ y ∈ log', y.before.isFresh = true) ∧
      List.Forall₂ Exchange.Outdone log log' ∧
      log.map (·.after.cache.stats.hits) = [0, 0, 0, 0, 0, 0, 1, 1, 1, 1] ∧
      log'.map (·.after.cache.stats.hits) = [0, 0, 0, 0, 1, 1, 2, 3, 3, 3] := by
  intro small large reversed requests rs rs' log log'
  have hfresh : ∀ y ∈ log', y.before.isFresh = true := List.all_eq_true.mp (by cbv)
  exact ⟨rfl, by decide, rfl, hfresh,
    larger_outdoes small large (fun _ => 0) (fun _ => 0) rs rs' rfl (by decide) rfl hfresh,
    by cbv, by cbv⟩

end Session

end Spintax.Cache
