import Mathlib
import Spintax.Proofs.Cache.Changes
import Spintax.Proofs.Cache.Recency

namespace Spintax.Cache

variable {c : Cache} {f f' g g' : Flat} {now : Nat} {text : String} {k : Kept} {r : Request}
  {a b : Answer} {x y : Exchange} {s s' : Session} {rs rs' : List (Order × Request)}

def Stats.lasting (s : Stats) : Stats :=
  { s with expirations := 0 }

namespace Flat

def young (f : Flat) (now : Nat) : List Kept :=
  f.kept.filter fun k => !k.isExpired f.limits.maxAge now

/-- The caches only differ in what is too old, whether it is still kept or was counted. -/
structure Alike (now : Nat) (f g : Flat) : Prop where
  limits : f.limits = g.limits
  young : f.young now = g.young now
  counts : f.stats.lasting = g.stats.lasting

theorem mem_young : k ∈ f.young now ↔ k ∈ f.kept ∧ k.isExpired f.limits.maxAge now = false := by
  simp [young]

theorem young_use (hk : k ∈ f.young now) :
    (f.use k).young now = (f.young now).filter (·.text ≠ k.text) ++ [k] := by
  simp [young, use, List.filter_append, List.filter_filter, Bool.and_comm, (mem_young.mp hk).2]

theorem young_lack (f : Flat) (now : Nat) (text : String) :
    (f.lack text).young now = (f.young now).filter (·.text ≠ text) := by
  simp [young, lack, List.filter_filter, Bool.and_comm]

theorem young_purge (f : Flat) (now : Nat) : (f.purge now).2.young now = f.young now := by
  simp [young, purge, List.filter_filter]

theorem isExpired_mono {maxAge : Nat} (ms : Nat) (h : k.isExpired maxAge now = true) :
    k.isExpired maxAge (now + ms) = true := by
  rw [Kept.isExpired, decide_eq_true_eq] at h ⊢
  omega

theorem young_pass (f : Flat) (now ms : Nat) :
    f.young (now + ms) =
      (f.young now).filter fun k => !k.isExpired f.limits.maxAge (now + ms) := by
  rw [young, young, List.filter_filter]
  refine List.filter_congr fun k _ => ?_
  cases hk : k.isExpired f.limits.maxAge now with
  | true => rw [isExpired_mono ms hk]; rfl
  | false => simp

theorem young_of_fresh (h : ∀ d ∈ f.kept, d.isExpired f.limits.maxAge now = false) :
    f.young now = f.kept := by
  rw [young, List.filter_eq_self]
  simpa using h

theorem Insertion.young (h : f.Insertion now k f')
    (hk : k.isExpired f.limits.maxAge now = false) :
    f'.limits = f.limits ∧ f'.young now = (f.young now ++ [k]).rtake f.limits.capacity ∧
      f'.stats.lasting = { f.stats.lasting with evictions := f.stats.lasting.evictions +
        ((f.young now).length + 1 - f.limits.capacity) } := by
  have hle : (f.young now).length ≤ f.kept.length := List.length_filter_le _ _
  have hroomy : (f.young now).length < f.limits.capacity →
      (f.young now ++ [k]).rtake f.limits.capacity = f.young now ++ [k] ∧
        (f.young now).length + 1 - f.limits.capacity = 0 := by
    intro hlt
    exact ⟨rtake_of_length_le (by simpa using hlt), by omega⟩
  cases h with
  | plain h =>
    obtain ⟨hrtake, hzero⟩ := hroomy (by omega)
    refine ⟨rfl, ?_, by rw [hzero]; rfl⟩
    rw [hrtake, Flat.young, List.filter_append, List.filter_singleton, hk]
    rfl
  | thin h hold =>
    have hlt : (f.young now).length < f.kept.length := length_purge_lt hold
    obtain ⟨hrtake, hzero⟩ := hroomy (by omega)
    refine ⟨rfl, ?_, by rw [hzero]; rfl⟩
    rw [hrtake, Flat.young, List.filter_append, List.filter_singleton, hk, List.filter_filter]
    simp [Flat.young]
  | @evict d ds h hfresh hk' =>
    have hyoung := young_of_fresh hfresh
    have hone : f.kept.length + 1 - f.limits.capacity = 1 := by omega
    have hkept := Insertion.kept_of_fresh (.evict (k := k) h hfresh hk') hfresh
    refine ⟨rfl, ?_, by rw [hyoung, hone]; rfl⟩
    rw [hyoung, ← hkept]
    apply young_of_fresh
    intro e he
    obtain he | he := List.mem_append.mp he
    · exact hfresh e (by rw [hk']; exact List.mem_cons_of_mem _ he)
    · rw [List.mem_singleton.mp he]
      exact hk

theorem lacks_of_turn (hl : ∀ k ∈ f.kept, k.text = text → k.isExpired f.limits.maxAge now = true) :
    ∀ k ∈ f.young now, k.text ≠ text := by
  intro k hk
  obtain ⟨hmem, hage⟩ := mem_young.mp hk
  exact ne_of_young hl hmem hage

theorem Turn.get_cases (h : f.Turn now (.get text) a f') :
    (∃ k ∈ f.young now, k.text = text ∧ a = .found (some k.parse) ∧ f' = f.use k) ∨
    (∀ k ∈ f.young now, k.text ≠ text) ∧ a = .found none ∧ f' = f.lack text := by
  cases h with
  | found hk he => exact .inl ⟨_, mem_young.mpr ⟨hk, he⟩, rfl, rfl, rfl⟩
  | missing hl => exact .inr ⟨lacks_of_turn hl, rfl, rfl⟩

theorem Turn.of_purge (h : f.Turn now .purge a f') : f' = (f.purge now).2 := by
  cases h
  rfl

theorem Turn.resolve_cases (h : f.Turn now (.resolve text) a f') :
    (∃ k ∈ f.young now, k.text = text ∧ a = .resolved (.ok k.parse) ∧ f' = f.use k) ∨
    (∀ k ∈ f.young now, k.text ≠ text) ∧
      ((∃ e, Template.parse text = .error e ∧ a = .resolved (.error e) ∧
        f' = { f.attempt text with stats := { (f.attempt text).stats with
          parseFailures := f.stats.parseFailures + 1 } }) ∨
      ∃ t, Template.parse text = .ok t ∧ a = .resolved (.ok ⟨f.stats.parses, t⟩) ∧
        (f.attempt text).Insertion now ⟨text, ⟨f.stats.parses, t⟩, now⟩ f') := by
  cases h with
  | reused hk he => exact .inl ⟨_, mem_young.mpr ⟨hk, he⟩, rfl, rfl, rfl⟩
  | fault hl hp => exact .inr ⟨lacks_of_turn hl, .inl ⟨_, hp, rfl, rfl⟩⟩
  | parsed hl hp hi => exact .inr ⟨lacks_of_turn hl, .inr ⟨_, hp, rfl, hi⟩⟩

namespace Alike

theorem parses (h : Alike now f g) : f.stats.parses = g.stats.parses := by
  have hcounts := congrArg Stats.parses h.counts
  exact hcounts

theorem use (h : Alike now f g) (hk : k ∈ f.young now) : Alike now (f.use k) (g.use k) where
  limits := h.limits
  young := by rw [young_use hk, young_use (h.young ▸ hk), h.young]
  counts := congrArg (fun s : Stats => { s with hits := s.hits + 1 }) h.counts

theorem lack (h : Alike now f g) (text : String) : Alike now (f.lack text) (g.lack text) where
  limits := h.limits
  young := by rw [young_lack, young_lack, h.young]
  counts := congrArg (fun s : Stats => { s with misses := s.misses + 1 }) h.counts

theorem attempt (h : Alike now f g) (text : String) :
    Alike now (f.attempt text) (g.attempt text) where
  limits := h.limits
  young := (h.lack text).young
  counts := congrArg (fun s : Stats => { s with parses := s.parses + 1 }) (h.lack text).counts

theorem insertion (h : Alike now f g) (hk : k.isExpired f.limits.maxAge now = false)
    (hf : f.Insertion now k f') (hg : g.Insertion now k g') : Alike now f' g' := by
  obtain ⟨hlf, hyf, hcf⟩ := hf.young hk
  obtain ⟨hlg, hyg, hcg⟩ := hg.young (h.limits ▸ hk)
  refine ⟨?_, ?_, ?_⟩
  · rw [hlf, hlg, h.limits]
  · rw [hyf, hyg, h.young, h.limits]
  · rw [hcf, hcg, h.young, h.limits, h.counts]

theorem fault (h : Alike now f g) (text : String) :
    Alike now
      { f.attempt text with stats := { (f.attempt text).stats with
        parseFailures := f.stats.parseFailures + 1 } }
      { g.attempt text with stats := { (g.attempt text).stats with
        parseFailures := g.stats.parseFailures + 1 } } where
  limits := h.limits
  young := (h.attempt text).young
  counts := congrArg (fun s : Stats => { s with parseFailures := s.parseFailures + 1 })
    (h.attempt text).counts

theorem clear (h : Alike now f g) : Alike now { f with kept := [] } { g with kept := [] } where
  limits := h.limits
  young := rfl
  counts := h.counts

theorem purge (h : Alike now f g) : Alike now (f.purge now).2 g where
  limits := h.limits
  young := (young_purge f now).trans h.young
  counts := h.counts

theorem pass (h : Alike now f g) (ms : Nat) : Alike (now + ms) f g where
  limits := h.limits
  young := by rw [young_pass, young_pass, h.young, h.limits]
  counts := h.counts

end Alike

end Flat

def Request.passes : Request → Nat
  | .pass ms => ms
  | .get _ | .resolve _ | .purge | .clear => 0

/-- What is asked of caches that only differ in what is too old is answered in the same way, and
goes on to be so. -/
theorem Flat.Alike.turn (h : Alike now f g) (hn : (f.kept.map Kept.text).Nodup)
    (hf : f.Turn now r a f') (hg : g.Turn now r b g') (hr : r ≠ .purge) :
    a = b ∧ Alike (now + r.passes) f' g' := by
  have hunique : ∀ d ∈ f.young now, ∀ k ∈ g.young now, d.text = k.text → d = k := by
    intro d hd k hk ht
    rw [← h.young] at hk
    exact List.inj_on_of_nodup_map hn (mem_young.mp hd).1 (mem_young.mp hk).1 ht
  cases r with
  | get text =>
    obtain ⟨d, hd, hdt, rfl, rfl⟩ | ⟨hnf, rfl, rfl⟩ := hf.get_cases <;>
      obtain ⟨k, hk, hkt, rfl, rfl⟩ | ⟨hng, rfl, rfl⟩ := hg.get_cases
    · obtain rfl := hunique d hd k hk (hdt.trans hkt.symm)
      exact ⟨rfl, h.use hd⟩
    · exact absurd hdt (hng d (h.young ▸ hd))
    · exact absurd hkt (hnf k (h.young ▸ hk))
    · exact ⟨rfl, h.lack text⟩
  | resolve text =>
    have hparses : f.stats.parses = g.stats.parses := h.parses
    obtain ⟨d, hd, hdt, rfl, rfl⟩ | ⟨hnf, hf⟩ := hf.resolve_cases <;>
      obtain ⟨k, hk, hkt, rfl, rfl⟩ | ⟨hng, hg⟩ := hg.resolve_cases
    · obtain rfl := hunique d hd k hk (hdt.trans hkt.symm)
      exact ⟨rfl, h.use hd⟩
    · exact absurd hdt (hng d (h.young ▸ hd))
    · exact absurd hkt (hnf k (h.young ▸ hk))
    · obtain ⟨e, hp, rfl, rfl⟩ | ⟨t, hp, rfl, hi⟩ := hf <;>
        obtain ⟨e', hp', rfl, rfl⟩ | ⟨t', hp', rfl, hi'⟩ := hg <;>
        cases hp.symm.trans hp'
      · exact ⟨rfl, h.fault text⟩
      · rw [← hparses] at hi' ⊢
        have hyoung := f.limits.not_isExpired now text ⟨f.stats.parses, t⟩
        exact ⟨rfl, (h.attempt text).insertion hyoung hi hi'⟩
  | purge => exact absurd rfl hr
  | clear =>
    cases hf
    cases hg
    exact ⟨rfl, h.clear⟩
  | pass ms =>
    cases hf
    cases hg
    exact ⟨rfl, h.pass ms⟩

def others (rs : List (Order × Request)) : List Request :=
  (rs.map Prod.snd).filter (· ≠ .purge)

def Exchange.shown (x : Exchange) : Request × Answer × Stats :=
  (x.request, x.answer, x.after.cache.stats.lasting)

def shown (log : List Exchange) : List (Request × Answer × Stats) :=
  (log.filter (·.request ≠ .purge)).map Exchange.shown

theorem others_cons (o : Order) (hr : r ≠ .purge) (rs : List (Order × Request)) :
    others ((o, r) :: rs) = r :: others rs := by
  simp [others, hr]

theorem shown_cons (hr : x.request ≠ .purge) (log : List Exchange) :
    shown (x :: log) = x.shown :: shown log := by
  simp [shown, hr]

/-- At the same time, the caches only differ in what is too old. -/
structure Session.Resembles (s s' : Session) : Prop where
  now : s.now = s'.now
  flat : ∃ f g, Refines s.cache f ∧ Refines s'.cache g ∧ f.kept.length ≤ f.limits.capacity ∧
    g.kept.length ≤ g.limits.capacity ∧ f.Alike s.now g

namespace Session.Resembles

theorem start (limits : Limits) (fp : String → UInt32) :
    (Session.start limits fp).Resembles (Session.start limits fp) where
  now := rfl
  flat := ⟨_, _, refines_empty limits fp, refines_empty limits fp, Nat.zero_le _, Nat.zero_le _,
    rfl, rfl, rfl⟩

theorem counts (h : s.Resembles s') : s.cache.stats.lasting = s'.cache.stats.lasting := by
  obtain ⟨f, g, hf, hg, -, -, halike⟩ := h.flat
  rw [hf.stats, hg.stats, halike.counts]

theorem now_exchange (s : Session) (o : Order) (r : Request) :
    (s.exchange (o, r)).after.now = s.now + r.passes := by
  cases r <;> rfl

theorem exchange (h : s.Resembles s') (o o' : Order) (hr : r ≠ .purge) :
    (s.exchange (o, r)).shown = (s'.exchange (o', r)).shown ∧
      (s.exchange (o, r)).after.Resembles (s'.exchange (o', r)).after := by
  obtain ⟨f, g, hf, hg, hroomf, hroomg, halike⟩ := h.flat
  obtain ⟨f', hx⟩ := exists_mirrors hf hroomf (o, r)
  obtain ⟨g', hy⟩ := exists_mirrors hg hroomg (o', r)
  have hturn : g.Turn s.now r (s'.exchange (o', r)).answer g' := h.now ▸ hy.turn
  obtain ⟨hanswer, halike'⟩ := halike.turn hx.before.texts hx.turn hturn hr
  have hafter : (s.exchange (o, r)).after.Resembles (s'.exchange (o', r)).after := by
    refine ⟨?_, f', g', hx.after, hy.after, hx.turn.room hroomf, hy.turn.room hroomg, ?_⟩
    · rw [now_exchange, now_exchange, h.now]
    · rw [now_exchange]
      exact halike'
  refine ⟨?_, hafter⟩
  rw [Exchange.shown, Exchange.shown, hanswer, hafter.counts]
  rfl

theorem purge (h : s.Resembles s') (o : Order) :
    (s.exchange (o, .purge)).after.Resembles s' := by
  obtain ⟨f, g, hf, hg, hroomf, hroomg, halike⟩ := h.flat
  obtain ⟨f', hx⟩ := exists_mirrors hf hroomf (o, .purge)
  obtain rfl : f' = (f.purge s.now).2 := Flat.Turn.of_purge hx.turn
  exact ⟨h.now, _, g, hx.after, hg, hx.turn.room hroomf, hroomg, halike.purge⟩

/-- A session goes on like one that leaves out the requests to purge. -/
theorem follow {rs₀ : List (Order × Request)} (h : s.Resembles s')
    (hrs : others rs = rs₀.map Prod.snd) :
    shown (s.log rs) = (s'.log rs₀).map Exchange.shown ∧
      (s.after rs).Resembles (s'.after rs₀) := by
  induction rs generalizing s s' rs₀ with
  | nil =>
    obtain rfl : rs₀ = [] := by simpa [others] using hrs.symm
    exact ⟨rfl, h⟩
  | cons or rs ih =>
    obtain ⟨o, r⟩ := or
    by_cases hr : r = .purge
    · subst hr
      exact ih (h.purge o) hrs
    · rw [others_cons o hr] at hrs
      obtain ⟨⟨o', r'⟩, rs₁, rfl, hr', hrs₁⟩ := List.map_eq_cons_iff.mp hrs.symm
      obtain rfl : r' = r := hr'
      obtain ⟨hshown, hafter⟩ := h.exchange o o' hr
      obtain ⟨hlog, hend⟩ := ih hafter hrs₁.symm
      refine ⟨?_, hend⟩
      rw [Session.log, shown_cons hr, hshown, hlog]
      rfl

end Session.Resembles

namespace Session

def outdated (s : Session) : List (UInt32 × Entry) :=
  s.cache.store.entries.filter fun e => e.2.since + s.cache.limits.maxAge ≤ s.now

def lively (s : Session) : List (UInt32 × Entry) :=
  s.cache.store.entries.filter fun e => s.now < e.2.since + s.cache.limits.maxAge

end Session

/-- Just those entries go whose age has come to the limit, and they are counted. -/
structure Exchange.Sweeps (x : Exchange) : Prop where
  answer : x.answer = .purged x.before.outdated.length
  entries : x.after.cache.store.entries.Perm x.before.lively
  stats : x.after.cache.stats = { x.before.cache.stats with
    expirations := x.before.cache.stats.expirations + x.before.outdated.length }
  size : x.after.cache.size + x.before.outdated.length = x.before.cache.size

theorem Limits.isExpired_eq (limits : Limits) (now : Nat) (e : Entry) :
    e.isExpired limits.maxAge now = decide (e.since + limits.maxAge ≤ now) := by
  have hpos := limits.maxAge_pos
  rw [Entry.isExpired, Bool.eq_iff_iff, decide_eq_true_eq, decide_eq_true_eq]
  omega

theorem Keeps.perm_filter {es : List Entry} (h : Keeps c es) (q : Entry → Bool) :
    (c.store.entries.filter fun p => q p.2).Perm
      ((es.filter q).map fun e => (c.fingerprint e.text, e)) := by
  obtain ⟨hp, hfp⟩ := h.holds.entries
  have hkeyed : (c.store.entries.map Prod.snd).map (fun e => (c.fingerprint e.text, e)) =
      c.store.entries := by
    rw [List.map_map]
    refine (List.map_congr_left fun p hp => ?_).trans (List.map_id' _)
    exact Prod.ext (hfp p hp).symm rfl
  have hperm := (hp.map fun e => (c.fingerprint e.text, e)).filter fun p => q p.2
  rwa [hkeyed, List.filter_map] at hperm

theorem Keeps.length_outdated {es : List Entry} (h : Keeps s.cache es) :
    s.outdated.length = (es.filter (·.isExpired s.cache.limits.maxAge s.now)).length := by
  have hp := (h.perm_filter (·.isExpired s.cache.limits.maxAge s.now)).length_eq
  rw [List.length_map] at hp
  rw [← hp, Session.outdated]
  simp only [Limits.isExpired_eq]

theorem Keeps.perm_lively {es : List Entry} (h : Keeps s.cache es) :
    s.lively.Perm ((es.filter fun e => !e.isExpired s.cache.limits.maxAge s.now).map
      fun e => (s.cache.fingerprint e.text, e)) := by
  have hp := h.perm_filter fun e => !e.isExpired s.cache.limits.maxAge s.now
  rw [Session.lively]
  simpa only [Limits.isExpired_eq, ← decide_not, Nat.not_le] using hp

theorem Refines.sweeps (h : Refines s.cache f) :
    Exchange.Sweeps ⟨s, .purge, (s.step .purge).1, (s.step .purge).2⟩ := by
  obtain ⟨es, hk, -⟩ := h
  obtain ⟨c', hpurge, hk', -, hstats⟩ := hk.purge s.now
  rw [← hk.length_outdated] at hpurge hstats
  have hstep : s.step .purge = (.purged s.outdated.length, { s with cache := c' }) := by
    rw [Session.step, hpurge]
  have hfingerprint : c'.fingerprint = s.cache.fingerprint := by
    have hleads := s.leads_step .purge
    rw [hstep] at hleads
    exact hleads.fingerprint
  rw [hstep]
  refine ⟨rfl, ?_, hstats, ?_⟩
  · have hp := hk'.perm_filter fun _ => true
    rw [List.filter_true, List.filter_true, hfingerprint] at hp
    exact hp.trans hk.perm_lively.symm
  · have hsplit := List.length_eq_length_filter_add (l := es)
      (·.isExpired s.cache.limits.maxAge s.now)
    simp only [Cache.size]
    rw [hk'.holds.size, hk.holds.size, hk.length_outdated, hsplit, Nat.add_comm]

namespace Session

theorem exists_of_mem_log (hx : x ∈ s.log rs) : ∃ rs₀ r, x = (s.after rs₀).exchange r := by
  induction rs generalizing s with
  | nil => cases hx
  | cons r rs ih =>
    obtain rfl | hx := List.mem_cons.mp hx
    · exact ⟨[], r, rfl⟩
    · obtain ⟨rs₀, r', hx⟩ := ih hx
      exact ⟨r :: rs₀, r', hx⟩

/-- Two sessions that only differ in when they purge, and in the orders of the entries, give the
same answers to everything else and count the same, but for what was too old. The answers have
the numbers of the parses, so that the same ones share a parse. To get or parse a text is to
resolve it. Each purge takes just what is too old, and counts it. -/
theorem purge_unseen (limits : Limits) (fp : String → UInt32) (rs rs' : List (Order × Request))
    (h : others rs = others rs') :
    shown ((start limits fp).log rs) = shown ((start limits fp).log rs') ∧
      ((start limits fp).after rs).cache.stats.lasting =
        ((start limits fp).after rs').cache.stats.lasting ∧
      ∀ x ∈ (start limits fp).log rs, x.request = .purge → x.Sweeps := by
  let rs₀ := rs.filter fun r => r.2 ≠ .purge
  have hrs₀ : others rs = rs₀.map Prod.snd := List.filter_map
  have hstart := Resembles.start limits fp
  obtain ⟨hshown, hend⟩ := hstart.follow hrs₀
  obtain ⟨hshown', hend'⟩ := hstart.follow (h.symm.trans hrs₀)
  refine ⟨hshown.trans hshown'.symm, hend.counts.trans hend'.counts.symm, ?_⟩
  intro x hx hr
  obtain ⟨rs₁, ⟨o, r⟩, rfl⟩ := exists_of_mem_log hx
  obtain rfl : r = .purge := hr
  obtain ⟨f, hf, -⟩ := follow (P := fun _ _ => True) limits fp trivial
    (fun _ _ _ _ _ _ => trivial) rs₁
  exact (hf.reorder o).sweeps

theorem purge_unseen_full :
    let limits : Limits := ⟨2, 10, by decide, by decide⟩
    let rs : List Request := [.resolve "a", .pass 6, .resolve "b", .pass 5, .resolve "c", .get "b"]
    let rs' : List Request := [.resolve "a", .purge, .pass 6, .resolve "b", .pass 5, .purge,
      .resolve "c", .get "b", .purge]
    let late := rs.map fun r => (Order.asKept, r)
    let early := rs'.map fun r => (Order.asKept, r)
    let log := (start limits fun _ => 0).log early
    others early = others late ∧ shown log = shown ((start limits fun _ => 0).log late) ∧
      (log.map (·.after.cache.stats.expirations)) = [0, 0, 0, 0, 0, 1, 1, 1, 1] ∧
      ∀ x ∈ log, x.request = .purge → x.Sweeps := by
  intro limits rs rs' late early log
  have h : others early = others late := by decide
  obtain ⟨hshown, -, hsweeps⟩ := purge_unseen limits (fun _ => 0) early late h
  exact ⟨h, hshown, by cbv, hsweeps⟩

end Session

end Spintax.Cache
