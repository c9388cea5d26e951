import Mathlib
import Spintax.Proofs.Cache.Changes
import Spintax.Proofs.Cache.Exchanges
import Spintax.Proofs.Cache.Losses

namespace Spintax.Cache

variable {f f' : Flat} {now : Nat} {text : String} {k : Kept} {r : Request} {a : Answer}
  {x : Exchange} {s : Session} {log : List Exchange}

namespace Request

def asks : Request → Bool
  | .get _ | .resolve _ => true
  | .purge | .clear | .pass _ => false

def misses (has : String → Bool) : Request → Bool
  | .get text | .resolve text => !has text
  | .purge | .clear | .pass _ => false

def parses (has : String → Bool) : Request → Bool
  | .resolve text => !has text
  | .get _ | .purge | .clear | .pass _ => false

def drops (n : Nat) : Request → Nat
  | .clear => n
  | .get _ | .resolve _ | .purge | .pass _ => 0

end Request

def Session.has (s : Session) (text : String) : Bool :=
  s.cache.store.entries.any fun e =>
    e.2.text = text && !e.2.isExpired s.cache.limits.maxAge s.now

namespace Exchange

def asks (x : Exchange) : Bool :=
  x.request.asks

def misses (x : Exchange) : Bool :=
  x.request.misses x.before.has

def parses (x : Exchange) : Bool :=
  x.request.parses x.before.has

def drops (x : Exchange) : Nat :=
  x.request.drops x.before.cache.store.entries.length

end Exchange

/-- The store is in order, and what was counted in the course of its history adds up. -/
structure Session.Balanced (s : Session) (limits : Limits) (log : List Exchange) : Prop where
  size : s.cache.size = s.cache.store.entries.length
  room : s.cache.size ≤ limits.capacity
  texts : (s.cache.store.entries.map (·.2.text)).Nodup
  filled : ∀ b ∈ s.cache.store.buckets, b.2 ≠ []
  lookups : s.cache.stats.hits + s.cache.stats.misses = log.countP (·.asks)
  misses : s.cache.stats.misses = log.countP (·.misses)
  parses : s.cache.stats.parses = log.countP (·.parses)
  parsed : s.cache.stats.parses = s.cache.stats.parseFailures + s.cache.store.entries.length +
    s.cache.stats.evictions + s.cache.stats.expirations + (log.map (·.drops)).sum

namespace Flat

def has (f : Flat) (now : Nat) (text : String) : Bool :=
  f.kept.any fun k => k.text = text && !k.isExpired f.limits.maxAge now

theorem has_of_mem (hk : k ∈ f.kept) (he : k.isExpired f.limits.maxAge now = false) :
    f.has now k.text = true := by
  rw [has, List.any_eq_true]
  exact ⟨k, hk, by simp [he]⟩

theorem not_has (hl : ∀ k ∈ f.kept, k.text = text → k.isExpired f.limits.maxAge now = true) :
    (!f.has now text) = true := by
  simpa [has] using hl

def known (f : Flat) : Nat :=
  f.stats.parseFailures + f.kept.length + f.losses

theorem known_use (hn : (f.kept.map Kept.text).Nodup) (hk : k ∈ f.kept) :
    (f.use k).known = f.known := by
  simp only [known, losses, use, List.length_append, List.length_singleton, length_others hn hk]

theorem known_lack (f : Flat) (text : String) : (f.lack text).known = f.known := by
  have hle : (f.kept.filter (·.text ≠ text)).length ≤ f.kept.length := List.length_filter_le _ _
  simp only [known, losses, lack]
  omega

theorem known_purge (f : Flat) (now : Nat) : (f.purge now).2.known = f.known := by
  have hlen := List.length_eq_length_filter_add (l := f.kept) (·.isExpired f.limits.maxAge now)
  simp only [known, losses, purge]
  omega

theorem Insertion.known (h : f.Insertion now k f') : f'.known = f.known + 1 := by
  cases h with
  | plain h =>
    simp only [Flat.known, losses, List.length_append, List.length_singleton]
    omega
  | thin =>
    have hlen := List.length_eq_length_filter_add (l := f.kept) (·.isExpired f.limits.maxAge now)
    simp only [Flat.known, losses, List.length_append, List.length_singleton]
    omega
  | evict h _ hk =>
    simp only [Flat.known, losses, hk, List.length_append, List.length_cons, List.length_nil]
    omega

structure Booked (f f' : Flat) (now : Nat) (r : Request) : Prop where
  lookups : f'.stats.hits + f'.stats.misses = f.stats.hits + f.stats.misses + r.asks.toNat
  misses : f'.stats.misses = f.stats.misses + (r.misses (f.has now)).toNat
  parses : f'.stats.parses = f.stats.parses + (r.parses (f.has now)).toNat
  known : f'.known + r.drops f.kept.length = f.known + (r.parses (f.has now)).toNat

theorem Booked.of_use (hn : (f.kept.map Kept.text).Nodup) (hk : k ∈ f.kept)
    (he : k.isExpired f.limits.maxAge now = false)
    (hr : r = .get k.text ∨ r = .resolve k.text) : f.Booked (f.use k) now r := by
  have hasks : r.asks = true := by obtain rfl | rfl := hr <;> rfl
  have hmisses : r.misses (f.has now) = false := by
    obtain rfl | rfl := hr <;> simp [Request.misses, has_of_mem hk he]
  have hparses : r.parses (f.has now) = false := by
    obtain rfl | rfl := hr <;> simp [Request.parses, has_of_mem hk he]
  have hdrops : r.drops f.kept.length = 0 := by obtain rfl | rfl := hr <;> rfl
  refine ⟨?_, ?_, ?_, ?_⟩
  · rw [hasks]
    exact Nat.add_right_comm _ _ _
  · rw [hmisses]
    rfl
  · rw [hparses]
    rfl
  · rw [hdrops, hparses]
    exact known_use hn hk

theorem Turn.booked (h : f.Turn now r a f') (hn : (f.kept.map Kept.text).Nodup) :
    f.Booked f' now r := by
  cases h with
  | found hk he => exact .of_use hn hk he (.inl rfl)
  | reused hk he => exact .of_use hn hk he (.inr rfl)
  | @missing text hl =>
    refine ⟨rfl, ?_, rfl, known_lack f text⟩
    rw [Request.misses, not_has hl]
    rfl
  | @fault text e hl hp =>
    have hknown := known_lack f text
    refine ⟨rfl, ?_, ?_, ?_⟩
    · rw [Request.misses, not_has hl]
      rfl
    · rw [Request.parses, not_has hl]
      rfl
    · rw [Request.parses, not_has hl, ← hknown]
      simp only [known, losses, attempt, lack, Request.drops, Bool.toNat_true]
      omega
  | @parsed text t _ hl hp hi =>
    obtain ⟨hhits, hmiss, hparses⟩ := hi.stats
    refine ⟨?_, ?_, ?_, ?_⟩
    · rw [hhits, hmiss]
      rfl
    · rw [Request.misses, not_has hl, hmiss]
      rfl
    · rw [Request.parses, not_has hl, hparses]
      rfl
    · rw [Request.parses, not_has hl, hi.known]
      exact congrArg (· + 1) (known_lack f text)
  | purge => exact ⟨rfl, rfl, rfl, known_purge f now⟩
  | clear =>
    refine ⟨rfl, rfl, rfl, ?_⟩
    simp only [known, losses, Request.drops, Request.parses, List.length_nil, Bool.toNat_false]
    omega
  | pass ms => exact ⟨rfl, rfl, rfl, rfl⟩

end Flat

theorem Refines.has (h : Refines s.cache f) (text : String) : s.has text = f.has s.now text := by
  rw [Session.has, Flat.has, ← h.entries.any_eq, List.any_map, h.limits]
  rfl

/-- The books of a flat cache with a history. -/
structure Flat.Books (log : List Exchange) (f : Flat) : Prop where
  lookups : f.stats.hits + f.stats.misses = log.countP (·.asks)
  misses : f.stats.misses = log.countP (·.misses)
  parses : f.stats.parses = log.countP (·.parses)
  known : f.stats.parses = f.known + (log.map (·.drops)).sum

theorem countP_concat (q : Exchange → Bool) (log : List Exchange) (x : Exchange) :
    (log ++ [x]).countP q = log.countP q + (q x).toNat := by
  rw [List.countP_append, List.countP_singleton]
  cases q x <;> rfl

theorem Flat.Books.exchange (h : f.Books log) (hx : x.Mirrors f f') :
    f'.Books (log ++ [x]) := by
  have hb := hx.turn.booked hx.before.texts
  have hhas : x.before.has = f.has x.before.now := funext hx.before.has
  have hmisses : x.misses = x.request.misses (f.has x.before.now) := by
    rw [Exchange.misses, hhas]
  have hparses : x.parses = x.request.parses (f.has x.before.now) := by
    rw [Exchange.parses, hhas]
  have hdrops : x.drops = x.request.drops f.kept.length := by
    rw [Exchange.drops, ← hx.before.entries.length_eq, List.length_map]
  constructor
  · rw [hb.lookups, h.lookups, countP_concat]
    rfl
  · rw [hb.misses, h.misses, countP_concat, hmisses]
  · rw [hb.parses, h.parses, countP_concat, hparses]
  · have hk := hb.known
    rw [hb.parses, h.known, List.map_append, List.sum_append, List.map_singleton,
      List.sum_singleton, hdrops]
    omega

theorem Refines.store {c : Cache} (h : Refines c f) :
    c.size = c.store.entries.length ∧ (c.store.entries.map (·.2.text)).Nodup ∧
      ∀ b ∈ c.store.buckets, b.2 ≠ [] := by
  obtain ⟨es, hk, rfl⟩ := h
  refine ⟨hk.holds.size_entries, ?_, hk.holds.filled⟩
  have ht := (hk.holds.entries.1.map Entry.text).nodup_iff.mpr hk.holds.texts
  rwa [List.map_map] at ht

namespace Session

/-- What one request does to the store, it does change by change. -/
theorem changes_of_mem_log {fp : String → UInt32} (hs : s.cache.store.Arises fp)
    (hfp : s.cache.fingerprint = fp) (rs : List (Order × Request)) (hx : x ∈ s.log rs) :
    x.before.cache.store.Arises fp ∧ Leads x.before.cache x.after.cache := by
  induction rs generalizing s with
  | nil => cases hx
  | cons r rs ih =>
    have hl : Leads (s.exchange r).before.cache (s.exchange r).after.cache :=
      leads_step (s.exchange r).before r.2
    obtain rfl | hx := List.mem_cons.mp hx
    · exact ⟨hs, hl⟩
    · exact ih (hs.trans (hfp ▸ hl.changes)) (hl.fingerprint.trans hfp) hx

/-- After any requests, the size is the number of the entries and not too large, each text has
one of them, and the counters tell what happened and what became of each parse. To get or parse
a text is to resolve it. -/
theorem balanced (limits : Limits) (fp : String → UInt32) (rs : List (Order × Request)) :
    let s := (start limits fp).after rs
    let log := (start limits fp).log rs
    s.Balanced limits log ∧
    -- Each request changes the store entry by entry, and whatever entry goes was counted, so that
    -- the size never has to become less than zero.
    (∀ x ∈ log, x.before.cache.store.Arises fp ∧ Leads x.before.cache x.after.cache) ∧
    ∀ store : Store, store.Arises fp → store.size = store.entries.length ∧
      ∀ key text store', store.remove? key text = some store' → store'.size + 1 = store.size := by
  intro s log
  have hnew : (Flat.empty limits).Books [] := ⟨rfl, rfl, rfl, rfl⟩
  obtain ⟨f, (h : Refines s.cache f), hlimits, hroom, (hbooks : f.Books log)⟩ :=
    follow (P := fun log f => f.Books log) limits fp hnew (fun _ _ _ _ hb hx => hb.exchange hx) rs
  obtain ⟨hsize, htexts, hfilled⟩ := h.store
  have hlen : s.cache.store.entries.length = f.kept.length := by
    rw [← hsize, h.size]
  refine ⟨⟨hsize, ?_, htexts, hfilled, ?_, ?_, ?_, ?_⟩, ?_, ?_⟩
  · rw [h.size, ← hlimits]
    exact hroom
  · rw [h.stats]
    exact hbooks.lookups
  · rw [h.stats]
    exact hbooks.misses
  · rw [h.stats]
    exact hbooks.parses
  · rw [h.stats, hlen, hbooks.known, Flat.known, Flat.losses]
    omega
  · have hempty : (start limits fp).cache.store.Arises fp := .refl
    exact fun x hx => changes_of_mem_log hempty rfl rs hx
  · intro store hstore
    obtain ⟨es, hes⟩ := hstore.holds
    exact ⟨hes.size_entries, fun key text store' => hstore.size_of_remove?⟩

theorem balanced_seven :
    let limits : Limits := ⟨1, 10, by decide, by decide⟩
    let rs : List (Order × Request) := [(.asKept, .resolve "a"), (.asKept, .resolve "b"),
      (.asKept, .pass 10), (.asKept, .get "b"), (.asKept, .resolve "{}"), (.asKept, .resolve "a"),
      (.asKept, .clear)]
    let s := (start limits fun _ => 0).after rs
    let log := (start limits fun _ => 0).log rs
    s.Balanced limits log ∧ s.cache.stats = ⟨0, 5, 4, 1, 0, 1, 1⟩ ∧
      ∃ x ∈ log, ∃ store', x.before.cache.store.remove? 0 "a" = some store' ∧
        store'.size + 1 = x.before.cache.store.size := by
  intro limits rs s log
  obtain ⟨hbalanced, hchanges, hcounted⟩ := balanced limits (fun _ => 0) rs
  let x := ((start limits fun _ => 0).exchange (.asKept, .resolve "a")).after.exchange
    (.asKept, .resolve "b")
  have hx : x ∈ log := List.mem_cons_of_mem _ List.mem_cons_self
  have hstats : s.cache.stats = ⟨0, 5, 4, 1, 0, 1, 1⟩ := by cbv
  obtain ⟨store', hr⟩ : ∃ store', x.before.cache.store.remove? 0 "a" = some store' :=
    ⟨_, by cbv⟩
  obtain ⟨harises, -⟩ := hchanges x hx
  exact ⟨hbalanced, hstats, x, hx, store', hr, (hcounted _ harises).2 0 "a" store' hr⟩

end Session

end Spintax.Cache
