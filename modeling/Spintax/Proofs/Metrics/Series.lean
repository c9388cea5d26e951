import Spintax.Metrics
import Spintax.Proofs.Cache.Mirrors
import Spintax.Proofs.Campaign.Accounts

namespace Spintax

namespace Tracker

variable {t : Tracker} {m : TrackerMeter} {campaign : String} {l : Ledger}
  {ls : List (String × Ledger)} {rs : List Request}

/-- Whether a message is recorded. -/
def Request.records : Request → Bool
  | .record .. => true
  | .snapshot .. | .write .. | .reset .. => false

theorem length_place_of_known (h : (ls.map Prod.fst).Pairwise (· < ·))
    (hl : (ls.lookup campaign).isSome) : (place campaign l ls).length = ls.length := by
  induction ls with
  | nil => cases hl
  | cons e ls ih =>
    obtain ⟨he, hls⟩ := List.pairwise_cons.mp h
    rw [place]
    split
    · rfl
    · next hne =>
      rw [Entries.lookup_cons, if_neg hne] at hl
      split
      · next hlt =>
        obtain ⟨k, hk⟩ := Option.isSome_iff_exists.mp hl
        have hmem := (Entries.lookup_eq_some_iff_mem (hls.imp ne_of_lt)).mp hk
        exact absurd (he campaign (List.mem_map_of_mem hmem)) (lt_asymm hlt)
      · rw [List.length_cons, List.length_cons, ih hls hl]

structure Mirrors (m : TrackerMeter) (t : Tracker) (rs : List Request) : Prop extends
    Accounts t rs where
  renders : t.meter.renders = m.renders + rs.countP (·.records)
  campaigns : t.meter.campaigns = t.ledgers.length

theorem mirrors_start (m : TrackerMeter) : Mirrors m ⟨[], { m with campaigns := 0 }⟩ [] :=
  { Accounts.empty with renders := rfl, campaigns := rfl }

theorem Mirrors.step (h : Mirrors m t rs) (r : Request) : Mirrors m (t.step r).2 (rs ++ [r]) := by
  refine { h.toAccounts.step r with renders := ?_, campaigns := ?_ }
  · rw [List.countP_append, ← Nat.add_assoc, ← h.renders]
    cases r with
    | record now writer c cs =>
      rw [Tracker.step, record]
      split <;> rfl
    | snapshot | write => rfl
    | reset now c =>
      rw [Tracker.step, reset]
      split <;> rfl
  · cases r with
    | record now writer c cs =>
      rw [Tracker.step, record]
      split
      · next l hl =>
        have hknown : (t.ledgers.lookup c).isSome := Option.isSome_of_eq_some hl
        exact h.campaigns.trans (length_place_of_known h.ascending hknown).symm
      · rfl
    | snapshot | write => exact h.campaigns
    | reset now c =>
      rw [Tracker.step, reset]
      split
      · rfl
      · exact h.campaigns

end Tracker

/-- A cache with its callers and a tracker, at some moment. -/
structure Service where
  crowd : Cache.Crowd
  now : Nat
  tracker : Tracker

namespace Service

/-- What may be done. A request to the cache is served in one go, while a caller that arrives
goes through its stages one by one. -/
inductive Operation where
  | serve (r : Cache.Request)
  | arrive (text : String)
  | call (i : Nat)
  | reorder (order : Cache.Order)
  | track (r : Tracker.Request)

def start (limits : Cache.Limits) (fingerprint : String → UInt32) (m : Meters) : Service where
  crowd := .start { Cache.empty limits fingerprint with meter := { m.cache with entries := 0 } } []
  now := 0
  tracker := ⟨[], { m.tracker with campaigns := 0 }⟩

def after (s : Service) : Operation → Service
  | .serve r =>
    let session := (Cache.Session.step ⟨s.crowd.cache, s.now⟩ r).2
    { s with crowd := { s.crowd with cache := session.cache }, now := session.now }
  | .arrive text =>
    { s with crowd := { s.crowd with callers := s.crowd.callers ++ [⟨text, .asking⟩] } }
  | .call i => { s with crowd := (s.crowd.step s.now i).getD s.crowd }
  | .reorder order => { s with crowd := s.crowd.after (.reorder order) }
  | .track r => { s with tracker := (s.tracker.step r).2 }

def follow (s : Service) (os : List Operation) : Service :=
  os.foldl after s

def meters (s : Service) (mailer : MailerMeter) : Meters :=
  ⟨s.crowd.cache.meter, s.tracker.meter, mailer⟩

def Operation.request? : Operation → Option Tracker.Request
  | .track r => some r
  | .serve _ | .arrive _ | .call _ | .reorder _ => none

variable {s : Service} {m : Meters} {rs : List Tracker.Request}

structure Mirrors (m : Meters) (s : Service) (rs : List Tracker.Request) : Prop where
  cache : Cache.Mirrors m.cache s.crowd.cache
  tracker : Tracker.Mirrors m.tracker s.tracker rs

theorem mirrors_start (limits : Cache.Limits) (fingerprint : String → UInt32) (m : Meters) :
    Mirrors m (start limits fingerprint m) [] where
  cache := ⟨⟨rfl, rfl, rfl, rfl, Nat.le_refl _, rfl, rfl, rfl⟩, rfl, .refl⟩
  tracker := Tracker.mirrors_start m.tracker

theorem Mirrors.after (h : Mirrors m s rs) (o : Operation) :
    Mirrors m (s.after o) (rs ++ o.request?.toList) := by
  obtain ⟨hcache, htracker⟩ := h
  cases o with
  | track r => exact ⟨hcache, htracker.step r⟩
  | serve r =>
    rw [Operation.request?, Option.toList_none, List.append_nil]
    exact ⟨Cache.Session.mirrors_step (s := ⟨s.crowd.cache, s.now⟩) hcache r, htracker⟩
  | arrive text =>
    rw [Operation.request?, Option.toList_none, List.append_nil]
    exact ⟨hcache, htracker⟩
  | call i =>
    rw [Operation.request?, Option.toList_none, List.append_nil]
    refine ⟨?_, htracker⟩
    rw [Service.after]
    cases hs : s.crowd.step s.now i with
    | none => exact hcache
    | some w => exact Cache.Crowd.mirrors_step hcache hs
  | reorder order =>
    rw [Operation.request?, Option.toList_none, List.append_nil]
    exact ⟨⟨{ hcache.counted with }, hcache.told, hcache.arises⟩, htracker⟩

theorem Mirrors.follow (h : Mirrors m s rs) (os : List Operation) :
    Mirrors m (s.follow os) (rs ++ os.filterMap (·.request?)) := by
  induction os generalizing s rs with
  | nil => rwa [List.filterMap_nil, List.append_nil]
  | cons o os ih =>
    have hcons : (o :: os).filterMap (·.request?) =
        o.request?.toList ++ os.filterMap (·.request?) := by
      rw [List.filterMap_cons]
      cases o.request? <;> rfl
    rw [hcons, ← List.append_assoc]
    exact ih (h.after o)

end Service

def Meters.Rises (m m' : Meters) (name : String) (k : Nat) : Prop :=
  ∃ n, m.series.lookup name = some n ∧ m'.series.lookup name = some (n + k)

theorem Meters.Rises.iff_eq {m m' : Meters} {name : String} {k j : Nat} (h : m.Rises m' name k) :
    m.Rises m' name j ↔ j = k := by
  constructor
  · rintro ⟨n, hn, hj⟩
    obtain ⟨n', hn', hk⟩ := h
    cases hn.symm.trans hn'
    exact Nat.add_left_cancel (Option.some.inj (hj.symm.trans hk))
  · rintro rfl
    exact h

/-- Some operations follow each other. Counters may have counted before, and a mailer may count
meanwhile. -/
theorem series_mirror (limits : Cache.Limits) (fingerprint : String → UInt32) (m : Meters)
    (mailer : MailerMeter) (os : List Service.Operation) :
    let s := (Service.start limits fingerprint m).follow os
    let stats := s.crowd.cache.stats
    let rises := m.Rises (s.meters mailer)
    let shows := fun name n => (s.meters mailer).series.lookup name = some n
    rises "ara_variation_cache_lookups_total\x7bresult=\"hit\"\x7d" stats.hits ∧
    rises "ara_variation_cache_lookups_total\x7bresult=\"miss\"\x7d" stats.misses ∧
    stats.parseFailures ≤ stats.parses ∧
    rises "ara_variation_template_parses_total\x7boutcome=\"ok\"\x7d"
      (stats.parses - stats.parseFailures) ∧
    rises "ara_variation_template_parses_total\x7boutcome=\"error\"\x7d" stats.parseFailures ∧
    rises "ara_variation_cache_evictions_total\x7breason=\"capacity\"\x7d" stats.evictions ∧
    rises "ara_variation_cache_evictions_total\x7breason=\"age\"\x7d" stats.expirations ∧
    rises "ara_variation_cache_single_flight_waits_total" stats.waits ∧
    shows "ara_variation_cache_entries" s.crowd.cache.store.entries.length ∧
    rises "ara_variation_tracked_renders_total"
      ((os.filterMap (·.request?)).countP (·.records)) ∧
    shows "ara_variation_tracked_campaigns" s.tracker.campaigns.length := by
  intro s stats rises shows
  have h : Service.Mirrors m s (os.filterMap (·.request?)) :=
    (Service.mirrors_start limits fingerprint m).follow os
  have hentries := h.cache.entries
  obtain ⟨⟨hcounted, -, -⟩, htracker⟩ := h
  clear_value s
  refine ⟨⟨m.cache.hits, rfl, ?_⟩, ⟨m.cache.misses, rfl, ?_⟩, hcounted.failures,
    ⟨m.cache.parsed, rfl, ?_⟩, ⟨m.cache.unparsed, rfl, ?_⟩, ⟨m.cache.evicted, rfl, ?_⟩,
    ⟨m.cache.outdated, rfl, ?_⟩, ⟨m.cache.waits, rfl, ?_⟩, ?_, ⟨m.tracker.renders, rfl, ?_⟩, ?_⟩
  · exact congrArg some hcounted.hits
  · exact congrArg some hcounted.misses
  · exact congrArg some hcounted.parsed
  · exact congrArg some hcounted.unparsed
  · exact congrArg some hcounted.evicted
  · exact congrArg some hcounted.outdated
  · exact congrArg some hcounted.waits
  · exact congrArg some hentries
  · exact congrArg some htracker.renders
  · have hlength : s.tracker.campaigns.length = s.tracker.ledgers.length := List.length_map _
    rw [hlength]
    exact congrArg some htracker.campaigns

end Spintax
