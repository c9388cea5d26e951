import Spintax.Proofs.Cache.Changes
import Spintax.Proofs.Cache.Turns

namespace Spintax.Cache

/-- What the operators were told since the meter stood at `m` is what the cache has counted. -/
structure Counted (m : Meter) (c : Cache) : Prop where
  hits : c.meter.hits = m.hits + c.stats.hits
  misses : c.meter.misses = m.misses + c.stats.misses
  parsed : c.meter.parsed = m.parsed + (c.stats.parses - c.stats.parseFailures)
  unparsed : c.meter.unparsed = m.unparsed + c.stats.parseFailures
  failures : c.stats.parseFailures ≤ c.stats.parses
  waits : c.meter.waits = m.waits + c.stats.waits
  evicted : c.meter.evicted = m.evicted + c.stats.evictions
  outdated : c.meter.outdated = m.outdated + c.stats.expirations

def Told (c : Cache) : Prop :=
  c.meter.entries = c.store.size

/-- The meter shows what the cache has counted, and how many entries it has. -/
structure Mirrors (m : Meter) (c : Cache) : Prop where
  counted : Counted m c
  told : Told c
  arises : c.store.Arises c.fingerprint

variable {m : Meter} {c c' : Cache}

theorem Mirrors.entries (h : Mirrors m c) : c.meter.entries = c.store.entries.length := by
  obtain ⟨es, hes⟩ := h.arises.holds
  exact h.told.trans hes.size_entries

theorem Leads.arises (hl : Leads c c') (h : c.store.Arises c.fingerprint) :
    c'.store.Arises c'.fingerprint := by
  rw [hl.fingerprint]
  exact h.trans hl.changes

namespace Counted

variable (h : Counted m c)

include h

theorem hit : Counted m c.hit :=
  { h with hits := congrArg (· + 1) h.hits }

theorem miss : Counted m c.miss :=
  { h with misses := congrArg (· + 1) h.misses }

theorem wait : Counted m c.wait :=
  { h with waits := congrArg (· + 1) h.waits }

theorem expire (n : Nat) (store : Store) : Counted m (c.expire n store) :=
  { h with outdated := by simp only [Cache.expire, h.outdated, Nat.add_assoc] }

theorem parse (text : String) : Counted m (c.parse text).2 := by
  have hle := h.failures
  rw [Cache.parse]
  split
  · refine { h with parsed := ?_, failures := Nat.le_succ_of_le hle }
    simp only [h.parsed]
    omega
  · refine { h with parsed := ?_, unparsed := congrArg (· + 1) h.unparsed,
                    failures := Nat.succ_le_succ hle }
    simp only [h.parsed]
    omega

theorem evict? (he : c.evict? = some c') : Counted m c' := by
  rw [Cache.evict?] at he
  split at he
  · cases he
  · obtain ⟨store, -, rfl⟩ := Option.map_eq_some_iff.mp he
    exact { h with evicted := congrArg (· + 1) h.evicted }

theorem purge (now : Nat) : Counted m (c.purge now).2 := by
  rw [Cache.purge]
  simp only
  split
  · exact { h with }
  · exact h.expire _ _

end Counted

theorem Counted.shrink (n : Nat) (h : Counted m c) : Counted m (shrink n c) := by
  induction n generalizing c with
  | zero => exact h
  | succ n ih =>
    rw [Cache.shrink]
    split
    · next he => exact ih (h.evict? he)
    · exact h

theorem Counted.fit (h : Counted m c) (now : Nat) : Counted m (c.fit now) := by
  rw [Cache.fit]
  split
  · exact (h.purge now).shrink _
  · exact h

theorem Store.removeAll_of_zero {ps : List (UInt32 × Entry)} {s : Store}
    (h : (removeAll ps s).1 = 0) : (removeAll ps s).2 = s := by
  induction ps with
  | nil => rfl
  | cons p ps ih =>
    rw [removeAll] at h ⊢
    split at h
    · cases h
    · exact ih h

namespace Mirrors

variable (h : Mirrors m c) (now : Nat) (text : String)

include h

theorem hit : Mirrors m c.hit :=
  ⟨h.counted.hit, h.told, h.arises⟩

theorem miss : Mirrors m c.miss :=
  ⟨h.counted.miss, h.told, h.arises⟩

theorem wait : Mirrors m c.wait :=
  ⟨h.counted.wait, h.told, h.arises⟩

theorem parse : Mirrors m (c.parse text).2 := by
  have hcounted := h.counted.parse text
  rw [Cache.parse] at hcounted ⊢
  split at hcounted <;> exact ⟨hcounted, h.told, h.arises⟩

theorem lookup : Mirrors m (c.lookup now text).2 := by
  have harises := (leads_lookup c now text).arises h.arises
  rw [Cache.lookup] at harises ⊢
  cases hfind : c.store.find? (c.fingerprint text) text with
  | none => exact h
  | some e =>
    simp only [hfind] at harises ⊢
    split
    · next he =>
      rw [if_pos he] at harises
      split
      · next hr =>
        rw [hr] at harises
        exact ⟨h.counted.expire _ _, rfl, harises⟩
      · exact h
    · next he =>
      rw [if_neg he] at harises
      exact ⟨{ h.counted with }, h.told, harises⟩

theorem purge : Mirrors m (c.purge now).2 := by
  have harises := (leads_purge c now).arises h.arises
  have hcounted := h.counted.purge now
  refine ⟨hcounted, ?_, harises⟩
  rw [Cache.purge]
  simp only
  split
  · next hn =>
    rw [Told, Store.removeAll_of_zero hn]
    exact h.told
  · rfl

theorem clear : Mirrors m c.clear :=
  ⟨{ h.counted with }, rfl, .refl⟩

theorem insert (p : Parse) : Mirrors m (c.insert now text p) := by
  have harises := (leads_insert c now text p).arises h.arises
  have hkept : Counted m { c with
      store := c.store.insert (c.fingerprint text) ⟨text, p, now, c.ticks⟩
      ticks := c.ticks + 1 } := { h.counted with }
  rw [Cache.insert] at harises ⊢
  split
  · next hsize =>
    rw [if_pos hsize] at harises
    exact ⟨hkept, h.told.trans hsize.symm, harises⟩
  · next hsize =>
    rw [if_neg hsize] at harises
    exact ⟨{ hkept.fit now with }, rfl, harises⟩

theorem parseAndKeep : Mirrors m (c.parseAndKeep now text).2 := by
  have hparse := h.parse text
  rw [Cache.parseAndKeep]
  split
  · next hp =>
    rw [hp] at hparse
    exact hparse.insert now text _
  · next hp =>
    rw [hp] at hparse
    exact hparse

theorem get : Mirrors m (c.get now text).2 := by
  have hlookup := h.lookup now text
  rw [Cache.get]
  split
  · next hl =>
    rw [hl] at hlookup
    exact hlookup.hit
  · next hl =>
    rw [hl] at hlookup
    exact hlookup.miss

theorem lead : Mirrors m (c.lead now text).2 := by
  have hlookup := h.lookup now text
  rw [Cache.lead]
  split
  · next hl =>
    rw [hl] at hlookup
    exact hlookup
  · next hl =>
    rw [hl] at hlookup
    exact hlookup.parseAndKeep now text

theorem resolve : Mirrors m (c.resolve now text).2 := by
  have hget := h.get now text
  rw [Cache.resolve]
  split
  · next hg =>
    rw [hg] at hget
    exact hget
  · next hg =>
    rw [hg] at hget
    exact hget.lead now text

end Mirrors

theorem Session.mirrors_step {s : Session} (h : Mirrors m s.cache) (r : Request) :
    Mirrors m (s.step r).2.cache := by
  cases r with
  | get text => exact h.get s.now text
  | resolve text => exact h.resolve s.now text
  | purge => exact h.purge s.now
  | clear => exact h.clear
  | pass ms => exact h

/-- The step of one of several callers is a step of the cache, or leaves it alone. -/
theorem Crowd.mirrors_step {w w' : Crowd} (h : Mirrors m w.cache) {now i : Nat}
    (hs : w.step now i = some w') : Mirrors m w'.cache := by
  obtain ⟨x, s, w₁, s', -, hturn, rfl⟩ := turn_of_step hs
  have hcache : Mirrors m w₁.cache := by
    cases hturn with
    | hit hg | miss hg =>
      have hget := h.get now x
      rwa [hg] at hget
    | join => exact h.wait
    | find hl | lack hl =>
      have hlookup := h.lookup now x
      rwa [hl] at hlookup
    | parse hp | reject hp =>
      have hparse := h.parse x
      rwa [hp] at hparse
    | keep => exact h.insert now x _
    | claim | receive | release | publish => exact h
  exact hcache

end Spintax.Cache
