import Spintax.Proofs.Cache.Buckets
import Spintax.Proofs.Cache.Flat

namespace Spintax.Cache

def Entry.forget (e : Entry) : Kept :=
  ⟨e.text, e.parse, e.since⟩

variable {c : Cache} {es ds l₁ l₂ : List Entry} {d e : Entry} {n now : Nat} {text : String}

structure Recent (n : Nat) (es : List Entry) : Prop where
  sorted : es.Pairwise (·.lastUse < ·.lastUse)
  past : ∀ e ∈ es, e.lastUse < n

theorem Recent.sublist (h : Recent n es) (hd : ds.Sublist es) : Recent n ds where
  sorted := h.sorted.sublist hd
  past e he := h.past e (hd.subset he)

theorem Recent.append (h : Recent n es) (he : e.lastUse = n) : Recent (n + 1) (es ++ [e]) where
  sorted := by
    rw [List.pairwise_append]
    refine ⟨h.sorted, by simp, fun d hd e' he' => ?_⟩
    rw [List.mem_singleton.mp he', he]
    exact h.past d hd
  past d hd := by
    obtain hd | hd := List.mem_append.mp hd
    · exact Nat.lt_succ_of_lt (h.past d hd)
    · rw [List.mem_singleton.mp hd, he]
      exact Nat.lt_succ_self n

/-- The cache has these entries, and the one used the longest time ago is the first. -/
structure Keeps (c : Cache) (es : List Entry) : Prop where
  holds : c.store.Holds c.fingerprint es
  recent : Recent c.ticks es

namespace Keeps

theorem lookup_eq_none (h : Keeps c es) (ht : ∀ e ∈ es, e.text ≠ text) :
    c.lookup now text = (none, c) := by
  rw [lookup, h.holds.find?_eq_none ht]

theorem lookup_expired (h : Keeps c (l₁ ++ e :: l₂))
    (he : e.isExpired c.limits.maxAge now = true) :
    ∃ s, c.lookup now e.text = (none, c.expire 1 s) ∧ Keeps (c.expire 1 s) (l₁ ++ l₂) := by
  have hs := h.holds.of_perm List.perm_middle
  obtain ⟨s, hr, hs'⟩ := hs.remove?_eq_some
  refine ⟨s, ?_, hs', h.recent.sublist ((List.sublist_cons_self e l₂).append_left l₁)⟩
  rw [lookup, hs.find?_eq_some]
  simp only [he, if_true, hr]

theorem lookup_fresh (h : Keeps c (l₁ ++ e :: l₂))
    (he : e.isExpired c.limits.maxAge now = false) :
    ∃ s, c.lookup now e.text = (some e.parse, { c with store := s, ticks := c.ticks + 1 }) ∧
      Keeps { c with store := s, ticks := c.ticks + 1 } (l₁ ++ l₂ ++ [e.touch c.ticks]) := by
  have hs := h.holds.of_perm List.perm_middle
  refine ⟨c.store.touch (c.fingerprint e.text) e.text c.ticks, ?_, ?_, ?_⟩
  · rw [lookup, hs.find?_eq_some]
    simp only [he, Bool.false_eq_true, if_false]
  · exact (hs.touch c.ticks).of_perm (List.perm_append_singleton _ _).symm
  · refine (h.recent.sublist ((List.sublist_cons_self e l₂).append_left l₁)).append ?_
    exact Nat.max_eq_right (Nat.le_of_lt (h.recent.past e (by simp)))

theorem purge (h : Keeps c es) (now : Nat) :
    ∃ c', c.purge now = ((es.filter (·.isExpired c.limits.maxAge now)).length, c') ∧
      Keeps c' (es.filter fun e => !e.isExpired c.limits.maxAge now) ∧ c'.limits = c.limits ∧
      c'.stats = { c.stats with expirations :=
        c.stats.expirations + (es.filter (·.isExpired c.limits.maxAge now)).length } := by
  obtain ⟨hp, hfp⟩ := h.holds.entries
  have ha := c.order.perm c.store.entries
  let old (e : Entry) : Bool := e.isExpired c.limits.maxAge now
  let ps := (c.order.arrange c.store.entries).filter fun p => old p.2
  have hps : (ps.map Prod.snd).Perm (es.filter old) := by
    have h' := ((ha.map Prod.snd).trans hp).filter old
    rwa [List.filter_map] at h'
  have hes : es.Perm (ps.map Prod.snd ++ es.filter fun e => !old e) :=
    (List.filter_append_perm old es).symm.trans (hps.symm.append_right _)
  obtain ⟨s, hr, hs⟩ := (h.holds.of_perm hes).removeAll
    fun p hp' => hfp p (ha.subset (List.mem_filter.mp hp').1)
  have hn : ps.length = (es.filter old).length := by simpa using hps.length_eq
  refine ⟨if ps.length = 0 then { c with store := s } else c.expire ps.length s, ?_, ?_, ?_⟩
  · rw [Cache.purge, hr]
    simp only [hn, old]
  · split <;> exact ⟨hs, h.recent.sublist List.filter_sublist⟩
  · rw [← hn]
    split
    · next h0 => simp [h0]
    · exact ⟨rfl, rfl⟩

theorem oldest? (h : Keeps c (e :: es)) :
    Entry.oldest? (c.order.arrange c.store.entries) = some (c.fingerprint e.text, e) := by
  obtain ⟨hp, hfp⟩ := h.holds.entries
  have ha := c.order.perm c.store.entries
  have hm : ((c.order.arrange c.store.entries).map Prod.snd).Perm (e :: es) :=
    (ha.map Prod.snd).trans hp
  cases ho : Entry.oldest? (c.order.arrange c.store.entries) with
  | none =>
    cases hl : c.order.arrange c.store.entries with
    | nil => simp [hl] at hm
    | cons p ps => exact absurd (hl ▸ ho) (Entry.oldest?_ne_none p ps)
  | some p =>
    obtain ⟨hmem, hle⟩ := Entry.oldest?_eq_some ho
    obtain ⟨q, hq, hqe⟩ := List.mem_map.mp (hm.symm.subset (List.mem_cons_self (a := e)))
    have hpe : p.2 = e := by
      obtain hpe | hpe := List.mem_cons.mp (hm.subset (List.mem_map_of_mem hmem))
      · exact hpe
      · have hlt := (List.pairwise_cons.mp h.recent.sorted).1 p.2 hpe
        have hge := hle q hq
        rw [hqe] at hge
        omega
    have hpf := hfp p (ha.subset hmem)
    rw [← hpe, ← hpf]

theorem evict? (h : Keeps c (e :: es)) :
    ∃ c', c.evict? = some c' ∧ Keeps c' es ∧ c'.limits = c.limits ∧
      c'.stats = { c.stats with evictions := c.stats.evictions + 1 } := by
  obtain ⟨s, hr, hs⟩ := h.holds.remove?_eq_some
  refine ⟨{ c with
    store := s
    stats := { c.stats with evictions := c.stats.evictions + 1 }
    meter := { c.meter with evicted := c.meter.evicted + 1 } }, ?_, ?_, rfl, rfl⟩
  · rw [Cache.evict?, h.oldest?]
    simp only [hr, Option.map_some]
  · exact ⟨hs, h.recent.sublist (List.sublist_cons_self e es)⟩

theorem shrink (h : Keeps c es) (hn : n ≤ es.length) :
    Keeps (shrink n c) (es.drop n) ∧ (Cache.shrink n c).limits = c.limits ∧
      (Cache.shrink n c).stats = { c.stats with evictions := c.stats.evictions + n } := by
  induction n generalizing c es with
  | zero => exact ⟨h, rfl, rfl⟩
  | succ n ih =>
    cases es with
    | nil => simp at hn
    | cons e es =>
      obtain ⟨c', hc, hk, hl, hst⟩ := h.evict?
      obtain ⟨hk', hl', hst'⟩ := ih hk (by simpa using hn)
      rw [Cache.shrink, hc]
      refine ⟨hk', hl'.trans hl, ?_⟩
      simp only [hst', hst]
      congr 1
      omega

end Keeps

/-- The flat cache keeps the same and has counted the same. -/
def Refines (c : Cache) (f : Flat) : Prop :=
  ∃ es, Keeps c es ∧ f = ⟨c.limits, es.map Entry.forget, c.stats⟩

def Agree {α : Type} (r : α × Cache) (r' : α × Flat) : Prop :=
  ∃ a c f, r = (a, c) ∧ r' = (a, f) ∧ Refines c f

variable {f f' : Flat}

theorem find?_forget (es : List Entry) (text : String) :
    (es.map Entry.forget).find? (·.text = text) = (es.find? (·.text = text)).map Entry.forget :=
  List.find?_map

theorem filter_forget (es : List Entry) (p : Kept → Bool) :
    (es.map Entry.forget).filter p = (es.filter fun e => p e.forget).map Entry.forget :=
  List.filter_map

theorem Keeps.found (h : Keeps c es) (he : es.find? (·.text = text) = some e) :
    ∃ l₁ l₂, e.text = text ∧ es = l₁ ++ e :: l₂ ∧ es.filter (·.text ≠ text) = l₁ ++ l₂ := by
  obtain ⟨ht, l₁, l₂, rfl, -⟩ := List.find?_eq_some_iff_append.mp he
  have ht' : e.text = text := by simpa using ht
  have hn := (h.holds.of_perm List.perm_middle).notMem_texts
  refine ⟨l₁, l₂, ht', rfl, ?_⟩
  rw [List.filter_append, List.filter_cons_of_neg (by simpa using ht'), ← List.filter_append,
    List.filter_eq_self]
  intro d hd
  simpa [← ht'] using hn d hd

namespace Refines

theorem size (h : Refines c f) : c.size = f.kept.length := by
  obtain ⟨es, hk, rfl⟩ := h
  rw [List.length_map]
  exact hk.holds.size

theorem limits (h : Refines c f) : c.limits = f.limits := by
  obtain ⟨es, -, rfl⟩ := h
  rfl

theorem stats (h : Refines c f) : c.stats = f.stats := by
  obtain ⟨es, -, rfl⟩ := h
  rfl

theorem texts (h : Refines c f) : (f.kept.map Kept.text).Nodup := by
  obtain ⟨es, hk, rfl⟩ := h
  rw [List.map_map]
  exact hk.holds.texts

theorem entries (h : Refines c f) : (c.store.entries.map (·.2.forget)).Perm f.kept := by
  obtain ⟨es, hk, rfl⟩ := h
  have hp := hk.holds.entries.1.map Entry.forget
  rwa [List.map_map] at hp

theorem lookup_absent (h : Refines c f) (ht : ∀ k ∈ f.kept, k.text ≠ text) :
    c.lookup now text = (none, c) := by
  obtain ⟨es, hk, rfl⟩ := h
  exact hk.lookup_eq_none fun e he => ht e.forget (List.mem_map_of_mem he)

theorem lookup (h : Refines c f) (now : Nat) (text : String) :
    Agree (c.lookup now text) (f.lookup now text) := by
  obtain ⟨es, hk, rfl⟩ := h
  rw [Flat.lookup, find?_forget]
  cases hf : es.find? (·.text = text) with
  | none => exact ⟨_, _, _, hk.lookup_eq_none (by simpa using hf), rfl, es, hk, rfl⟩
  | some e =>
    obtain ⟨l₁, l₂, rfl, rfl, hfilter⟩ := hk.found hf
    have hothers : (((l₁ ++ e :: l₂).map Entry.forget).filter (·.text ≠ e.text)) =
        (l₁ ++ l₂).map Entry.forget := by
      rw [filter_forget, ← hfilter]
      rfl
    have hold : e.forget.isExpired c.limits.maxAge now = e.isExpired c.limits.maxAge now := rfl
    simp only [Option.map_some, hothers, hold]
    cases he : e.isExpired c.limits.maxAge now with
    | true =>
      obtain ⟨s, hl, hs⟩ := hk.lookup_expired he
      exact ⟨_, _, _, hl, rfl, l₁ ++ l₂, hs, rfl⟩
    | false =>
      obtain ⟨s, hl, hs⟩ := hk.lookup_fresh he
      refine ⟨_, _, _, hl, rfl, _, hs, ?_⟩
      simp [Entry.forget, Entry.touch]

theorem get (h : Refines c f) (now : Nat) (text : String) :
    Agree (c.get now text) (f.get now text) := by
  obtain ⟨a, c', f', hc, hf, es, hk, rfl⟩ := h.lookup now text
  rw [Cache.get, Flat.get, hc, hf]
  cases a with
  | none => exact ⟨_, _, _, rfl, rfl, es, ⟨hk.holds, hk.recent⟩, rfl⟩
  | some p => exact ⟨_, _, _, rfl, rfl, es, ⟨hk.holds, hk.recent⟩, rfl⟩

theorem purge (h : Refines c f) (now : Nat) : Agree (c.purge now) (f.purge now) := by
  obtain ⟨es, hk, rfl⟩ := h
  obtain ⟨c', hc, hk', hl, hs⟩ := hk.purge now
  rw [hc, Flat.purge]
  simp only [filter_forget, List.length_map]
  refine ⟨_, _, _, rfl, rfl, _, hk', ?_⟩
  rw [hl, hs]
  rfl

theorem clear (h : Refines c f) : Refines c.clear { f with kept := [] } := by
  obtain ⟨es, hk, rfl⟩ := h
  exact ⟨[], ⟨.empty, hk.recent.sublist (List.nil_sublist es)⟩, rfl⟩

theorem evict (h : Refines c f) (hn : n ≤ f.kept.length) :
    Refines (shrink n c) (f.evict n) := by
  obtain ⟨es, hk, rfl⟩ := h
  obtain ⟨hk', hl, hs⟩ := hk.shrink (by simpa using hn)
  exact ⟨_, hk', by rw [Flat.evict, hl, hs, List.map_drop]⟩

theorem fit (h : Refines c f) (now : Nat) : Refines (c.fit now) (f.fit now) := by
  rw [Cache.fit, Flat.fit, h.size, h.limits]
  by_cases ho : f.limits.capacity < f.kept.length
  · obtain ⟨a, c', f', hc, hf, hr⟩ := h.purge now
    have hl : f'.limits = f.limits := (congrArg (·.2.limits) hf).symm
    rw [if_pos ho, if_pos ho, hc, hf]
    simp only [hr.size, hr.limits, hl]
    exact hr.evict (Nat.sub_le _ _)
  · rw [if_neg ho, if_neg ho]
    exact h

theorem insert (h : Refines c f) (ht : ∀ k ∈ f.kept, k.text ≠ text) (now : Nat) (p : Parse) :
    Refines (c.insert now text p) (f.insert now text p) := by
  obtain ⟨es, hk, rfl⟩ := h
  let e : Entry := ⟨text, p, now, c.ticks⟩
  let c' : Cache :=
    { c with store := c.store.insert (c.fingerprint text) e, ticks := c.ticks + 1 }
  have hs : c'.store.Holds c.fingerprint (e :: es) :=
    hk.holds.insert (e := e) fun d hd => ht d.forget (List.mem_map_of_mem hd)
  have hk' : Keeps c' (es ++ [e]) :=
    ⟨hs.of_perm (List.perm_append_singleton e es).symm, hk.recent.append rfl⟩
  have hsize : c'.store.size ≠ c.store.size := by
    rw [hs.size, hk.holds.size, List.length_cons]
    omega
  have hc : c.insert now text p = (c'.fit now).tell := if_neg hsize
  have hr : Refines c' ⟨c.limits, es.map Entry.forget ++ [⟨text, p, now⟩], c.stats⟩ :=
    ⟨_, hk', by simp [Entry.forget, e, c']⟩
  obtain ⟨ds, hd, hf⟩ := hr.fit now
  rw [hc]
  exact ⟨ds, ⟨hd.holds, hd.recent⟩, hf⟩

theorem parse (h : Refines c f) (text : String) : Agree (c.parse text) (f.parse text) := by
  obtain ⟨es, hk, rfl⟩ := h
  rw [Cache.parse, Flat.parse]
  cases Template.parse text with
  | ok t => exact ⟨_, _, _, rfl, rfl, es, ⟨hk.holds, hk.recent⟩, rfl⟩
  | error e => exact ⟨_, _, _, rfl, rfl, es, ⟨hk.holds, hk.recent⟩, rfl⟩

end Refines

theorem Flat.notMem_of_get (h : f.get now text = (none, f')) : ∀ k ∈ f'.kept, k.text ≠ text := by
  rw [Flat.get, Flat.lookup] at h
  cases hf : f.kept.find? (·.text = text) with
  | none =>
    rw [hf] at h
    cases h
    simpa using hf
  | some k =>
    simp only [hf] at h
    split at h
    · cases h
    · next hnone =>
      split at hnone
      · cases hnone
        cases h
        intro d hd
        simpa using (List.mem_filter.mp hd).2
      · cases hnone

theorem Flat.kept_of_parse {r : Except Fault Parse} (h : f.parse text = (r, f')) :
    f'.kept = f.kept := by
  rw [Flat.parse] at h
  split at h <;> cases h <;> rfl

namespace Refines

theorem resolve (h : Refines c f) (now : Nat) (text : String) :
    Agree (c.resolve now text) (f.resolve now text) := by
  obtain ⟨a, c₁, f₁, hc₁, hf₁, h₁⟩ := h.get now text
  rw [Cache.resolve, Flat.resolve, hc₁, hf₁]
  cases a with
  | some p => exact ⟨_, _, _, rfl, rfl, h₁⟩
  | none =>
    have ht := Flat.notMem_of_get hf₁
    obtain ⟨r, c₂, f₂, hc₂, hf₂, h₂⟩ := h₁.parse text
    simp only [lead, h₁.lookup_absent ht, parseAndKeep, hc₂, hf₂]
    cases r with
    | error e => exact ⟨_, _, _, rfl, rfl, h₂⟩
    | ok p =>
      rw [← Flat.kept_of_parse hf₂] at ht
      exact ⟨_, _, _, rfl, rfl, h₂.insert ht now p⟩

theorem step {s : Session} (h : Refines s.cache f) (r : Request) :
    ∃ a s' f', s.step r = (a, s') ∧ f.step s.now r = (a, s'.now, f') ∧ Refines s'.cache f' := by
  cases r with
  | get text =>
    obtain ⟨a, c', f', hc, hf, h'⟩ := h.get s.now text
    exact ⟨_, _, f', by rw [Session.step, hc], by rw [Flat.step, hf], h'⟩
  | resolve text =>
    obtain ⟨a, c', f', hc, hf, h'⟩ := h.resolve s.now text
    exact ⟨_, _, f', by rw [Session.step, hc], by rw [Flat.step, hf], h'⟩
  | purge =>
    obtain ⟨a, c', f', hc, hf, h'⟩ := h.purge s.now
    exact ⟨_, _, f', by rw [Session.step, hc], by rw [Flat.step, hf], h'⟩
  | clear => exact ⟨_, _, _, rfl, rfl, h.clear⟩
  | pass ms => exact ⟨_, _, _, rfl, rfl, h⟩

theorem reorder (h : Refines c f) (order : Order) : Refines { c with order } f := by
  obtain ⟨es, hk, rfl⟩ := h
  exact ⟨es, ⟨hk.holds, hk.recent⟩, rfl⟩

theorem trace {s : Session} (h : Refines s.cache f) (rs : List (Order × Request)) :
    s.trace rs = f.trace (rs.map Prod.snd) s.now := by
  induction rs generalizing s f with
  | nil => rfl
  | cons r rs ih =>
    obtain ⟨order, r⟩ := r
    obtain ⟨a, s', f', hs, hf, h'⟩ :=
      step (s := { s with cache := { s.cache with order } }) (h.reorder order) r
    rw [Session.trace, List.map_cons, Flat.trace, hs, hf]
    simp only [ih h', h'.size, h'.stats]

end Refines

theorem refines_empty (limits : Limits) (fp : String → UInt32) :
    Refines (.empty limits fp) (.empty limits) :=
  ⟨[], ⟨.empty, .nil, by simp⟩, rfl⟩

/-- A cache does what the flat one does, whatever the fingerprints of the texts are and
in whatever order the entries of the store are gone through. To get or parse a text is to
resolve it. -/
theorem Session.trace_eq_flat (limits : Limits) (fp : String → UInt32)
    (rs : List (Order × Request)) :
    (Session.start limits fp).trace rs = (Flat.empty limits).trace (rs.map Prod.snd) 0 :=
  (refines_empty limits fp).trace rs

end Spintax.Cache
